import TapeLanguage.Text

/-!
# Encodings

A `Codec` turns the bytes of a file into characters. It may find malformed bytes, of which it tells
where they are and what is wrong with them (`Malformed`), or it may refuse the bytes altogether.
What names stand for is not settled here: whoever offers the files also offers a `Codec.Names`.

The names that come with the library are those of UTF-8, UTF-16, Latin-1 and ASCII
(`Encoding.ofName`). Letter case does not count, and neither does what stands between the words of a
name. One name stands for the encoding of the surroundings, and it must be written exactly
(`Encoding.surroundingsName`).

UTF-8 is read by a machine with one state (`Encoding.Pending`): the sequence begun, how many bytes
it lacks, and the range of the next one. The range excludes overlong forms, surrogates and code
points beyond the last. UTF-16 is read by pairs of bytes. Without a byte order of its own in the
name, a text in it must begin with a byte order mark (`Encoding.decodeMarked`).
-/

set_option autoImplicit false

namespace TapeLanguage

/-! ## Codecs -/

/-- Malformed bytes. -/
structure Malformed where
  /-- The encoding that was expected, as messages call it. -/
  encoding : String
  /-- The position of the first malformed byte. -/
  first : Nat
  /-- The position of the last malformed byte. -/
  last : Nat
  /-- The first malformed byte. -/
  byte : UInt8
  /-- Why the bytes are malformed. -/
  reason : String
  deriving DecidableEq, Repr

namespace Malformed

/-- The malformed bytes in words. -/
def bytesText (m : Malformed) : String :=
  if m.first = m.last then
    "byte 0x" ++ String.ofList (Text.hexDigits 2 m.byte.toNat) ++ " in position " ++
      toString m.first
  else "bytes in position " ++ toString m.first ++ "-" ++ toString m.last

/-- What is wrong, in words. -/
def message (m : Malformed) : String :=
  "'" ++ m.encoding ++ "' codec can't decode " ++ m.bytesText ++ ": " ++ m.reason

end Malformed

/-- Why a codec gives no characters. -/
inductive CodecFailure where
  /-- Some of the bytes are malformed. -/
  | malformed (m : Malformed)
  /-- The bytes are refused, for a reason in words. -/
  | refused (reason : String)
  deriving DecidableEq, Repr

/-- The characters that bytes stand for. -/
abbrev Codec := List UInt8 → Except CodecFailure (List Char)

namespace Codec

/-- What a name stands for. -/
inductive Named where
  /-- A codec of texts. -/
  | text (codec : Codec)
  /-- A conversion whose result is no text. -/
  | bytewise
  /-- Nothing. -/
  | unknown

/-- What the names of encodings stand for. -/
abbrev Names := String → Named

end Codec

namespace Encoding

/-! ## UTF-8 -/

/-- A sequence that has begun. -/
structure Pending where
  /-- The position of its first byte. -/
  first : Nat
  /-- Its first byte. -/
  lead : UInt8
  /-- The bits read so far. -/
  value : Nat
  /-- The number of bytes that it lacks after the next one. -/
  lacking : Nat
  /-- The least next byte. -/
  low : UInt8
  /-- The greatest next byte. -/
  high : UInt8

/-- The sequence begun by a byte that does not stand alone. -/
def begin? (position : Nat) (b : UInt8) : Option Pending :=
  if b < 0xC2 then none
  else if b < 0xE0 then some ⟨position, b, b.toNat - 0xC0, 0, 0x80, 0xBF⟩
  else if b < 0xF0 then
    some ⟨position, b, b.toNat - 0xE0, 1, if b = 0xE0 then 0xA0 else 0x80,
      if b = 0xED then 0x9F else 0xBF⟩
  else if b < 0xF5 then
    some ⟨position, b, b.toNat - 0xF0, 2, if b = 0xF0 then 0x90 else 0x80,
      if b = 0xF4 then 0x8F else 0xBF⟩
  else none

/-- The sequence with one more byte. -/
def Pending.extend (s : Pending) (b : UInt8) : Pending :=
  { s with
    value := s.value * 64 + (b.toNat - 0x80)
    lacking := s.lacking - 1
    low := 0x80
    high := 0xBF }

/-- Whether a byte continues the sequence. -/
def Pending.accepts (s : Pending) (b : UInt8) : Bool :=
  s.low ≤ b && b ≤ s.high

/-- The sequence, broken off before a position. -/
def Pending.broken (s : Pending) (position : Nat) (reason : String) : Malformed :=
  ⟨"utf-8", s.first, position - 1, s.lead, reason⟩

/-- Decode UTF-8 from a position on, after the characters `done`. -/
def decodeUtf8 :
    List UInt8 → Nat → Option Pending → Array Char → Except Malformed (Array Char)
  | [], _, none, done => .ok done
  | [], position, some s, _ => .error (s.broken position "unexpected end of data")
  | b :: rest, position, none, done =>
    if b < 0x80 then decodeUtf8 rest (position + 1) none (done.push (Char.ofNat b.toNat))
    else
      match begin? position b with
      | some s => decodeUtf8 rest (position + 1) (some s) done
      | none => .error ⟨"utf-8", position, position, b, "invalid start byte"⟩
  | b :: rest, position, some s, done =>
    if s.accepts b then
      let next := s.extend b
      if s.lacking = 0 then
        decodeUtf8 rest (position + 1) none (done.push (Char.ofNat next.value))
      else decodeUtf8 rest (position + 1) (some next) done
    else .error (s.broken position "invalid continuation byte")

/-! ## UTF-16 -/

/-- Which of the two bytes of a unit comes first. -/
inductive ByteOrder where
  /-- The lower one. -/
  | little
  /-- The higher one. -/
  | big
  deriving DecidableEq, Repr

namespace ByteOrder

/-- The unit of two bytes. -/
def unit (order : ByteOrder) (a b : UInt8) : Nat :=
  match order with
  | little => b.toNat * 256 + a.toNat
  | big => a.toNat * 256 + b.toNat

/-- UTF-16 in a byte order, as messages call it. -/
def title : ByteOrder → String
  | little => "utf-16-le"
  | big => "utf-16-be"

end ByteOrder

/-- A unit that begins a pair. -/
def beginsPair (unit : Nat) : Bool :=
  0xD800 ≤ unit && unit < 0xDC00

/-- A unit that ends a pair. -/
def endsPair (unit : Nat) : Bool :=
  0xDC00 ≤ unit && unit < 0xE000

/-- Decode UTF-16 from a position on, after the characters `done`. -/
def decodeUtf16 (order : ByteOrder) :
    List UInt8 → Nat → Array Char → Except Malformed (Array Char)
  | [], _, done => .ok done
  | [b], position, _ => .error ⟨order.title, position, position, b, "truncated data"⟩
  | a :: b :: rest, position, done =>
    let unit := order.unit a b
    if endsPair unit then
      .error ⟨order.title, position, position + 1, a, "illegal encoding"⟩
    else if beginsPair unit then
      match rest with
      | c :: d :: more =>
        let other := order.unit c d
        if endsPair other then
          decodeUtf16 order more (position + 4)
            (done.push (Char.ofNat (0x10000 + (unit - 0xD800) * 0x400 + (other - 0xDC00))))
        else .error ⟨order.title, position, position + 1, a, "illegal UTF-16 surrogate"⟩
      | more =>
        .error ⟨order.title, position, position + 1 + more.length, a, "unexpected end of data"⟩
    else decodeUtf16 order rest (position + 2) (done.push (Char.ofNat unit))

/-- The byte order told by a byte order mark, and the bytes behind the mark. -/
def byteOrderMark? : List UInt8 → Option (ByteOrder × List UInt8)
  | 0xFF :: 0xFE :: rest => some (.little, rest)
  | 0xFE :: 0xFF :: rest => some (.big, rest)
  | _ => none

/-- Decode UTF-16 that begins with a byte order mark. Bytes without one are refused, unless there is
none at all, or they are malformed with the lower byte first. -/
def decodeMarked (bytes : List UInt8) : Except CodecFailure (Array Char) :=
  match byteOrderMark? bytes with
  | some (order, rest) => (decodeUtf16 order rest 2 #[]).mapError .malformed
  | none =>
    match decodeUtf16 .little bytes 0 #[] with
    | .error m => .error (.malformed m)
    | .ok done =>
      if bytes.isEmpty then .ok done else .error (.refused "UTF-16 stream does not start with BOM")

/-! ## Other encodings -/

/-- Decode ASCII from a position on, after the characters `done`. -/
def decodeAscii : List UInt8 → Nat → Array Char → Except Malformed (Array Char)
  | [], _, done => .ok done
  | b :: rest, position, done =>
    if b < 0x80 then decodeAscii rest (position + 1) (done.push (Char.ofNat b.toNat))
    else .error ⟨"ascii", position, position, b, "ordinal not in range(128)"⟩

/-- A codec that finds malformed bytes and refuses none. -/
def strict (decode : List UInt8 → Except Malformed (Array Char)) : Codec := fun bytes =>
  ((decode bytes).map Array.toList).mapError .malformed

/-- UTF-8. -/
def utf8 : Codec :=
  strict fun bytes => decodeUtf8 bytes 0 none #[]

/-- UTF-16 in the byte order that its mark tells. -/
def utf16 : Codec := fun bytes =>
  (decodeMarked bytes).map Array.toList

/-- UTF-16 in a byte order. -/
def utf16In (order : ByteOrder) : Codec :=
  strict fun bytes => decodeUtf16 order bytes 0 #[]

/-- Latin-1: every byte is the code point of a character. -/
def latin1 : Codec := fun bytes =>
  .ok (bytes.map fun b => Char.ofNat b.toNat)

/-- ASCII: seven bits. -/
def ascii : Codec :=
  strict fun bytes => decodeAscii bytes 0 #[]

/-! ## Names -/

/-- A character of the words in a name. -/
def isNameChar (c : Char) : Bool :=
  c.isAlphanum || c == '.'

/-- The words of a name in lower case with one underscore between two of them. -/
def canonicalName (name : String) : String :=
  let words := (Text.cut '_' (name.toList.map fun c => if isNameChar c then c.toLower else '_'))
  "_".intercalate ((words.filter fun word => !word.isEmpty).map String.ofList)

/-- The names of UTF-8 besides its first one. -/
def utf8Names : List String :=
  ["u8", "utf", "utf8", "utf8_ucs2", "utf8_ucs4", "cp65001"]

/-- The names of UTF-16 besides its first one. -/
def utf16Names : List String :=
  ["u16", "utf16"]

/-- The names of UTF-16 with the lower byte first, besides their first one. -/
def utf16LittleNames : List String :=
  ["unicodelittleunmarked", "utf_16le"]

/-- The names of UTF-16 with the higher byte first, besides their first one. -/
def utf16BigNames : List String :=
  ["unicodebigunmarked", "utf_16be"]

/-- The names of Latin-1 besides its first one. -/
def latin1Names : List String :=
  ["8859", "cp819", "csisolatin1", "ibm819", "iso8859", "iso8859_1", "iso_8859_1",
    "iso_8859_1_1987", "iso_ir_100", "l1", "latin", "latin1"]

/-- The names of ASCII besides its first one. -/
def asciiNames : List String :=
  ["646", "ansi_x3.4_1968", "ansi_x3_4_1968", "ansi_x3.4_1986", "cp367", "csascii", "ibm367",
    "iso646_us", "iso_646.irv_1991", "iso_ir_6", "us", "us_ascii"]

/-- Names of conversions whose result is no text, besides their first ones. -/
def bytewiseNames : List String :=
  ["base64", "base_64", "bz2", "hex", "quopri", "quoted_printable", "quotedprintable", "rot13",
    "uu", "zip", "zlib"]

/-- What the alternative names stand for. -/
def ofAlternative? (name : String) : Option Codec.Named :=
  if utf8Names.contains name then some (.text utf8)
  else if utf16Names.contains name then some (.text utf16)
  else if utf16LittleNames.contains name then some (.text (utf16In .little))
  else if utf16BigNames.contains name then some (.text (utf16In .big))
  else if latin1Names.contains name then some (.text latin1)
  else if asciiNames.contains name then some (.text ascii)
  else if bytewiseNames.contains name then some .bytewise
  else none

/-- What the first names stand for. -/
def ofFirstName : String → Codec.Named
  | "utf_8" => .text utf8
  | "utf_16" => .text utf16
  | "utf_16_le" => .text (utf16In .little)
  | "utf_16_be" => .text (utf16In .big)
  | "latin_1" => .text latin1
  | "ascii" => .text ascii
  | "base64_codec" | "bz2_codec" | "hex_codec" | "quopri_codec" | "rot_13" | "uu_codec"
  | "zlib_codec" => .bytewise
  | _ => .unknown

/-- What the words of a name stand for. In an alternative name an underscore may be written as a
point. -/
def ofWords (name : String) : Codec.Named :=
  let canonical := canonicalName name
  let underscored := String.ofList (canonical.toList.map fun c => if c = '.' then '_' else c)
  match ofAlternative? canonical with
  | some named => named
  | none =>
    match ofAlternative? underscored with
    | some named => named
    | none => ofFirstName canonical

/-- The name for the encoding of the surroundings, which is always UTF-8 here. It counts only when
written exactly like this. -/
def surroundingsName : String := "locale"

/-- What a name stands for. -/
def ofName : Codec.Names := fun name =>
  if name = surroundingsName then .text utf8 else ofWords name

end Encoding

end TapeLanguage
