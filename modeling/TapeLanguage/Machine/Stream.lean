/-!
# Streams

An `Input` delivers bytes: from a byte stream, from code points that are encoded one at a time in
UTF-8, or from chunks. One reading takes one unit of the stream, and the bytes of the unit after the
first are left to the reader. A surrogate among the code points has no encoding, so reading it gives
no byte. An `Output` takes bytes: it keeps them as they are, or it is a text that takes each byte as
the character of that code point. A text wrapped around a byte buffer is used through the buffer
(`unwrapped`).
-/

set_option autoImplicit false

namespace TapeLanguage

/-! ## Code points -/

/-- The code points from U+D800 to U+DFFF, which are no characters, numbered from zero on. -/
abbrev Surrogate := Fin 0x800

/-- The number of a surrogate among all code points. -/
def Surrogate.codePoint (s : Surrogate) : Nat :=
  0xD800 + s.val

/-- A unit of a text stream. -/
inductive CodePoint where
  /-- A character. -/
  | char (c : Char)
  /-- A surrogate that stands alone. -/
  | surrogate (s : Surrogate)
  deriving DecidableEq, Repr

/-- The bytes that encode a code point in UTF-8; a surrogate has no encoding. -/
def CodePoint.utf8 : CodePoint → List UInt8
  | char c => String.utf8EncodeChar c
  | surrogate _ => []

/-! ## Input -/

/-- What is left of an input. -/
inductive Input where
  /-- Bytes. -/
  | bytes (rest : List UInt8)
  /-- A text over a buffer of bytes. -/
  | wrapped (rest : List UInt8)
  /-- Code points. -/
  | codePoints (rest : List CodePoint)
  /-- Chunks of bytes; an empty one is an end of input that can be passed. -/
  | chunks (rest : List (List UInt8))
  /-- Bytes, and an interrupt in place of the end. -/
  | interrupting (rest : List UInt8)
  /-- A stream that has been closed. -/
  | closed
  deriving DecidableEq, Repr

/-- What one reading gives. -/
inductive Reading where
  /-- A byte, and the bytes of the same unit after it. -/
  | delivered (byte : UInt8) (more : List UInt8)
  /-- A code point that has no encoding. -/
  | unencodable (s : Surrogate)
  /-- No input. -/
  | ended
  /-- The user's interrupt. -/
  | interrupted
  /-- The stream is closed. -/
  | refused
  deriving DecidableEq, Repr

namespace Input

/-- The empty input. -/
def empty : Input := bytes []

/-- The characters of a text. -/
def text (cs : List Char) : Input := codePoints (cs.map .char)

/-- The stream that is read: the buffer of a wrapped one. -/
def unwrapped : Input → Input
  | wrapped rest => bytes rest
  | other => other

/-- What becomes of a stream that nobody holds but by its buffer: a text that is let go closes the
buffer that it is wrapped around. -/
def released : Input → Input
  | wrapped _ => closed
  | other => other

/-- One unit of bytes as a reading. -/
def ofUnit : List UInt8 → Reading
  | byte :: more => .delivered byte more
  | [] => .ended

/-- Read one unit. -/
def read : Input → Reading × Input
  | bytes (b :: rest) => (.delivered b [], bytes rest)
  | bytes [] => (.ended, bytes [])
  | wrapped (b :: rest) => (.delivered b [], wrapped rest)
  | wrapped [] => (.ended, wrapped [])
  | codePoints (.char c :: rest) => (ofUnit (String.utf8EncodeChar c), codePoints rest)
  | codePoints (.surrogate s :: rest) => (.unencodable s, codePoints rest)
  | codePoints [] => (.ended, codePoints [])
  | chunks (chunk :: rest) => (ofUnit chunk, chunks rest)
  | chunks [] => (.ended, chunks [])
  | interrupting (b :: rest) => (.delivered b [], interrupting rest)
  | interrupting [] => (.interrupted, interrupting [])
  | closed => (.refused, closed)

/-- All bytes that the rest of an input holds; a surrogate holds none. -/
def contents : Input → List UInt8
  | bytes rest | wrapped rest | interrupting rest => rest
  | codePoints rest => rest.flatMap CodePoint.utf8
  | chunks rest => rest.flatten
  | closed => []

end Input

/-! ## Output -/

/-- What an output has taken, and how often it was flushed. -/
inductive Output where
  /-- Bytes. -/
  | bytes (written : Array UInt8) (flushes : Nat)
  /-- A text over a buffer of bytes. -/
  | wrapped (written : Array UInt8) (flushes : Nat)
  /-- Bytes, with no way to flush them. -/
  | unflushed (written : Array UInt8)
  /-- Characters. -/
  | text (written : Array Char)
  deriving DecidableEq, Repr

namespace Output

/-- The stream that is written: the buffer of a wrapped one. -/
def unwrapped : Output → Output
  | wrapped written flushes => bytes written flushes
  | other => other

/-- Write one byte. -/
def write (o : Output) (b : UInt8) : Output :=
  match o with
  | bytes written flushes => bytes (written.push b) flushes
  | wrapped written flushes => wrapped (written.push b) flushes
  | unflushed written => unflushed (written.push b)
  | text written => text (written.push (Char.ofNat b.toNat))

/-- Flush, where that is possible. -/
def flush : Output → Output
  | bytes written flushes => bytes written (flushes + 1)
  | wrapped written flushes => wrapped written (flushes + 1)
  | other => other

/-- An output of the same kind that has taken nothing yet. -/
def cleared : Output → Output
  | bytes _ _ => bytes #[] 0
  | wrapped _ _ => wrapped #[] 0
  | unflushed _ => unflushed #[]
  | text _ => text #[]

/-- Write the bytes of a text in ASCII. -/
def writeText (o : Output) (t : String) : Output :=
  t.toList.foldl (fun out c => out.write c.toNat.toUInt8) o

/-- The bytes taken. -/
def contents : Output → List UInt8
  | bytes written _ | wrapped written _ | unflushed written => written.toList
  | text written => written.toList.map fun c => c.toNat.toUInt8

/-- A byte is written after the bytes taken before. -/
theorem contents_write (o : Output) (b : UInt8) : (o.write b).contents = o.contents ++ [b] := by
  cases o with
  | bytes w n => simp [write, contents]
  | wrapped w n => simp [write, contents]
  | unflushed w => simp [write, contents]
  | text w =>
    have hb : b.toNat.isValidChar := Or.inl (Nat.lt_trans b.toNat_lt (by decide))
    have hc : (Char.ofNat b.toNat).toNat = b.toNat := by
      rw [Char.ofNat, dif_pos hb]
      rfl
    simp [write, contents, hc]

/-- Flushing takes nothing. -/
@[simp] theorem contents_flush (o : Output) : o.flush.contents = o.contents := by
  cases o <;> rfl

end Output

end TapeLanguage
