import TapeLanguage.File.Encoding
import TapeLanguage.Text

/-!
# Source files

`readSource` reads a source text from a file. What opens files and what the names of encodings stand
for is a parameter (`FileSource`). The checks come in a fixed order: the name of the encoding and
the path must be usable, the file must open, the name must stand for a codec of texts, the bytes of
the file must be read, and the codec must find characters in all of them. Ends of lines are then
written as line feeds.

A path is read from a text by cutting it at slashes. Empty parts and single points vanish; two
points stay, since they lead to the parent only of what the path before them denotes. The text of a
path is its shortest written form.

A `Directory` holds files and folders below one place; `Directory.openFile` follows a path from
there, part by part, and fails at the first part that cannot be followed. What lies above the
directory is empty.
-/

set_option autoImplicit false

namespace TapeLanguage

/-! ## Paths -/

/-- A path. -/
structure Path where
  /-- The slashes that begin a path from the root: one, or exactly two; none for a relative path. -/
  anchor : String := ""
  /-- The parts. -/
  parts : List String := []
  deriving DecidableEq, Repr

namespace Path

/-- The anchor of a text that begins with a number of slashes. -/
def anchorOf : Nat → String
  | 0 => ""
  | 2 => "//"
  | _ => "/"

/-- The path that a text denotes. -/
def ofText (text : String) : Path :=
  let cs := text.toList
  ⟨anchorOf (cs.takeWhile (· == '/')).length,
    (Text.pieces '/' text).filter fun part => part != "" && part != "."⟩

/-- The written form; a path without parts is the current directory. -/
def text (p : Path) : String :=
  if p.anchor = "" && p.parts.isEmpty then "." else p.anchor ++ "/".intercalate p.parts

/-- Whether the path starts at the root. -/
def isAbsolute (p : Path) : Bool :=
  p.anchor != ""

end Path

/-! ## Directories -/

/-- Why a path leads to no file. -/
inductive OpenFailure where
  /-- A part has no entry. -/
  | missing
  /-- The path leads to a folder. -/
  | isFolder
  /-- A part follows a file. -/
  | notFolder
  /-- A part, or the path as a whole, is too long. -/
  | tooLong
  /-- A reason given by the system. -/
  | other (detail : String)
  deriving DecidableEq, Repr

namespace OpenFailure

/-- The reason in words. -/
def text : OpenFailure → String
  | missing => "No such file or directory"
  | isFolder => "Is a directory"
  | notFolder => "Not a directory"
  | tooLong => "File name too long"
  | other detail => detail

end OpenFailure

/-- A file that is open: its bytes, or the reason given by the system why they cannot be read. -/
abbrev OpenFile := Except String (List UInt8)

/-- What reading source files relies on. -/
structure FileSource where
  /-- Opening the file that a path leads to. -/
  openFile : Path → Except OpenFailure OpenFile
  /-- What the names of encodings stand for. -/
  codecs : Codec.Names

/-- Files and folders below one place. -/
structure Directory where
  /-- The files by the parts of their paths. -/
  files : List (List String × List UInt8) := []
  /-- The folders that are known besides those that hold files. -/
  folders : List (List String) := []
  deriving Repr

namespace Directory

/-- A place that parts of a path lead to. -/
inductive Place where
  /-- A number of levels above the directory. -/
  | above (levels : Nat)
  /-- The folder with the given parts. -/
  | folder (parts : List String)
  /-- A file. -/
  | file (contents : List UInt8)

/-- The greatest number of bytes of a part. -/
def maxPartBytes : Nat := 255

/-- The number of bytes that a path must stay below. -/
def pathByteLimit : Nat := 4096

/-- The contents of the file with the given parts. -/
def file? (d : Directory) (parts : List String) : Option (List UInt8) :=
  d.files.lookup parts

/-- The given parts lead to a folder that holds a file or another folder, or that is known. -/
def hasFolder (d : Directory) (parts : List String) : Bool :=
  parts.isEmpty || d.folders.any parts.isPrefixOf || d.files.any fun entry =>
    parts.isPrefixOf entry.1 && parts.length < entry.1.length

/-- The entry of a folder with a given name. -/
def entry (d : Directory) (parts : List String) : Except OpenFailure Place :=
  match d.file? parts with
  | some contents => .ok (.file contents)
  | none => if d.hasFolder parts then .ok (.folder parts) else .error .missing

/-- Follow one part of a path. -/
def follow (d : Directory) (place : Place) (part : String) : Except OpenFailure Place :=
  match place with
  | .file _ => .error .notFolder
  | .above levels =>
    if part = ".." then .ok (.above (levels + 1))
    else if maxPartBytes < part.utf8ByteSize then .error .tooLong
    else .error .missing
  | .folder parts =>
    if part = ".." then
      .ok (if parts.isEmpty then .above 1 else .folder parts.dropLast)
    else if maxPartBytes < part.utf8ByteSize then .error .tooLong
    else d.entry (parts ++ [part])

/-- Follow all parts of a path. -/
def followAll (d : Directory) : Place → List String → Except OpenFailure Place
  | place, [] => .ok place
  | place, part :: rest =>
    match d.follow place part with
    | .ok next => followAll d next rest
    | .error e => .error e

/-- Open the file that a path leads to. -/
def openFile (d : Directory) (path : Path) : Except OpenFailure OpenFile :=
  if pathByteLimit ≤ path.text.utf8ByteSize then .error .tooLong
  else
    match d.followAll (if path.isAbsolute then .above 1 else .folder []) path.parts with
    | .ok (.file contents) => .ok (.ok contents)
    | .ok _ => .error .isFolder
    | .error e => .error e

/-- The files of the directory, with the names of encodings that come with the library. -/
def source (d : Directory) : FileSource :=
  ⟨d.openFile, Encoding.ofName⟩

end Directory

/-! ## Source files -/

/-- Why an open file gives no text. -/
inductive ReadFailure where
  /-- Some of its bytes are malformed. -/
  | malformed (m : Malformed)
  /-- A reason given by the system. -/
  | other (detail : String)
  deriving DecidableEq, Repr

/-- The reason in words. -/
def ReadFailure.text : ReadFailure → String
  | malformed m => m.message
  | other detail => detail

/-- Why a source text cannot be read. -/
inductive SourceError where
  /-- The path leads to no file. -/
  | cannotOpen (path : String) (failure : OpenFailure)
  /-- The file cannot be read, or it is malformed. -/
  | cannotRead (path : String) (failure : ReadFailure)
  /-- The codec refuses the bytes of the file. -/
  | refused (reason : String)
  /-- The path holds a null character. -/
  | nullInPath
  /-- The name of the encoding holds a null character. -/
  | nullInEncoding
  /-- There is no name of an encoding. -/
  | noEncoding
  /-- The name stands for no encoding. -/
  | unknownEncoding (name : String)
  /-- The name stands for a conversion whose result is no text. -/
  | bytewiseEncoding (name : String)
  deriving DecidableEq, Repr

namespace SourceError

/-- The number of bytes to which the name of a conversion is clipped. -/
def shownNameBytes : Nat := 400

/-- The text shown to the reader. The name of a conversion is clipped, and an unknown name is
not. -/
def message : SourceError → String
  | cannotOpen path failure => "SourceError: could not open file " ++ path ++ ": " ++ failure.text
  | cannotRead path failure => "SourceError: could not read file " ++ path ++ ": " ++ failure.text
  | refused reason => reason
  | nullInPath => "embedded null byte"
  | nullInEncoding => "embedded null character"
  | noEncoding => "open() argument 'encoding' must be str or None, not list"
  | unknownEncoding name => "unknown encoding: " ++ name
  | bytewiseEncoding name =>
    "'" ++ Text.clipped shownNameBytes name ++
      "' is not a text encoding; use codecs.open() to handle arbitrary codecs"

end SourceError

/-- The null character. -/
def holdsNull (text : String) : Bool :=
  text.toList.contains '\x00'

/-- The name of the encoding, if it is usable. -/
def checkedEncodingName : Option String → Except SourceError String
  | none => .error .noEncoding
  | some name => if holdsNull name then .error .nullInEncoding else .ok name

namespace FileSource

/-- Open a file. -/
def openSource (files : FileSource) (path : Path) : Except SourceError OpenFile :=
  if holdsNull path.text then .error .nullInPath
  else (files.openFile path).mapError (.cannotOpen path.text)

/-- The codec with a name. -/
def findCodec (files : FileSource) (name : String) : Except SourceError Codec :=
  match files.codecs name with
  | .text codec => .ok codec
  | .bytewise => .error (.bytewiseEncoding name)
  | .unknown => .error (.unknownEncoding name)

end FileSource

/-- The source text in an open file. -/
def decodeSource (path : Path) (codec : Codec) : OpenFile → Except SourceError String
  | .error detail => .error (.cannotRead path.text (.other detail))
  | .ok bytes =>
    match codec bytes with
    | .ok cs => .ok (Text.unifiedNewlines cs)
    | .error (.malformed m) => .error (.cannotRead path.text (.malformed m))
    | .error (.refused reason) => .error (.refused reason)

/-- Read a source text. -/
def readSource (files : FileSource) (path : String) (encodingName : Option String) :
    Except SourceError String :=
  let place := Path.ofText path
  match checkedEncodingName encodingName with
  | .error e => .error e
  | .ok name =>
    match files.openSource place with
    | .error e => .error e
    | .ok file =>
      match files.findCodec name with
      | .error e => .error e
      | .ok codec => decodeSource place codec file

end TapeLanguage
