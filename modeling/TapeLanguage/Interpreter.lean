import TapeLanguage.File.Source
import TapeLanguage.Machine.Basic
import TapeLanguage.Machine.Run
import TapeLanguage.Program.Decode

/-!
# The interpreter

`execute` decodes a source text and runs it on a new machine; `executeFile` reads the text from a
file first. Nothing is executed unless the whole text has been read and decoded.

An `Error` is the reason why a source text is not read, is no program, or is not executed to its
end. The errors that a user of the language can mend are reported by their message
(`Error.isReported`).
-/

set_option autoImplicit false

namespace TapeLanguage

/-! ## Errors -/

/-- Why a source text is not read, is no program, or is not executed to its end. -/
inductive Error where
  /-- The source text cannot be read. -/
  | source (e : SourceError)
  /-- The source text is no program. -/
  | decode (e : DecodeError)
  /-- The program cannot be executed to its end. -/
  | fault (f : Fault)
  deriving DecidableEq, Repr

namespace Error

/-- The text shown to the reader. -/
def message : Error → String
  | source e => e.message
  | decode e => e.message
  | fault f => f.message

/-- Errors of the source text, of its file and of its input are reported. -/
def isReported : Error → Bool
  | source (.cannotOpen ..) | source (.cannotRead ..) => true
  | source _ => false
  | decode (.unmatchedClose ..) | decode (.unmatchedOpen ..) => true
  | decode _ => false
  | fault (.inputExhausted _) | fault (.outsideTape ..) => true
  | fault _ => false

end Error

/-! ## Executing source texts -/

/-- What becomes of a source text. -/
inductive Execution where
  /-- It was no program, or it could not be read. -/
  | rejected (e : Error) (trace : Trace)
  /-- It was run. -/
  | ran (program : Program) (run : Run)

/-- The streams and limits of an execution. -/
structure Setting where
  /-- What the program reads. -/
  input : Input := .empty
  /-- Where the program writes. -/
  output : Output := .bytes #[] 0
  /-- The greatest number of instructions. -/
  fuel : Nat
  /-- Whether events are traced. -/
  traced : Bool := false

/-- Decode a source text and run it on a new machine, after the events `before`. -/
def execute (setting : Setting) (text : String) (before : Trace := #[]) : Execution :=
  let decoding := Program.parse text
  let trace := before ++ Trace.ofCreated setting.traced decoding.created
  match decoding.outcome with
  | .ok p =>
    let machine := Machine.new setting.input setting.output
    .ran p (machine.run p setting.fuel setting.traced trace)
  | .error e => .rejected (.decode e) trace

/-- Read a source text from a file, decode it and run it on a new machine. -/
def executeFile (setting : Setting) (files : FileSource) (path : String)
    (encodingName : Option String) : Execution :=
  let trace := Trace.note setting.traced #[] (.loading path)
  match readSource files path encodingName with
  | .ok text => execute setting text trace
  | .error e => .rejected (.source e) trace

/-- Read a source text from a file and decode it. -/
def decodeFile (files : FileSource) (path : String) (encodingName : Option String) :
    Except SourceError Program.Decoding :=
  (readSource files path encodingName).map Program.parse

/-- The program in a source file, or why there is none. -/
def parseFile (files : FileSource) (path : String) (encodingName : Option String) :
    Except Error Program :=
  match decodeFile files path encodingName with
  | .ok decoding => decoding.outcome.mapError .decode
  | .error e => .error (.source e)

end TapeLanguage
