import TapeLanguage.CommandLine.Request
import TapeLanguage.Interpreter

/-!
# What the command line does

`respond` carries out what a command line asks for. All sources are read and decoded before anything
runs (`load`). A listing runs nothing. Otherwise the programs run in order, each on a machine of its
own, and all of them read and write the same streams (`runAll`). The first error that is reported
ends everything with status one; an interrupt ends it with status 130.
-/

set_option autoImplicit false

namespace TapeLanguage.CommandLine

/-- A text for the user besides the output: an event, or a text. -/
inductive Message where
  /-- An event of the trace. -/
  | event (e : TraceEntry)
  /-- A text. -/
  | text (t : String)
  deriving DecidableEq, Repr

/-- The text of a message. -/
def Message.shown : Message → String
  | event e => e.line ++ "\n"
  | text t => t

/-- How a command line ends. -/
inductive Status where
  /-- With an exit status. -/
  | exited (code : Nat)
  /-- With an error that is not reported. -/
  | uncaught (e : Error)
  /-- The fuel did not suffice. -/
  | unfinished
  deriving DecidableEq, Repr

/-- What a command line does. -/
structure Report where
  /-- How it ends. -/
  status : Status
  /-- The rest of the input. -/
  input : Input
  /-- What was written. -/
  output : Output
  /-- The messages, in order. -/
  messages : Array Message

/-- A program and its name. -/
structure Loaded where
  /-- The name: that of the file, as it was given. -/
  name : String
  /-- The program. -/
  program : Program

/-- The name of a source on the command line. -/
def inlineName : String := "<inline>"

/-! ## Loading -/

/-- Decode a source text. -/
def loadText (debug : Bool) (name text : String) : Except Error Loaded × Trace :=
  let decoding := Program.parse text
  ((decoding.outcome.map fun p => ⟨name, p⟩).mapError .decode,
    Trace.ofCreated debug decoding.created)

/-- Read and decode a source file. -/
def loadFile (files : FileSource) (encoding : Option String) (debug : Bool) (path : String) :
    Except Error Loaded × Trace :=
  match readSource files path encoding with
  | .ok text => loadText debug path text
  | .error e => (.error (.source e), #[])

/-- Read and decode source files up to the first error. -/
def loadFiles (files : FileSource) (encoding : Option String) (debug : Bool) :
    List String → Array Loaded → Trace → Except Error (List Loaded) × Trace
  | [], loaded, trace => (.ok loaded.toList, trace)
  | path :: rest, loaded, trace =>
    match loadFile files encoding debug path with
    | (.ok program, events) =>
      loadFiles files encoding debug rest (loaded.push program) (trace ++ events)
    | (.error e, events) => (.error e, trace ++ events)

/-- Read and decode all sources. -/
def load (files : FileSource) (o : Options) : Except Error (List Loaded) × Trace :=
  match o.code with
  | some parts =>
    let (program, trace) := loadText o.debug inlineName (String.join parts)
    (program.map fun p => [p], trace)
  | none => loadFiles files o.encoding o.debug o.files #[] #[]

/-! ## Listing and running -/

/-- The listing of a program under a heading. -/
def Loaded.listing (l : Loaded) : String :=
  "== " ++ l.name ++ " (" ++ toString l.program.size ++ " instructions)\n" ++
    if l.program.size = 0 then "" else l.program.listing ++ "\n"

/-- The status and the message of an error. -/
def failure (e : Error) : Status × Array Message :=
  if e.isReported then (.exited 1, #[.text (e.message ++ "\n")])
  else
    match e with
    | .fault .interrupted => (.exited 130, #[])
    | other => (.uncaught other, #[])

/-- Run programs in order until one fails. -/
def runAll (fuel : Nat) (debug : Bool) :
    List Loaded → Input → Output → Array Message → Report
  | [], input, output, messages => ⟨.exited 0, input, output, messages⟩
  | l :: rest, input, output, messages =>
    let trace := Trace.note debug #[] (.running l.name)
    let r := (Machine.new input output).run l.program fuel debug trace
    let told := messages ++ r.trace.map .event
    match r.phase with
    | .finished => runAll fuel debug rest r.machine.input r.machine.output told
    | .failed fault =>
      let (status, last) := failure (.fault fault)
      ⟨status, r.machine.input, r.machine.output, told ++ last⟩
    | .running => ⟨.unfinished, r.machine.input, r.machine.output, told⟩

/-- Carry out what a command line asks for. -/
def carryOut (fuel : Nat) (files : FileSource) (o : Options) (input : Input) (output : Output) :
    Report :=
  match load files o with
  | (.ok programs, trace) =>
    let messages := trace.map Message.event
    if o.dump then
      ⟨.exited 0, input, output, messages ++ (programs.map fun l => .text l.listing).toArray⟩
    else runAll fuel o.debug programs input output messages
  | (.error e, trace) =>
    let (status, last) := failure e
    ⟨status, input, output, trace.map Message.event ++ last⟩

/-- Carry out a command line; every program may take `fuel` instructions. -/
def respond (fuel : Nat) (files : FileSource) (arguments : List String) (input : Input)
    (output : Output) : Report :=
  match readCommandLine arguments with
  | .ok o => carryOut fuel files o input output
  | .error .help => ⟨.exited 0, input, output.writeText helpText, #[]⟩
  | .error (.wrong e) => ⟨.exited 2, input, output, #[.text e.report]⟩

end TapeLanguage.CommandLine
