import TapeLanguage.CommandLine.Report

/-!
# The program

The outer layer of the command line: it reads files and standard input, writes standard output and
the messages, and ends with the exit status. A program under way is advanced one instruction at a
time, so that its input is read when it is asked for and its output is seen when it is written.
-/

set_option autoImplicit false

namespace TapeLanguage.Outer

open TapeLanguage.CommandLine

/-- The reason for which the system opens no file. -/
def openFailure : IO.Error → OpenFailure
  | .noFileOrDirectory .. => .missing
  | .inappropriateType _ code _ => if code = 21 then .isFolder else .notFolder
  | .invalidArgument _ _ "name too long" => .tooLong
  | .permissionDenied .. => .other "Permission denied"
  | e => .other (toString e)

/-- The contents of a file. -/
def readFile (path : Path) : IO (Except OpenFailure OpenFile) := do
  try
    let bytes ← IO.FS.readBinFile path.text
    return .ok (.ok bytes.toList)
  catch e => return .error (openFailure e)

/-- The contents of the files that a command line names. -/
def readFiles (names : List String) : IO FileSource := do
  let entries ← names.mapM fun name => do
    let path := Path.ofText name
    let contents ← if holdsNull path.text then pure (.error .missing) else readFile path
    return (path, contents)
  return ⟨fun path => (entries.lookup path).getD (.error .missing), Encoding.ofName⟩

/-- Show messages. -/
def tell (messages : Array Message) : IO Unit := do
  let err ← IO.getStderr
  messages.forM fun m => err.putStr m.shown

/-- Write what a run has written. -/
def write (o : Output) : IO Unit := do
  let bytes := o.contents
  unless bytes.isEmpty do
    let out ← IO.getStdout
    out.write (ByteArray.mk bytes.toArray)
    out.flush

/-- Bring a run to its end. -/
partial def drive (p : Program) (traced : Bool) (r : Run) : IO Run := do
  let ready ← if r.wantsInput p then
      let bytes ← (← IO.getStdin).read 1
      pure (r.supplied (.bytes bytes.toList))
    else pure r
  let (written, events, rest) := (ready.advance p traced).drained
  tell (events.map .event)
  write written
  if rest.isRunning then drive p traced rest else return rest

/-- The exit status of an end that is reported. -/
def exitCode : Status → UInt32
  | .exited code => code.toUInt32
  | _ => 1

/-- Report an error. -/
def fail (e : Error) : IO UInt32 := do
  let (status, messages) := failure e
  tell messages
  if let .uncaught e := status then tell #[.text (e.message ++ "\n")]
  return exitCode status

/-- Run programs in order until one fails. -/
def runAll (traced : Bool) : List Loaded → IO UInt32
  | [] => return 0
  | l :: rest => do
    if traced then tell #[.event (.running l.name)]
    let r ← drive l.program traced
      (Run.start (Machine.new .empty (.bytes #[] 0)) l.program #[])
    match r.phase with
    | .failed fault => fail (.fault fault)
    | _ => runAll traced rest

/-- Carry out what a command line asks for. -/
def carryOut (o : Options) : IO UInt32 := do
  let files ← readFiles o.files
  let (loaded, trace) := load files o
  tell (trace.map .event)
  match loaded with
  | .error e => fail e
  | .ok programs =>
    if o.dump then
      tell (programs.map fun l => Message.text l.listing).toArray
      return 0
    else runAll o.debug programs

end TapeLanguage.Outer

open TapeLanguage TapeLanguage.CommandLine in
/-- The command line. -/
def main (arguments : List String) : IO UInt32 := do
  match readCommandLine arguments with
  | .ok o => Outer.carryOut o
  | .error .help =>
    Outer.write (Output.writeText (.bytes #[] 0) helpText)
    return 0
  | .error (.wrong e) =>
    Outer.tell #[.text e.report]
    return 2
