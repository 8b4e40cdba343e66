import TapeLanguage.Text

/-!
# Requests

`readCommandLine` reads the arguments of a command line from left to right. Each argument before the
first separator `--` is a switch, a switch with a value attached, an unknown switch, or plain
(`Kind.ofText`). Negative numbers and texts with a blank are plain unless they begin with a switch.

The first run of plain arguments that no switch interrupts names the files, and plain arguments
after it belong nowhere. The separator interrupts no run and is dropped once. The switch for source
on the command line takes all arguments up to the separator. The help and the errors of switches act
when they are met; arguments that belong nowhere are an error at the end.
-/

set_option autoImplicit false

namespace TapeLanguage.CommandLine

/-! ## Arguments -/

/-- The switches of the command line. -/
inductive Switch where
  /-- Show the help. -/
  | help
  /-- Take the source from the command line. -/
  | code
  /-- Set the encoding of source files. -/
  | encoding
  /-- List the instructions and run nothing. -/
  | dump
  /-- Trace what happens. -/
  | debug
  deriving DecidableEq, Repr

namespace Switch

/-- The switch with a short or long name. -/
def named? : String → Option Switch
  | "-h" | "--help" => some help
  | "-c" | "--code" => some code
  | "--encoding" => some encoding
  | "--dump" => some dump
  | "--debug" => some debug
  | _ => none

/-- The names of a switch, as messages show them. -/
def title : Switch → String
  | help => "-h/--help"
  | code => "-c/--code"
  | encoding => "--encoding"
  | dump => "--dump"
  | debug => "--debug"

end Switch

/-- What an argument is. -/
inductive Kind where
  /-- A file, or the value of a switch before it. -/
  | plain
  /-- A switch. -/
  | bare (s : Switch)
  /-- A switch with a value attached to its short or long name. -/
  | attached (s : Switch) (short : Bool) (value : String)
  /-- Like a switch, but unknown. -/
  | unknown
  deriving DecidableEq, Repr

namespace Kind

/-- The name and the value of a text with an equals sign in it, if the name is that of a switch. -/
def assigned? (cs : List Char) : Option Kind :=
  match cs.dropWhile (· != '=') with
  | _ :: value =>
    let name := cs.takeWhile (· != '=')
    (Switch.named? (String.ofList name)).map fun s =>
      attached s (name.length == 2) (String.ofList value)
  | [] => none

/-- A short name with the value directly after it. -/
def clustered? : List Char → Option Kind
  | '-' :: c :: value =>
    if c = '-' then none
    else (Switch.named? (String.ofList ['-', c])).map fun s => attached s true (String.ofList value)
  | _ => none

/-- What an argument is that is no switch by itself. -/
def ofOther (text : String) : Kind :=
  let cs := text.toList
  if cs.length = 1 then plain
  else
    match assigned? cs with
    | some kind => kind
    | none =>
      match clustered? cs with
      | some kind => kind
      | none => if Text.isNegativeNumber text || cs.contains ' ' then plain else unknown

/-- What an argument is. -/
def ofText (text : String) : Kind :=
  if text.toList.head? = some '-' then
    match Switch.named? text with
    | some s => bare s
    | none => ofOther text
  else plain

end Kind

/-- An argument and what it is. -/
structure Argument where
  /-- The argument as it was given. -/
  text : String
  /-- What it is. -/
  kind : Kind
  deriving DecidableEq, Repr

/-- An argument before the separator. -/
def Argument.ofText (text : String) : Argument :=
  ⟨text, Kind.ofText text⟩

/-- The separator after which all arguments are plain. -/
def separator : String := "--"

/-! ## Requests -/

/-- Why a command line is wrong. -/
inductive UsageError where
  /-- A value for a switch that takes none. -/
  | ignoredValue (s : Switch) (value : String)
  /-- No value for a switch that takes one. -/
  | missingValue (s : Switch)
  /-- Arguments that belong nowhere. -/
  | unrecognized (texts : List String)
  /-- Neither files nor a source. -/
  | missingSource
  /-- Both files and a source. -/
  | sourceTwice
  deriving DecidableEq, Repr

namespace UsageError

/-- The text shown to the user. -/
def message : UsageError → String
  | ignoredValue s value =>
    "argument " ++ s.title ++ ": ignored explicit argument " ++ Text.quoted value
  | missingValue s => "argument " ++ s.title ++ ": expected one argument"
  | unrecognized texts => "unrecognized arguments: " ++ " ".intercalate texts
  | missingSource => "missing source: give one or more files, or -c SRC"
  | sourceTwice =>
    "-c takes the rest of the command line as source; put options and files before it, not both"

end UsageError

/-- What a command line asks for. -/
structure Options where
  /-- The source files. -/
  files : List String := []
  /-- The parts of a source on the command line. -/
  code : Option (List String) := none
  /-- The name of the encoding; there is none if the separator stands in its place. -/
  encoding : Option String := some "utf-8"
  /-- List the instructions and run nothing. -/
  dump : Bool := false
  /-- Trace what happens. -/
  debug : Bool := false
  deriving DecidableEq, Repr

/-- How far the run of plain arguments that names the files has come. -/
inductive FileRun where
  /-- It has not begun. -/
  | ahead
  /-- It goes on. -/
  | within
  /-- It is over. -/
  | over
  deriving DecidableEq, Repr

/-- What has been read of a command line. -/
structure Progress where
  /-- What it asks for so far. -/
  options : Options := {}
  /-- How far the files have come. -/
  run : FileRun := .ahead
  /-- The arguments that belong nowhere, in order. -/
  extra : List String := []

/-- Why the reading of a command line ends before its end. -/
inductive Halt where
  /-- The help is asked for. -/
  | help
  /-- The command line is wrong. -/
  | wrong (e : UsageError)
  deriving DecidableEq, Repr

namespace Progress

/-- A switch ends the run of files. -/
def interrupted (p : Progress) : Progress :=
  match p.run with
  | .within => { p with run := .over }
  | _ => p

/-- Read plain arguments. -/
def plain (p : Progress) (texts : List String) : Progress :=
  match p.run with
  | .over => { p with extra := p.extra ++ texts }
  | _ => { p with run := .within, options := { p.options with files := p.options.files ++ texts } }

/-- Read an unknown switch. -/
def unknown (p : Progress) (text : String) : Progress :=
  { p.interrupted with extra := p.interrupted.extra ++ [text] }

/-- Change what the command line asks for, by a switch. -/
def set (p : Progress) (f : Options → Options) : Progress :=
  { p.interrupted with options := f p.options }

end Progress

/-- The part of a cluster of short names that holds no switch. -/
def strayCluster : List Char → Option (List Char)
  | [] => none
  | 'h' :: rest => strayCluster rest
  | 'c' :: _ => none
  | rest => some rest

/-- What follows from a value attached to the help switch: nothing may be attached to its long name,
and other short names to the short one. -/
def attachedHelp (short : Bool) (value : String) : Halt :=
  if short && !value.isEmpty then
    match strayCluster value.toList with
    | none => .help
    | some rest => .wrong (.ignoredValue .help (String.ofList rest))
  else .wrong (.ignoredValue .help value)

/-- Read a switch with a value attached. -/
def readAttached (p : Progress) (s : Switch) (short : Bool) (value : String) :
    Except Halt Progress :=
  match s with
  | .help => .error (attachedHelp short value)
  | .code => .ok (p.set fun o => { o with code := some [value] })
  | .encoding =>
    .ok (p.set fun o => { o with encoding := if value = separator then none else some value })
  | .dump | .debug => .error (.wrong (.ignoredValue s value))

/-- Read the arguments before the separator. -/
def readArguments : Progress → List Argument → Except Halt Progress
  | p, [] => .ok p
  | p, ⟨text, .plain⟩ :: rest => readArguments (p.plain [text]) rest
  | p, ⟨text, .unknown⟩ :: rest => readArguments (p.unknown text) rest
  | _, ⟨_, .bare .help⟩ :: _ => .error .help
  | p, ⟨_, .bare .dump⟩ :: rest => readArguments (p.set fun o => { o with dump := true }) rest
  | p, ⟨_, .bare .debug⟩ :: rest => readArguments (p.set fun o => { o with debug := true }) rest
  | p, ⟨_, .bare .code⟩ :: rest =>
    .ok (p.set fun o => { o with code := some (rest.map Argument.text) })
  | p, ⟨_, .bare .encoding⟩ :: ⟨value, .plain⟩ :: rest =>
    readArguments (p.set fun o => { o with encoding := some value }) rest
  | _, ⟨_, .bare .encoding⟩ :: _ => .error (.wrong (.missingValue .encoding))
  | p, ⟨_, .attached s short value⟩ :: rest =>
    match readAttached p s short value with
    | .ok next => readArguments next rest
    | .error halt => .error halt

/-- Read the separator and the arguments after it. -/
def readTail (p : Progress) : List String → Progress
  | [] => p
  | mark :: texts =>
    match p.run with
    | .over => p.plain (mark :: texts)
    | _ => p.plain texts

/-- What is asked for, if every argument belongs somewhere and there is one source. -/
def Progress.finish (p : Progress) : Except Halt Options :=
  if !p.extra.isEmpty then .error (.wrong (.unrecognized p.extra))
  else if p.options.code.isNone && p.options.files.isEmpty then .error (.wrong .missingSource)
  else if p.options.code.isSome && !p.options.files.isEmpty then .error (.wrong .sourceTwice)
  else .ok p.options

/-- What a command line asks for. -/
def readCommandLine (arguments : List String) : Except Halt Options :=
  let head := arguments.takeWhile (· != separator)
  let tail := arguments.dropWhile (· != separator)
  match readArguments {} (head.map Argument.ofText) with
  | .ok p => (readTail p tail).finish
  | .error halt => .error halt

/-! ## Usage and help -/

/-- The summary of the command line. -/
def usageLine : String :=
  "usage: bfi [-h] [-c ...] [--encoding ENCODING] [--dump] [--debug] [files ...]\n"

/-- The full description of the command line. -/
def helpText : String :=
  usageLine ++ "\n" ++
    "Interpreter for the eight-instruction tape language.\n" ++ "\n" ++
    "positional arguments:\n" ++
    "  files                Source files, each run as its own program\n" ++ "\n" ++
    "options:\n" ++
    "  -h, --help           show this help message and exit\n" ++
    "  -c ..., --code ...   Run the remaining arguments, joined, as source text\n" ++
    "  --encoding ENCODING  Source file encoding (default utf-8)\n" ++
    "  --dump               Print decoded instructions instead of running\n" ++
    "  --debug              Trace decoding and execution on stderr\n"

/-- The text shown for a wrong command line. -/
def UsageError.report (e : UsageError) : String :=
  usageLine ++ "bfi: error: " ++ e.message ++ "\n"

end TapeLanguage.CommandLine
