import TapeLanguage.Interpreter
import TapeLanguage.Machine.Basic
import TapeLanguage.Machine.Run
import TapeLanguage.Machine.Tape
import TapeLanguage.Program.Decode

/-!
# Sessions

A `Session` is a machine that is given commands one after another: run a program, or load one and
execute it piece by piece, reset, or work on the tape. The loaded program has a position of its own,
which only `step` and `seek` change. A command answers, or it fails.

A `TapeCommand` is an operation on a tape as data, and `TapeCommand.perform` carries it out. One
that fails leaves the tape as it was.
-/

set_option autoImplicit false

namespace TapeLanguage

/-! ## Answers -/

/-- A state reached by executing an instruction. -/
structure Visit where
  /-- The position of the next instruction. -/
  position : Int
  /-- The pointer. -/
  pointer : Nat
  /-- The cell under the pointer. -/
  cell : UInt8
  deriving DecidableEq, Repr

/-- What a command answers. -/
inductive Answer where
  /-- Nothing. -/
  | nothing
  /-- A number. -/
  | number (n : Int)
  /-- Cells. -/
  | cells (values : List UInt8)
  /-- States reached, in order. -/
  | visits (states : List Visit)
  deriving DecidableEq, Repr

/-! ## Tape commands -/

/-- An operation on a tape. -/
inductive TapeCommand where
  /-- Move the pointer for the instruction at a position. -/
  | move (delta position : Int)
  /-- Store a number modulo 256. -/
  | write (value : Int)
  /-- Add one to the cell. -/
  | increment
  /-- Take one from the cell. -/
  | decrement
  /-- Tell the cell. -/
  | read
  /-- Tell the number of cells in use. -/
  | extent
  /-- Tell the number of cells. -/
  | capacity
  /-- Clear the cells and the pointer. -/
  | reset
  /-- Tell the cells of a slice. -/
  | slice (start stop : Option Int)
  deriving DecidableEq, Repr

namespace TapeCommand

/-- Carry out a command. -/
def perform (t : Tape) : TapeCommand → Except Fault Answer × Tape
  | move delta position =>
    match t.move? delta with
    | some next => (.ok (.number next.pointer.val), next)
    | none => (.error (.outsideTape position (t.target delta) TapeLanguage.capacity), t)
  | write value => (.ok .nothing, t.write value)
  | increment => (.ok .nothing, t.increment)
  | decrement => (.ok .nothing, t.decrement)
  | read => (.ok (.number t.read.toNat), t)
  | extent => (.ok (.number t.extent), t)
  | capacity => (.ok (.number TapeLanguage.capacity), t)
  | reset => (.ok .nothing, Tape.blank)
  | slice start stop => (.ok (.cells (t.slice start stop)), t)

end TapeCommand

/-! ## Sessions -/

/-- A machine with a loaded program. -/
structure Session where
  /-- The machine. -/
  machine : Machine
  /-- The loaded program. -/
  loaded : Program := {}
  /-- The position in the loaded program. -/
  position : Int := 0

/-- What a session can be told. -/
inductive Command where
  /-- Run a program from its beginning. -/
  | run (program : Program.Decoding)
  /-- Load a program. -/
  | load (program : Program.Decoding)
  /-- Use the jump table of the loaded program. -/
  | attach
  /-- Set the position in the loaded program. -/
  | seek (position : Int)
  /-- Execute instructions of the loaded program. -/
  | step (count : Nat)
  /-- Execute one instruction. -/
  | apply (instruction : Instruction)
  /-- Reset the machine. -/
  | reset
  /-- Work on the tape. -/
  | tape (command : TapeCommand)

/-- What a command leads to. -/
structure Reply where
  /-- The answer, or why the command failed; nothing at all if the fuel did not suffice. -/
  result : Option (Except Error Answer)
  /-- The session after the command. -/
  session : Session
  /-- The events. -/
  trace : Trace

namespace Session

/-- A session over two streams. It keeps of the input only what the machine reads, so a text over a
buffer is let go, and its buffer is closed. -/
def new (input : Input) (output : Output) : Session :=
  { machine := Machine.new input.released output }

/-- A reply without events. -/
def reply (s : Session) (result : Except Error Answer) : Reply :=
  ⟨some result, s, #[]⟩

/-- Execute at most `count` instructions of the loaded program. A failing one ends it, and the
position stays there. -/
def steps : Nat → Session → List Visit → Except Fault (List Visit) × Session
  | 0, s, visited => (.ok visited.reverse, s)
  | count + 1, s, visited =>
    if s.position < s.loaded.size then
      match s.loaded.get? s.position with
      | some i =>
        match s.machine.apply i with
        | .moved next m =>
          let visit := Visit.mk next m.tape.pointer.val m.tape.read
          steps count { s with machine := m, position := next } (visit :: visited)
        | .stopped fault m => (.error fault, { s with machine := m })
      | none => (.error (.noInstruction s.position), s)
    else (.ok visited.reverse, s)

/-- The answer to a run that has come to an end. -/
def runAnswer (r : Run) : Option (Except Error Answer) :=
  match r.phase with
  | .finished => some (.ok (.number r.machine.steps))
  | .failed fault => some (.error (.fault fault))
  | .running => none

/-- Carry out a command; a run may take `fuel` instructions. -/
def perform (fuel : Nat) (traced : Bool) (s : Session) : Command → Reply
  | .run program =>
    let before := Trace.ofCreated traced program.created
    match program.outcome with
    | .ok p =>
      let r := s.machine.run p fuel traced before
      ⟨runAnswer r, { s with machine := r.machine }, r.trace⟩
    | .error e => ⟨some (.error (.decode e)), s, before⟩
  | .load program =>
    let before := Trace.ofCreated traced program.created
    match program.outcome with
    | .ok p => ⟨some (.ok (.number p.size)), { s with loaded := p, position := 0 }, before⟩
    | .error e => ⟨some (.error (.decode e)), s, before⟩
  | .attach =>
    { s with machine := { s.machine with program := some s.loaded } }.reply (.ok .nothing)
  | .seek position => { s with position := position }.reply (.ok .nothing)
  | .step count =>
    match steps count s [] with
    | (.ok visits, next) => next.reply (.ok (.visits visits))
    | (.error fault, next) => next.reply (.error (.fault fault))
  | .apply instruction =>
    match s.machine.apply instruction with
    | .moved next m => { s with machine := m }.reply (.ok (.number next))
    | .stopped fault m => { s with machine := m }.reply (.error (.fault fault))
  | .reset => { s with machine := s.machine.reset }.reply (.ok .nothing)
  | .tape command =>
    match command.perform s.machine.tape with
    | (.ok answer, tape) => { s with machine := { s.machine with tape := tape } }.reply (.ok answer)
    | (.error fault, _) => s.reply (.error (.fault fault))

/-- Take what has been written since the output was last taken. -/
def takeOutput (s : Session) : Output × Session :=
  (s.machine.output,
    { s with machine := { s.machine with output := s.machine.output.cleared } })

end Session

end TapeLanguage
