import TapeLanguage.Machine.Basic
import TapeLanguage.Program.Basic

/-!
# Runs

A `Run` is a program under way: the machine, the position of the next instruction, and whether the
run goes on, has finished or has failed. `advance` executes one instruction, and leaves a run alone
that has come to an end; `advanceFor` does so a given number of times. A run finishes when its
position passes the last instruction.

A trace tells what a program did, one entry for each event: an instruction created, an instruction
about to be executed with the state before it, the end of a run, a file or a program begun.
`TraceEntry.line` is the line that shows an entry.
-/

set_option autoImplicit false

namespace TapeLanguage

/-! ## The trace -/

/-- One event. -/
inductive TraceEntry where
  /-- An instruction was created. -/
  | decoded (i : Instruction)
  /-- An instruction is about to be executed. -/
  | step (steps : Nat) (i : Instruction) (pointer : Nat) (cell : UInt8)
  /-- A run came to its end. -/
  | finished (steps : Nat) (pointer : Nat)
  /-- A file is about to be read. -/
  | loading (path : String)
  /-- A program is about to run. -/
  | running (name : String)
  deriving DecidableEq, Repr

/-- A sequence of events. -/
abbrev Trace := Array TraceEntry

namespace TraceEntry

/-- The part of the system that an event belongs to. -/
def origin : TraceEntry → String
  | decoded _ => "bfi.decoder"
  | step .. | finished .. => "bfi.executor"
  | loading _ => "bfi.api"
  | running _ => "bfi.cli"

/-- The event in words. -/
def inWords : TraceEntry → String
  | decoded i => "decoded " ++ i.listing
  | step steps i pointer cell =>
    "step " ++ toString steps ++ ": " ++ i.listing ++ " ptr=" ++ toString pointer ++ " cell=" ++
      toString cell.toNat
  | finished steps pointer =>
    "finished after " ++ toString steps ++ " steps, ptr=" ++ toString pointer
  | loading path => "loading " ++ path
  | running name => "running " ++ name

/-- The line that shows an event. -/
def line (e : TraceEntry) : String :=
  "DEBUG " ++ e.origin ++ ": " ++ e.inWords

end TraceEntry

namespace Trace

/-- Note an event, if events are traced. -/
def note (traced : Bool) (t : Trace) (e : TraceEntry) : Trace :=
  if traced then t.push e else t

/-- The instructions that decoding created, as events. -/
def ofCreated (traced : Bool) (created : Array Instruction) : Trace :=
  if traced then created.map .decoded else #[]

end Trace

/-! ## Runs -/

/-- Whether a run goes on. -/
inductive Phase where
  /-- There is an instruction to execute. -/
  | running
  /-- The position has passed the last instruction. -/
  | finished
  /-- The instruction at the position has failed. -/
  | failed (fault : Fault)
  deriving DecidableEq, Repr

/-- A program under way. -/
structure Run where
  /-- Whether the run goes on. -/
  phase : Phase
  /-- The position of the next instruction. -/
  position : Int
  /-- The machine. -/
  machine : Machine
  /-- The events of the run. -/
  trace : Trace

namespace Run

/-- A run at the beginning of a program. -/
def start (m : Machine) (p : Program) (trace : Trace) : Run :=
  ⟨.running, 0, m.prepare p, trace⟩

/-- The event of executing an instruction. -/
def stepEntry (m : Machine) (i : Instruction) : TraceEntry :=
  .step m.steps i m.tape.pointer.val m.tape.read

/-- Go on with the outcome of the instruction at a position. -/
def ofOutcome (position : Int) (trace : Trace) : Outcome → Run
  | .moved next m => ⟨.running, next, m.count, trace⟩
  | .stopped fault m => ⟨.failed fault, position, m, trace⟩

/-- Come to the end of a program: flush the output once more. -/
def finish (traced : Bool) (position : Int) (m : Machine) (trace : Trace) : Run :=
  let last := TraceEntry.finished m.steps m.tape.pointer.val
  ⟨.finished, position, m.flush, trace.note traced last⟩

/-- Execute the next instruction. -/
def advance (p : Program) (traced : Bool) : Run → Run
  | ⟨.running, position, m, trace⟩ =>
    if position < p.size then
      match p.get? position with
      | some i =>
        let noted := if traced then trace.push (stepEntry m i) else trace
        ofOutcome position noted (m.apply i)
      | none => ⟨.failed (.noInstruction position), position, m, trace⟩
    else finish traced position m trace
  | ⟨.finished, position, m, trace⟩ => ⟨.finished, position, m, trace⟩
  | ⟨.failed fault, position, m, trace⟩ => ⟨.failed fault, position, m, trace⟩

/-- Whether the run has not come to an end. -/
def isRunning (r : Run) : Bool :=
  match r.phase with
  | .running => true
  | _ => false

/-- Execute at most a number of instructions. -/
def advanceFor (p : Program) (traced : Bool) : Nat → Run → Run
  | 0, r => r
  | n + 1, r => if r.isRunning then advanceFor p traced n (advance p traced r) else r

end Run

namespace Run

/-! ## Runs that have ended -/

/-- A run that has ended stays as it is. -/
theorem advance_of_ended (p : Program) (traced : Bool) {r : Run} (h : r.isRunning = false) :
    advance p traced r = r := by
  obtain ⟨phase, position, m, trace⟩ := r
  cases phase with
  | running => simp [isRunning] at h
  | finished => rfl
  | failed fault => rfl

/-- A run that has ended stays as it is for any number of instructions. -/
theorem advanceFor_of_ended (p : Program) (traced : Bool) (n : Nat) {r : Run}
    (h : r.isRunning = false) : advanceFor p traced n r = r := by
  cases n with
  | zero => rfl
  | succ n => simp [advanceFor, h]

/-- One instruction, then the others. -/
theorem advanceFor_succ (p : Program) (traced : Bool) (n : Nat) (r : Run) :
    advanceFor p traced (n + 1) r = advanceFor p traced n (advance p traced r) := by
  cases h : r.isRunning with
  | true => simp [advanceFor, h]
  | false =>
    rw [advance_of_ended p traced h, advanceFor_of_ended p traced _ h,
      advanceFor_of_ended p traced _ h]

/-- **Executing instructions in two parts is executing them at once.** -/
theorem advanceFor_add (p : Program) (traced : Bool) (a b : Nat) (r : Run) :
    advanceFor p traced (a + b) r = advanceFor p traced b (advanceFor p traced a r) := by
  induction a generalizing r with
  | zero => simp [advanceFor]
  | succ a ih =>
    rw [Nat.succ_add, advanceFor_succ, advanceFor_succ]
    exact ih _

/-! ## Streams that come and go -/

/-- The next instruction asks for input, and there is none at hand. -/
def wantsInput (p : Program) (r : Run) : Bool :=
  r.isRunning && decide (r.position < p.size) && (p.get? r.position).any (·.op == .input) &&
    r.machine.queue.isEmpty && r.machine.input.contents.isEmpty

/-- Give input to a run. -/
def supplied (r : Run) (input : Input) : Run :=
  { r with machine := { r.machine with input := input } }

/-- What a run has written and the events so far, and the run without them. -/
def drained (r : Run) : Output × Trace × Run :=
  (r.machine.output, r.trace,
    { r with
      machine := { r.machine with output := r.machine.output.cleared }
      trace := #[] })

end Run

namespace Machine

/-- Run a program from its beginning for at most `fuel` instructions. -/
def run (m : Machine) (p : Program) (fuel : Nat) (traced : Bool := false) (trace : Trace := #[]) :
    Run :=
  Run.advanceFor p traced fuel (Run.start m p trace)

end Machine

end TapeLanguage
