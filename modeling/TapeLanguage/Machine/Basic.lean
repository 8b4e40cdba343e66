import TapeLanguage.Diagnostic
import TapeLanguage.Machine.Stream
import TapeLanguage.Machine.Tape
import TapeLanguage.Program.Basic

/-!
# The machine

A `Machine` executes instructions one at a time (`apply`). Besides the tape and the streams it holds
the resume stack, the positions to which the ends of the entered loops go back, and the bookmark,
the end of the last loop that was skipped.

Entering a loop pushes the position after its beginning. At the end of a loop a nonzero cell leads
back to the top of the stack, and a zero cell pops it. A loop whose cell is zero at the beginning is
skipped through the partner of the beginning.

An instruction that fails leaves the machine as it was, except that the input has been asked. A
`Fault` is the reason for which it fails, and `Fault.message` is the text shown to the reader;
running out of input and leaving the tape come with advice.
-/

set_option autoImplicit false

namespace TapeLanguage

/-! ## Why a machine stops -/

/-- Why an instruction cannot be executed. -/
inductive Fault where
  /-- The instruction at a position asked for input at the end of the input. -/
  | inputExhausted (position : Int)
  /-- The instruction at a position moves the pointer to a place outside the tape. -/
  | outsideTape (position pointer capacity : Int)
  /-- A bracket whose partner is not recorded. -/
  | noPartner (index : Int)
  /-- No instruction stands at a position. -/
  | noInstruction (position : Int)
  /-- The next code point of the input has no encoding. -/
  | unencodable (s : Surrogate)
  /-- The input has been closed. -/
  | closedInput
  /-- The user interrupted the reading of input. -/
  | interrupted
  deriving DecidableEq, Repr

namespace Fault

/-- The text shown to the reader. -/
def message : Fault → String
  | inputExhausted position =>
    Hint.append ("ExecutionError: input exhausted at instruction " ++ toString position)
      (some .input)
  | outsideTape position pointer capacity =>
    Hint.append
      ("ExecutionError: data pointer moved to " ++ toString pointer ++ ", outside the tape [0, " ++
        toString capacity ++ ") at instruction " ++ toString position)
      (some .bounds)
  | noPartner index => "No matching bracket recorded for instruction " ++ toString index
  | noInstruction position =>
    if Word.fits position then "tuple index out of range" else Word.overflowText
  | unencodable s =>
    "'utf-8' codec can't encode character '\\u" ++ String.ofList (Text.hexDigits 4 s.codePoint) ++
      "' in position 0: surrogates not allowed"
  | closedInput => "I/O operation on closed file."
  | interrupted => ""

end Fault

/-! ## The machine -/

/-- The state of a machine. -/
structure Machine where
  /-- Cells and pointer. -/
  tape : Tape
  /-- Where the ends of the entered loops go back to, innermost first. -/
  resume : List Int
  /-- The end of the last loop that was skipped. -/
  bookmark : Int
  /-- The instructions executed in the current run. -/
  steps : Nat
  /-- The program whose jump table is used. -/
  program : Option Program
  /-- Bytes of the last unit of input that wait to be taken. -/
  queue : List UInt8
  /-- The rest of the input. -/
  input : Input
  /-- What has been written. -/
  output : Output

/-- What becomes of a machine that executes an instruction. -/
inductive Outcome where
  /-- It goes on at a position. -/
  | moved (next : Int) (machine : Machine)
  /-- It stops. -/
  | stopped (fault : Fault) (machine : Machine)

namespace Machine

/-- A machine with a blank tape over two streams. -/
def new (input : Input) (output : Output) : Machine :=
  ⟨Tape.blank, [], 0, 0, none, [], input.unwrapped, output.unwrapped⟩

/-- Clear the tape, the loops, the count and the waiting bytes. The streams stay where they are, and
so does the program whose jump table is used. -/
def reset (m : Machine) : Machine :=
  { m with tape := Tape.blank, resume := [], bookmark := 0, steps := 0, queue := [] }

/-- Make ready to run a program from its beginning; the tape and the waiting bytes are kept. -/
def prepare (m : Machine) (p : Program) : Machine :=
  { m with resume := [], bookmark := 0, steps := 0, program := some p }

/-- Count one instruction. -/
def count (m : Machine) : Machine :=
  { m with steps := m.steps + 1 }

/-- Flush the output. -/
def flush (m : Machine) : Machine :=
  { m with output := m.output.flush }

/-- The jump table of the current program. -/
def jump? (m : Machine) (index : Int) : Option Int :=
  m.program.bind fun p => p.jumps[index]?

/-- The partner of a bracket: the one it names, or else the one in the jump table. -/
def partner? (m : Machine) (i : Instruction) : Option Int :=
  match i.partner with
  | some position => some position
  | none => m.jump? i.index

/-! ## Instructions -/

/-- Move the pointer. -/
def move (m : Machine) (delta position : Int) : Outcome :=
  match m.tape.move? delta with
  | some tape => .moved (position + 1) { m with tape := tape }
  | none => .stopped (.outsideTape position (m.tape.target delta) capacity) m

/-- Change the cell. -/
def change (m : Machine) (f : Tape → Tape) (position : Int) : Outcome :=
  .moved (position + 1) { m with tape := f m.tape }

/-- Write the cell. -/
def emit (m : Machine) (position : Int) : Outcome :=
  let byte := m.tape.read
  .moved (position + 1) { m with output := (m.output.write byte).flush }

/-- Take a byte into the cell: a waiting one, or else the first of the next unit of input, whose
other bytes then wait. -/
def take (m : Machine) (position : Int) : Outcome :=
  match m.queue with
  | byte :: more => .moved (position + 1) { m with tape := m.tape.store byte, queue := more }
  | [] =>
    match m.input.read with
    | (.delivered byte more, rest) =>
      .moved (position + 1) { m with tape := m.tape.store byte, queue := more, input := rest }
    | (.unencodable s, rest) => .stopped (.unencodable s) { m with input := rest }
    | (.ended, rest) => .stopped (.inputExhausted position) { m with input := rest }
    | (.interrupted, rest) => .stopped .interrupted { m with input := rest }
    | (.refused, rest) => .stopped .closedInput { m with input := rest }

/-- Begin a loop: enter it, or skip it if the cell is zero. -/
def enter (m : Machine) (i : Instruction) : Outcome :=
  if m.tape.read = 0 then
    match m.partner? i with
    | some position => .moved (position + 1) { m with bookmark := position }
    | none => .stopped (.noPartner i.index) m
  else .moved (i.index + 1) { m with resume := (i.index + 1) :: m.resume }

/-- End a loop: go back into it, or leave it if the cell is zero. -/
def repeatOrLeave (m : Machine) (i : Instruction) : Outcome :=
  if m.tape.read = 0 then .moved (i.index + 1) { m with resume := m.resume.tail }
  else
    match m.resume with
    | position :: _ => .moved position m
    | [] =>
      match m.partner? i with
      | some position => .moved (position + 1) m
      | none => .stopped (.noPartner i.index) m

/-- Execute one instruction. -/
def apply (m : Machine) (i : Instruction) : Outcome :=
  match i.op with
  | .moveRight => m.move 1 i.index
  | .moveLeft => m.move (-1) i.index
  | .increment => m.change Tape.increment i.index
  | .decrement => m.change Tape.decrement i.index
  | .output => m.emit i.index
  | .input => m.take i.index
  | .openLoop => m.enter i
  | .closeLoop => m.repeatOrLeave i

/-! ## Instructions that fail -/

/-- A move that fails leaves the machine as it was. -/
theorem move_stopped {m m' : Machine} {delta position : Int} {fault : Fault}
    (h : m.move delta position = .stopped fault m') : m' = m := by
  unfold move at h
  split at h
  · exact Outcome.noConfusion h
  · cases h
    rfl

/-- Taking a byte that is not there asks the input and changes nothing else. -/
theorem take_stopped {m m' : Machine} {position : Int} {fault : Fault}
    (h : m.take position = .stopped fault m') : m' = { m with input := m'.input } := by
  unfold take at h
  split at h
  · exact Outcome.noConfusion h
  · split at h
    · exact Outcome.noConfusion h
    · cases h
      rfl
    · cases h
      rfl
    · cases h
      rfl
    · cases h
      rfl

/-- A loop whose beginning fails leaves the machine as it was. -/
theorem enter_stopped {m m' : Machine} {i : Instruction} {fault : Fault}
    (h : m.enter i = .stopped fault m') : m' = m := by
  unfold enter at h
  split at h
  · split at h
    · exact Outcome.noConfusion h
    · cases h
      rfl
  · exact Outcome.noConfusion h

/-- A loop whose end fails leaves the machine as it was. -/
theorem repeatOrLeave_stopped {m m' : Machine} {i : Instruction} {fault : Fault}
    (h : m.repeatOrLeave i = .stopped fault m') : m' = m := by
  unfold repeatOrLeave at h
  split at h
  · exact Outcome.noConfusion h
  · split at h
    · exact Outcome.noConfusion h
    · split at h
      · exact Outcome.noConfusion h
      · cases h
        rfl

/-- **An instruction that fails changes nothing**, except that the input has been asked. -/
theorem apply_stopped {m m' : Machine} {i : Instruction} {fault : Fault}
    (h : m.apply i = .stopped fault m') : m' = { m with input := m'.input } := by
  unfold apply at h
  split at h
  · rw [move_stopped h]
  · rw [move_stopped h]
  · exact Outcome.noConfusion h
  · exact Outcome.noConfusion h
  · exact Outcome.noConfusion h
  · exact take_stopped h
  · rw [enter_stopped h]
  · rw [repeatOrLeave_stopped h]

end Machine

end TapeLanguage
