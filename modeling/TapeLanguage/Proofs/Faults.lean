import TapeLanguage.Interpreter
import TapeLanguage.Proofs.LoopStack
import TapeLanguage.Proofs.Places
import TapeLanguage.Proofs.Supply

/-!
# Where runs fail

An instruction of a decoded program stops for one of three reasons: it asks for a byte and there is
none, it moves off the left end of the tape, or it moves off the right end (`StopsWith`). Moves and
inputs show it themselves; that a bracket never stops is the work of the resume stack
(`apply_stopsWith`). How a byte can be lacking depends on the input (`Input.Lacks`), and reading on
adds no new way. So a run that fails stands at the instruction that could not be executed
(`Machine.run_cases`), and nothing else comes out of a source text than such a failure, the end of
the run, or the unmatched brackets that keep it from being run at all (`execute_cases`).

On a text a byte is lacking at the end, and also at a surrogate, which has no encoding. Such a
failure is not among those that are reported to the user (`execute_surrogate`).
-/

set_option autoImplicit false

namespace TapeLanguage

open Brackets Program

/-! ## The instructions that stop -/

/-- The faults with which an instruction of a program stops on an end of an input and on a tape,
with the position of the instruction. -/
inductive StopsWith (p : Program) (input : Input) (tape : Tape) : Int → Fault → Prop
  /-- There is no byte for an input. -/
  | lacking {n : Nat} {i : Instruction} {lack : Lack} (hi : p.instructions[n]? = some i)
    (hop : i.op = .input) (hlacks : input.Lacks lack) : StopsWith p input tape n (lack.fault n)
  /-- A move to the left leaves the first cell. -/
  | offLeft {n : Nat} {i : Instruction} (hi : p.instructions[n]? = some i) (hop : i.op = .moveLeft)
    (hpointer : tape.pointer.val = 0) : StopsWith p input tape n (.outsideTape n (-1) 65536)
  /-- A move to the right leaves the last cell. -/
  | offRight {n : Nat} {i : Instruction} (hi : p.instructions[n]? = some i)
    (hop : i.op = .moveRight) (hpointer : tape.pointer.val = 65535) :
    StopsWith p input tape n (.outsideTape n 65536 65536)

/-- An instruction that stops on an end of an input stops on the whole. -/
theorem StopsWith.mono {p : Program} {input rest : Input} {tape : Tape} {position : Int}
    {fault : Fault} (h : StopsWith p rest tape position fault)
    (hrest : ∀ lack, rest.Lacks lack → input.Lacks lack) :
    StopsWith p input tape position fault := by
  cases h with
  | lacking hi hop hlacks => exact .lacking hi hop (hrest _ hlacks)
  | offLeft hi hop hpointer => exact .offLeft hi hop hpointer
  | offRight hi hop hpointer => exact .offRight hi hop hpointer

/-- A move that is refused leads outside the tape. -/
theorem Tape.outside_of_move? {t : Tape} {delta : Int} (h : t.move? delta = none) :
    ¬ (0 ≤ t.target delta ∧ t.target delta < (capacity : Int)) := by
  intro hinside
  rw [move?, dif_pos hinside] at h
  cases h

namespace Machine

variable {m m' : Machine} {position : Int} {fault : Fault}

/-- A move that stops leads outside the tape. -/
theorem outside_of_move {delta : Int} (h : m.move delta position = .stopped fault m') :
    ¬ (0 ≤ m.tape.target delta ∧ m.tape.target delta < (capacity : Int)) ∧
      fault = .outsideTape position (m.tape.target delta) capacity := by
  rw [move] at h
  cases hmove : m.tape.move? delta with
  | some tape =>
    rw [hmove] at h
    exact Outcome.noConfusion h
  | none =>
    rw [hmove] at h
    exact ⟨Tape.outside_of_move? hmove, (Outcome.stopped.inj h).1.symm⟩

/-- A move to the left stops at the first cell. -/
theorem first_of_move (h : m.move (-1) position = .stopped fault m') :
    m.tape.pointer.val = 0 ∧ fault = .outsideTape position (-1) 65536 := by
  obtain ⟨houtside, rfl⟩ := outside_of_move h
  have hlt := m.tape.pointer.isLt
  simp only [Tape.target, capacity] at houtside hlt
  have hfirst : m.tape.pointer.val = 0 := by omega
  refine ⟨hfirst, ?_⟩
  rw [Tape.target, hfirst]
  rfl

/-- A move to the right stops at the last cell. -/
theorem last_of_move (h : m.move 1 position = .stopped fault m') :
    m.tape.pointer.val = 65535 ∧ fault = .outsideTape position 65536 65536 := by
  obtain ⟨houtside, rfl⟩ := outside_of_move h
  have hlt := m.tape.pointer.isLt
  simp only [Tape.target, capacity] at houtside hlt
  have hlast : m.tape.pointer.val = 65535 := by omega
  refine ⟨hlast, ?_⟩
  rw [Tape.target, hlast]
  rfl

/-- An input that stops lacks a byte in a way of the input. -/
theorem lacks_of_take (h : m.take position = .stopped fault m') :
    ∃ lack, m.input.Lacks lack ∧ fault = lack.fault position := by
  rw [m.take_eq, ← Prod.eta m.supply.fetch] at h
  cases hfetch : m.supply.fetch.1 with
  | ok byte =>
    rw [hfetch] at h
    exact Outcome.noConfusion h
  | error lack =>
    rw [hfetch] at h
    exact ⟨lack, Supply.lacks_of_fetch hfetch, (Outcome.stopped.inj h).1.symm⟩

end Machine

/-- **An instruction of a decoded program stops for want of a byte or of a cell.** -/
theorem apply_stopsWith {tokens : List Token} {p : Program} {m m' : Machine} {n : Nat}
    {i : Instruction} {us : List Nat} {fault : Fault} (h : Decodes tokens p)
    (hi : p.instructions[n]? = some i) (hus : Unfinished (tokens.take n) us)
    (hresume : m.resume = us.map bodyStart) (hstopped : m.apply i = .stopped fault m') :
    StopsWith p m.input m.tape n fault := by
  have hindex := h.index_eq hi
  have happly := hstopped
  unfold Machine.apply at happly
  cases hop : i.op with
  | increment | decrement | output =>
    rw [hop] at happly
    exact Outcome.noConfusion happly
  | moveLeft =>
    rw [hop, hindex] at happly
    obtain ⟨hpointer, rfl⟩ := Machine.first_of_move happly
    exact .offLeft hi hop hpointer
  | moveRight =>
    rw [hop, hindex] at happly
    obtain ⟨hpointer, rfl⟩ := Machine.last_of_move happly
    exact .offRight hi hop hpointer
  | input =>
    rw [hop, hindex] at happly
    obtain ⟨lack, hlacks, rfl⟩ := Machine.lacks_of_take happly
    exact .lacking hi hop hlacks
  | openLoop =>
    -- the loop has an end to go to, so its beginning does not stop
    obtain ⟨next, m'', hmoved, -⟩ := enter_stacks h hi hus hresume hop
    exact Outcome.noConfusion (hmoved.symm.trans hstopped)
  | closeLoop =>
    -- the stack holds a body to go back to, so the end of the loop does not stop
    obtain ⟨o, hm⟩ := h.exists_beginning hi hop
    rcases end_stacks h hi hus hresume hop hm with ⟨-, hmoved, -⟩ | ⟨-, m'', hmoved, -⟩
    · exact Outcome.noConfusion (hmoved.symm.trans hstopped)
    · exact Outcome.noConfusion (hmoved.symm.trans hstopped)

/-! ## A run -/

/-- A run of a program is where its stack says, reads on in its input, and has failed, if it has, at
an instruction that could not be executed. -/
structure FailsAsTold (tokens : List Token) (p : Program) (input : Input) (r : Run) : Prop where
  stack : OnStack tokens r
  lacks : ∀ lack, r.machine.input.Lacks lack → input.Lacks lack
  failed : ∀ fault, r.phase = .failed fault → StopsWith p input r.machine.tape r.position fault

theorem advance_failsAsTold {tokens : List Token} {p : Program} {input : Input}
    (h : Decodes tokens p) (traced : Bool) {r : Run} (hr : FailsAsTold tokens p input r) :
    FailsAsTold tokens p input (Run.advance p traced r) := by
  obtain ⟨phase, position, m, trace⟩ := r
  have hstack := advance_onStack h traced hr.stack
  cases phase with
  | finished | failed fault => exact hr
  | running =>
    obtain ⟨⟨⟨n, us, hposition, hn, hus, hresume⟩, -⟩, hlacks, -⟩ := hr
    obtain rfl : position = n := hposition
    rcases Nat.lt_or_eq_of_le hn with hlt | rfl
    · -- an instruction is executed
      obtain ⟨i, hi⟩ := h.exists_instruction hlt
      obtain ⟨noted, hadvance⟩ := Run.advance_of_instruction traced m trace hi
      have hkept : ∀ lack, (m.apply i).machine.input.Lacks lack → input.Lacks lack :=
        fun lack h => hlacks lack (Machine.lacks_of_apply h)
      rw [hadvance] at hstack ⊢
      cases happly : m.apply i with
      | moved next m' =>
        rw [happly] at hstack hkept
        exact ⟨hstack, hkept, fun _ h => Phase.noConfusion h⟩
      | stopped fault m' =>
        rw [happly] at hstack hkept
        refine ⟨hstack, hkept, ?_⟩
        rintro _ ⟨rfl⟩
        have hstops := apply_stopsWith h hi hus hresume happly
        have hsame := congrArg Machine.tape (Machine.apply_stopped happly)
        change m'.tape = m.tape at hsame
        rw [← hsame] at hstops
        exact hstops.mono hlacks
    · -- the run finishes
      rw [← h.size_eq, Run.advance_at_end] at hstack ⊢
      exact ⟨hstack, hlacks, fun _ h => Phase.noConfusion h⟩

theorem start_failsAsTold (tokens : List Token) (m : Machine) (p : Program) (trace : Trace) :
    FailsAsTold tokens p m.input (Run.start m p trace) :=
  ⟨start_onStack tokens m p trace, fun _ h => h, nofun⟩

/-! ## Counting -/

namespace Run

/-- A run that goes on after an advance has executed an instruction. -/
theorem steps_advance {p : Program} {traced : Bool} {r : Run}
    (h : (advance p traced r).isRunning = true) :
    (advance p traced r).machine.steps = r.machine.steps + 1 := by
  cases hnext : r.next? p with
  | none => exact absurd h (Bool.eq_false_iff.1 (advance_of_no_next traced hnext).1)
  | some i =>
    obtain ⟨noted, hadvance⟩ := advance_of_next traced hnext
    have hsteps := (r.machine.steps_program_apply i).1
    rw [hadvance] at h ⊢
    cases happly : r.machine.apply i with
    | moved next m' =>
      rw [happly] at hsteps
      exact congrArg (· + 1) hsteps
    | stopped fault m' =>
      rw [happly] at h
      exact absurd h nofun

/-- A run that goes on has executed an instruction with every advance. -/
theorem steps_of_running {p : Program} {traced : Bool} {n : Nat} {r : Run}
    (h : (advanceFor p traced n r).isRunning = true) :
    (advanceFor p traced n r).machine.steps = r.machine.steps + n := by
  induction n with
  | zero => rfl
  | succ n ih =>
    cases hrunning : (advanceFor p traced n r).isRunning with
    | true =>
      rw [advanceFor_succ_last] at h ⊢
      rw [steps_advance h, ih hrunning, Nat.add_assoc]
    | false =>
      rw [advanceFor_of_le n.le_succ hrunning, hrunning] at h
      exact absurd h nofun

end Run

/-- A run of a decoded program goes on as long as it is allowed to, it finishes, or it fails at an
instruction that could not be executed. -/
theorem Machine.run_cases {tokens : List Token} {p : Program} (h : Decodes tokens p) (m : Machine)
    (fuel : Nat) (traced : Bool) (trace : Trace) :
    ((m.run p fuel traced trace).phase = .running ∧
        (m.run p fuel traced trace).machine.steps = fuel) ∨
      (m.run p fuel traced trace).phase = .finished ∨
      ∃ fault, (m.run p fuel traced trace).phase = .failed fault ∧
        StopsWith p m.input (m.run p fuel traced trace).machine.tape
          (m.run p fuel traced trace).position fault := by
  have htold := Run.advanceFor_invariant (P := FailsAsTold tokens p m.input)
    (advance_failsAsTold h traced) fuel (start_failsAsTold tokens m p trace)
  have hsteps : (m.run p fuel traced trace).isRunning = true →
      (m.run p fuel traced trace).machine.steps = 0 + fuel := Run.steps_of_running
  change FailsAsTold tokens p m.input (m.run p fuel traced trace) at htold
  cases hphase : (m.run p fuel traced trace).phase with
  | running =>
    refine Or.inl ⟨rfl, ?_⟩
    rw [hsteps (by rw [Run.isRunning, hphase]), Nat.zero_add]
  | finished => exact Or.inr (Or.inl rfl)
  | failed fault => exact Or.inr (Or.inr ⟨fault, rfl, htold.failed fault hphase⟩)

/-! ## Source texts -/

/-- **What comes out of a source text.** Either its brackets are unmatched, and it is rejected
whatever the streams are and without a single instruction; or it is run. The run goes on as long as
it is allowed to, it finishes, or it fails at an input without a byte, at a move to the left from
the first cell, or at a move to the right from the last one. An input lacks a byte in a way of the
stream: at its end, or at a surrogate if the stream is a text that holds one. In every state that it
reaches the pointer is on the tape and every cell holds a byte. -/
theorem execute_cases (setting : Setting) (text : String) (before : Trace) :
    (∃ e trace, ((∃ position site, e = .unmatchedClose position (some site)) ∨
        ∃ position unclosed, e = .unmatchedOpen position unclosed) ∧
      ∀ input output fuel,
        execute { setting with input := input, output := output, fuel := fuel } text before =
          .rejected (.decode e) trace) ∨
    ∃ p r, (parse text).outcome = .ok p ∧ execute setting text before = .ran p r ∧
      (r.phase = .running ∧ r.machine.steps = setting.fuel ∨ r.phase = .finished ∨
        ∃ fault, r.phase = .failed fault ∧
          StopsWith p setting.input r.machine.tape r.position fault) ∧
      r.machine.tape.pointer.val < 65536 ∧ ∀ cell, (r.machine.tape.cell cell).toNat ≤ 255 := by
  cases hparse : (parse text).outcome with
  | error e =>
    refine Or.inl ⟨e, before ++ Trace.ofCreated setting.traced (parse text).created,
      parse_error hparse, ?_⟩
    intro input output fuel
    simp only [execute, hparse]
  | ok p =>
    refine Or.inr ⟨p, _, rfl, by rw [execute, hparse], ?_, Fin.isLt _, fun _ => ?_⟩
    · have hcases := Machine.run_cases (decodes_of_decode hparse)
        (.new setting.input setting.output) setting.fuel setting.traced
        (before ++ Trace.ofCreated setting.traced (parse text).created)
      refine hcases.imp_right fun hended => hended.imp_right ?_
      rintro ⟨fault, hfailed, hstops⟩
      exact ⟨fault, hfailed, hstops.mono fun _ => Machine.lacks_of_new⟩
    · exact Nat.le_of_lt_succ (UInt8.toNat_lt _)

/-- A text of one surrogate: the run fails, neither as where the input ends nor as off the tape, and
the user is not told why. -/
theorem execute_surrogate :
    let setting : Setting := { input := .codePoints [.surrogate 0], fuel := 9 }
    ∃ p r, execute setting "," = .ran p r ∧ r.phase = .failed (.unencodable 0) ∧
      (∀ position, r.phase ≠ .failed (.inputExhausted position)) ∧
      (∀ position pointer capacity, r.phase ≠ .failed (.outsideTape position pointer capacity)) ∧
      (Error.fault (.unencodable 0)).isReported = false := by
  have hran : ∃ p r, execute { input := .codePoints [.surrogate 0], fuel := 9 } "," = .ran p r ∧
      r.phase = .failed (.unencodable 0) := ⟨_, _, rfl, rfl⟩
  obtain ⟨p, r, hexecute, hfailed⟩ := hran
  refine ⟨p, r, hexecute, hfailed, fun position h => ?_, fun position pointer capacity h => ?_, rfl⟩
  · exact Fault.noConfusion (Phase.failed.inj (hfailed.symm.trans h))
  · exact Fault.noConfusion (Phase.failed.inj (hfailed.symm.trans h))

end TapeLanguage
