import TapeLanguage.Proofs.Completed
import TapeLanguage.Proofs.Displacement

/-!
# The footprint of a run

The tape that a run leaves is the one that its completed instructions make of the first tape, one
after the other (`Run.becomes`): an instruction that fails and the end of the program leave the tape
alone. So what one instruction keeps of the tape is kept by the run.

An instruction changes at most the cell under the pointer, and only if it stores a byte
(`Executed.cell_after`). The cells that a run stores into are all that it can change
(`Tape.Becomes.cell_eq`). If the pointer and the cells that are not zero all lie within a reach,
they still do after an instruction, except that a move to the right adds one place to the reach
(`Tape.Within.after`). From a blank tape a run therefore uses no more cells than the first one and
one for every move to the right that it completes (`run_footprint`).
-/

set_option autoImplicit false

namespace TapeLanguage

/-! ## The extent of a tape -/

namespace Tape

/-- The cells among the first `n` are zero from the extent on, and from no place before it. -/
theorem extentBelow_le_iff (cells : Vector UInt8 capacity) (n : Nat) (hn : n ≤ capacity)
    (u : Nat) : extentBelow cells n hn ≤ u ↔ ∀ i (h : i < n), u ≤ i → cells[i] = 0 := by
  induction n with
  | zero => exact ⟨fun _ i h => absurd h (Nat.not_lt_zero i), fun _ => Nat.zero_le u⟩
  | succ n ih =>
    rw [extentBelow]
    split
    · next hzero =>
      rw [ih]
      constructor
      · intro hbelow i hi hu
        rcases Nat.lt_succ_iff_lt_or_eq.1 hi with hlt | rfl
        · exact hbelow i hlt hu
        · exact hzero
      · intro hall i hi hu
        exact hall i (Nat.lt_succ_of_lt hi) hu
    · next hnonzero =>
      constructor
      · intro hle i hi hu
        omega
      · intro hall
        -- the last of the cells is not zero, so it stands before the bound
        exact Nat.lt_of_not_le fun hle => hnonzero (hall n (Nat.lt_succ_self n) hle)

/-- **The extent is the first place from which all cells are zero.** -/
theorem extent_le_iff (t : Tape) (u : Nat) :
    t.extent ≤ u ↔ ∀ c : Fin capacity, u ≤ c.val → t.cell c = 0 := by
  rw [extent, extentBelow_le_iff]
  exact ⟨fun h c hu => h c.val c.isLt hu, fun h i hi hu => h ⟨i, hi⟩ hu⟩

@[simp] theorem cell_blank (c : Fin capacity) : blank.cell c = 0 :=
  Vector.getElem_replicate c.isLt

end Tape

/-! ## One instruction -/

/-- The operation stores a byte under the pointer. -/
def Op.stores : Op → Bool
  | .increment | .decrement | .input => true
  | .moveRight | .moveLeft | .output | .openLoop | .closeLoop => false

namespace Executed

/-- The tape after the instruction. -/
def after (e : Executed) : Tape :=
  (e.machine.apply e.instruction).machine.tape

/-- The cell that the instruction stores into. -/
def touched? (e : Executed) : Option (Fin capacity) :=
  if e.instruction.op.stores then some e.machine.tape.pointer else none

/-- A move leads to a tape with the same cells, or it fails and leaves the tape alone. -/
theorem after_move (e : Executed) {delta : Int}
    (h : e.machine.apply e.instruction = e.machine.move delta e.instruction.index) :
    e.after.cells = e.machine.tape.cells ∧
      (e.after.pointer.val : Int) ≤ e.machine.tape.pointer.val + max 0 delta := by
  rw [after, h, Machine.move]
  cases hmove : e.machine.tape.move? delta with
  | none => exact ⟨rfl, by dsimp only [Outcome.machine]; omega⟩
  | some u =>
    obtain ⟨hcells, hpointer⟩ := Tape.of_move? hmove
    exact ⟨hcells, by dsimp only [Outcome.machine]; omega⟩

/-- **What an instruction does to the tape**: it stores a byte under the pointer, or it keeps the
cells and moves the pointer at most one place up, and that only if it is a move to the right. -/
theorem after_cases (e : Executed) :
    (e.instruction.op.stores = true ∧ ∃ value, e.after = e.machine.tape.store value) ∨
      (e.after.cells = e.machine.tape.cells ∧ e.after.pointer.val ≤
        e.machine.tape.pointer.val + if e.instruction.op = .moveRight then 1 else 0) := by
  cases hop : e.instruction.op with
  | increment =>
    refine Or.inl ⟨rfl, e.machine.tape.read + 1, ?_⟩
    rw [after, Machine.apply, hop]
    rfl
  | decrement =>
    refine Or.inl ⟨rfl, e.machine.tape.read - 1, ?_⟩
    rw [after, Machine.apply, hop]
    rfl
  | input =>
    rw [after, e.machine.apply_of_input hop]
    obtain ⟨result, rest⟩ := e.machine.supply.fetch
    cases result with
    | ok byte => exact Or.inl ⟨rfl, byte, rfl⟩
    | error lack => exact Or.inr ⟨rfl, Nat.le_add_right _ _⟩
  | moveRight =>
    have happly : e.machine.apply e.instruction = e.machine.move 1 e.instruction.index := by
      rw [Machine.apply, hop]
    obtain ⟨hcells, hpointer⟩ := e.after_move happly
    refine Or.inr ⟨hcells, ?_⟩
    rw [if_pos rfl]
    omega
  | moveLeft =>
    have happly : e.machine.apply e.instruction = e.machine.move (-1) e.instruction.index := by
      rw [Machine.apply, hop]
    obtain ⟨hcells, hpointer⟩ := e.after_move happly
    refine Or.inr ⟨hcells, ?_⟩
    omega
  | output =>
    rw [after, Machine.apply, hop]
    exact Or.inr ⟨rfl, Nat.le_add_right _ _⟩
  | openLoop | closeLoop =>
    obtain ⟨resume, bookmark, hframe⟩ := e.machine.apply_bracket (by rw [hop]; rfl)
    rw [after, hframe]
    exact Or.inr ⟨rfl, Nat.le_add_right _ _⟩

/-- An instruction keeps every cell that it does not store into. -/
theorem cell_after (e : Executed) {c : Fin capacity} (hc : c ∉ e.touched?) :
    e.after.cell c = e.machine.tape.cell c := by
  rcases e.after_cases with ⟨hstores, value, hafter⟩ | ⟨hcells, -⟩
  · have hne : c ≠ e.machine.tape.pointer := by
      rintro rfl
      exact hc (by rw [touched?, if_pos hstores]; rfl)
    rw [hafter, Tape.cell_store, if_neg hne]
  · rw [Tape.cell, Tape.cell, hcells]

end Executed

/-- The pointer stands at most at `reach`, and all cells behind that are zero. -/
structure Tape.Within (reach : Nat) (t : Tape) : Prop where
  pointer : t.pointer.val ≤ reach
  cell : ∀ c : Fin capacity, reach < c.val → t.cell c = 0

namespace Tape.Within

theorem blank : Tape.blank.Within 0 :=
  ⟨Nat.le_refl 0, fun c _ => cell_blank c⟩

theorem extent_le {reach : Nat} {t : Tape} (h : t.Within reach) : t.extent ≤ 1 + reach :=
  (t.extent_le_iff _).2 fun c hc => h.cell c (by omega)

/-- **An instruction adds one place to the reach** if it is a move to the right, and no place
otherwise. -/
theorem after {reach : Nat} {e : Executed} (h : e.machine.tape.Within reach) :
    e.after.Within (reach + if e.instruction.op = .moveRight then 1 else 0) := by
  have hpointer := h.pointer
  rcases e.after_cases with ⟨-, value, hafter⟩ | ⟨hcells, hmoved⟩
  · rw [hafter]
    refine ⟨Nat.le_add_right_of_le hpointer, ?_⟩
    intro c hc
    have hne : c ≠ e.machine.tape.pointer := by
      rintro rfl
      omega
    rw [Tape.cell_store, if_neg hne]
    exact h.cell c (by omega)
  · refine ⟨by omega, ?_⟩
    intro c hc
    rw [Tape.cell, hcells]
    exact h.cell c (by omega)

end Tape.Within

/-! ## Instructions one after the other -/

/-- The instructions make one tape of another, each executed on the tape that the one before it has
left. -/
inductive Tape.Becomes : Tape → List Executed → Tape → Prop
  | nil (t : Tape) : Becomes t [] t
  | cons (e : Executed) {done : List Executed} {u : Tape} (hrest : Becomes e.after done u) :
      Becomes e.machine.tape (e :: done) u

/-- The cells that the instructions store into. -/
def touched (done : List Executed) : List (Fin capacity) :=
  done.filterMap Executed.touched?

/-- The number of moves to the right among the instructions. -/
def movesRight (done : List Executed) : Nat :=
  done.countP fun e => e.instruction.op = .moveRight

theorem movesRight_cons (e : Executed) (done : List Executed) :
    movesRight (e :: done) =
      (if e.instruction.op = .moveRight then 1 else 0) + movesRight done := by
  simp [movesRight, List.countP_cons, Nat.add_comm]

namespace Tape.Becomes

variable {t u : Tape} {done : List Executed}

/-- **A cell that no instruction stores into keeps its value.** -/
theorem cell_eq {c : Fin capacity} (h : t.Becomes done u) (hc : c ∉ touched done) :
    u.cell c = t.cell c := by
  induction h with
  | nil t => rfl
  | cons e hrest ih =>
    have hfirst : c ∉ e.touched? := fun hmem =>
      hc (List.mem_filterMap.2 ⟨e, List.mem_cons_self, hmem⟩)
    have hlater : c ∉ touched _ := fun hmem =>
      hc ((List.sublist_cons_self e _).filterMap _ |>.subset hmem)
    rw [ih hlater, e.cell_after hfirst]

/-- **The reach grows by the moves to the right.** -/
theorem within {reach : Nat} (h : t.Becomes done u) (ht : t.Within reach) :
    u.Within (reach + movesRight done) := by
  induction h generalizing reach with
  | nil t => exact ht
  | cons e hrest ih =>
    rw [movesRight_cons, ← Nat.add_assoc]
    exact ih ht.after

end Tape.Becomes

/-! ## A run -/

namespace Run

/-- **The completed instructions make the tape of the run.** -/
theorem becomes (p : Program) (traced : Bool) (n : Nat) (r : Run) :
    r.machine.tape.Becomes (r.completed p traced n) (advanceFor p traced n r).machine.tape := by
  induction n generalizing r with
  | zero => exact .nil _
  | succ n ih =>
    rw [advanceFor_succ, completed]
    have hrest := ih (advance p traced r)
    cases h : r.completes? p with
    | none =>
      obtain ⟨-, input, output, hmachine, -⟩ := advance_of_not_completes traced h
      rw [hmachine] at hrest
      exact hrest
    | some e =>
      obtain ⟨hmachine, -, next, m', happly, hadvance⟩ := advance_of_completes traced h
      have hafter : (advance p traced r).machine.tape = e.after := by
        rw [hadvance, Executed.after, hmachine, happly]
        rfl
      rw [hafter] at hrest
      rw [← hmachine]
      exact .cons e hrest

end Run

/-- **A run only touches the cells it stores into.** Let any machine run any program, for any number
of instructions, and take the instructions that it has completed, as many as it has counted. Whether
the run has finished by then, has failed or goes on, a cell has kept its value unless it was under
the pointer when one of them was an increment, a decrement or an input. If the tape was blank, its
extent is at most one more than the number of moves to the right among them. -/
theorem run_footprint (m : Machine) (p : Program) (fuel : Nat) (traced : Bool) (trace : Trace) :
    let r := m.run p fuel traced trace
    let done := (Run.start m p trace).completed p traced fuel
    r.machine.steps = done.length ∧
      (∀ c, c ∉ touched done → r.machine.tape.cell c = m.tape.cell c) ∧
      (m.tape = Tape.blank → r.machine.tape.extent ≤ 1 + movesRight done) := by
  intro r done
  have hbecomes : m.tape.Becomes done r.machine.tape :=
    Run.becomes p traced fuel (.start m p trace)
  refine ⟨?_, fun c hc => hbecomes.cell_eq hc, ?_⟩
  · exact (Run.steps_completed p traced fuel (.start m p trace)).trans (Nat.zero_add _)
  · intro hblank
    have hwithin : r.machine.tape.Within (0 + movesRight done) :=
      hbecomes.within (hblank ▸ Tape.Within.blank)
    rw [Nat.zero_add] at hwithin
    exact hwithin.extent_le

/-- The last instruction of this program fails above the third cell, which keeps its value. -/
theorem run_footprint_failing :
    let m : Machine := .new (.bytes [7]) (.bytes #[] 0)
    ∃ p, (Program.decode (Token.ofText "+>,>,")).outcome = .ok p ∧
      (m.run p 9).phase = .failed (.inputExhausted 4) ∧
      let done := (Run.start m p #[]).completed p false 9
      touched done = [⟨0, by decide⟩, ⟨1, by decide⟩] ∧ movesRight done = 2 ∧
        (m.run p 9).machine.tape.cell ⟨2, by decide⟩ = m.tape.cell ⟨2, by decide⟩ ∧
        (m.run p 9).machine.tape.extent ≤ 1 + 2 := by
  intro m
  have hdecoded : ∃ p, (Program.decode (Token.ofText "+>,>,")).outcome = .ok p ∧
      (Machine.run (.new (.bytes [7]) (.bytes #[] 0)) p 9).phase = .failed (.inputExhausted 4) ∧
      touched ((Run.start (.new (.bytes [7]) (.bytes #[] 0)) p #[]).completed p false 9) =
        [⟨0, by decide⟩, ⟨1, by decide⟩] ∧
      movesRight ((Run.start (.new (.bytes [7]) (.bytes #[] 0)) p #[]).completed p false 9) = 2 :=
    ⟨_, rfl, rfl, rfl, rfl⟩
  obtain ⟨p, hp, hphase, htouched, hmoves⟩ := hdecoded
  obtain ⟨-, hcell, hextent⟩ := run_footprint m p 9 false #[]
  refine ⟨p, hp, hphase, htouched, hmoves, hcell ⟨2, by decide⟩ ?_, ?_⟩
  · rw [htouched]
    decide
  · rw [← hmoves]
    exact hextent rfl

end TapeLanguage
