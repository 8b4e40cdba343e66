import TapeLanguage.Machine.Run

/-!
# One instruction

What an instruction does to a machine and to a run, with nothing about the program around it. An
instruction that is no bracket leaves the loops alone and goes on with the next one, or it fails
(`apply_plain`). A bracket touches nothing but the loops (`apply_bracket`) and goes on at a place
that depends on the cell (`apply_enter`, `apply_skip`, `apply_repeat`, `apply_leave`). A run at an
instruction goes on with its outcome (`advance_of_instruction`), and a run at the end of the program
finishes (`advance_at_end`). What the instructions keep of the machine is kept by a run
(`machine_invariant`).
-/

set_option autoImplicit false

namespace TapeLanguage

namespace Machine

/-- The loops, the count and the program of two machines are the same. -/
structure SameLoops (m m' : Machine) : Prop where
  resume : m'.resume = m.resume
  bookmark : m'.bookmark = m.bookmark
  steps : m'.steps = m.steps
  program : m'.program = m.program

theorem SameLoops.refl (m : Machine) : SameLoops m m :=
  ⟨rfl, rfl, rfl, rfl⟩

/-! ## Instructions that are no brackets -/

theorem move_sameLoops (m : Machine) (delta position : Int) :
    ∃ m', SameLoops m m' ∧ (m.move delta position = .moved (position + 1) m' ∨
      ∃ fault, m.move delta position = .stopped fault m') := by
  unfold move
  cases m.tape.move? delta with
  | some tape => exact ⟨{ m with tape := tape }, ⟨rfl, rfl, rfl, rfl⟩, Or.inl rfl⟩
  | none => exact ⟨m, .refl m, Or.inr ⟨_, rfl⟩⟩

theorem take_sameLoops (m : Machine) (position : Int) :
    ∃ m', SameLoops m m' ∧ (m.take position = .moved (position + 1) m' ∨
      ∃ fault, m.take position = .stopped fault m') := by
  unfold take
  cases m.queue with
  | cons byte more =>
    exact ⟨{ m with tape := m.tape.store byte, queue := more }, ⟨rfl, rfl, rfl, rfl⟩, Or.inl rfl⟩
  | nil =>
    obtain ⟨reading, rest⟩ := m.input.read
    cases reading with
    | delivered byte more =>
      exact ⟨{ m with tape := m.tape.store byte, queue := more, input := rest },
        ⟨rfl, rfl, rfl, rfl⟩, Or.inl rfl⟩
    | ended | unencodable s | interrupted | refused =>
      exact ⟨{ m with queue := [], input := rest }, ⟨rfl, rfl, rfl, rfl⟩, Or.inr ⟨_, rfl⟩⟩

/-- **An instruction that is no bracket leaves the loops alone**, whether it fails or not. -/
theorem apply_plain (m : Machine) {i : Instruction} (h : i.op.isBracket = false) :
    ∃ m', SameLoops m m' ∧ (m.apply i = .moved (i.index + 1) m' ∨
      ∃ fault, m.apply i = .stopped fault m') := by
  unfold apply
  cases hop : i.op with
  | moveRight => exact m.move_sameLoops 1 i.index
  | moveLeft => exact m.move_sameLoops (-1) i.index
  | increment =>
    exact ⟨{ m with tape := m.tape.increment }, ⟨rfl, rfl, rfl, rfl⟩, Or.inl rfl⟩
  | decrement =>
    exact ⟨{ m with tape := m.tape.decrement }, ⟨rfl, rfl, rfl, rfl⟩, Or.inl rfl⟩
  | output =>
    exact ⟨{ m with output := (m.output.write m.tape.read).flush }, ⟨rfl, rfl, rfl, rfl⟩,
      Or.inl rfl⟩
  | input => exact m.take_sameLoops i.index
  | openLoop =>
    rw [hop] at h
    exact absurd h (by decide)
  | closeLoop =>
    rw [hop] at h
    exact absurd h (by decide)

end Machine

/-! ## Brackets -/

/-- The machine after an instruction. -/
def Outcome.machine : Outcome → Machine
  | moved _ m => m
  | stopped _ m => m

namespace Machine

theorem enter_machine (m : Machine) (i : Instruction) :
    ∃ resume bookmark, (m.enter i).machine = { m with resume := resume, bookmark := bookmark } := by
  unfold enter
  split
  · cases m.partner? i with
    | some position => exact ⟨m.resume, position, rfl⟩
    | none => exact ⟨m.resume, m.bookmark, rfl⟩
  · exact ⟨_, m.bookmark, rfl⟩

theorem repeatOrLeave_machine (m : Machine) (i : Instruction) :
    ∃ resume bookmark,
      (m.repeatOrLeave i).machine = { m with resume := resume, bookmark := bookmark } := by
  unfold repeatOrLeave
  split
  · exact ⟨_, m.bookmark, rfl⟩
  · split
    · exact ⟨m.resume, m.bookmark, rfl⟩
    · cases m.partner? i <;> exact ⟨m.resume, m.bookmark, rfl⟩

/-- **A bracket touches nothing but the loops**, whether it fails or not. -/
theorem apply_bracket (m : Machine) {i : Instruction} (h : i.op.isBracket = true) :
    ∃ resume bookmark, (m.apply i).machine = { m with resume := resume, bookmark := bookmark } := by
  unfold apply
  cases hop : i.op with
  | openLoop => exact m.enter_machine i
  | closeLoop => exact m.repeatOrLeave_machine i
  | moveLeft | moveRight | increment | decrement | output | input =>
    rw [hop] at h
    exact absurd h nofun

/-- An instruction does not count itself, and it keeps the program. -/
theorem steps_program_apply (m : Machine) (i : Instruction) :
    (m.apply i).machine.steps = m.steps ∧ (m.apply i).machine.program = m.program := by
  by_cases hbracket : i.op.isBracket = false
  · obtain ⟨m', hsame, hm' | ⟨fault, hm'⟩⟩ := m.apply_plain hbracket
    · rw [hm']
      exact ⟨hsame.steps, hsame.program⟩
    · rw [hm']
      exact ⟨hsame.steps, hsame.program⟩
  · obtain ⟨resume, bookmark, hframe⟩ := m.apply_bracket (Bool.not_eq_false _ ▸ hbracket)
    rw [hframe]
    exact ⟨rfl, rfl⟩

variable {m : Machine} {i : Instruction}

theorem apply_enter (hop : i.op = .openLoop) (hcell : m.tape.read ≠ 0) :
    m.apply i = .moved (i.index + 1) { m with resume := (i.index + 1) :: m.resume } := by
  unfold apply
  rw [hop]
  exact if_neg hcell

theorem apply_skip {partner : Int} (hop : i.op = .openLoop) (hcell : m.tape.read = 0)
    (hpartner : i.partner = some partner) :
    m.apply i = .moved (partner + 1) { m with bookmark := partner } := by
  unfold apply
  rw [hop]
  simp only [enter, partner?, hcell, hpartner, if_true]

theorem apply_repeat {position : Int} {outer : List Int} (hop : i.op = .closeLoop)
    (hcell : m.tape.read ≠ 0) (hresume : m.resume = position :: outer) :
    m.apply i = .moved position m := by
  unfold apply
  rw [hop]
  simp only [repeatOrLeave, hcell, hresume, if_false]

theorem apply_leave (hop : i.op = .closeLoop) (hcell : m.tape.read = 0) :
    m.apply i = .moved (i.index + 1) { m with resume := m.resume.tail } := by
  unfold apply
  rw [hop]
  exact if_pos hcell

end Machine

namespace Program

/-- The instruction at a position from the front. -/
theorem get?_natCast (p : Program) (n : Nat) : p.get? n = p.instructions[n]? := by
  rw [get?, if_pos (Int.natCast_nonneg n), Int.toNat_natCast]

/-- What stands at a position is one of the instructions. -/
theorem exists_getElem?_of_get? {p : Program} {position : Int} {i : Instruction}
    (h : p.get? position = some i) : ∃ n : Nat, p.instructions[n]? = some i := by
  rw [get?] at h
  split at h
  · exact ⟨_, h⟩
  · split at h
    · exact ⟨_, h⟩
    · cases h

/-- A program whose instructions are changed one by one. -/
theorem get?_map (p : Program) (f : Instruction → Instruction) (position : Int) :
    ({ p with instructions := p.instructions.map f } : Program).get? position =
      (p.get? position).map f := by
  have hsize : ({ p with instructions := p.instructions.map f } : Program).size = p.size :=
    Array.size_map
  rw [get?, get?, hsize]
  split
  · exact Array.getElem?_map
  · split
    · exact Array.getElem?_map
    · rfl

theorem lt_size_of_getElem? {p : Program} {n : Nat} {i : Instruction}
    (h : p.instructions[n]? = some i) : n < p.size :=
  (Array.getElem?_eq_some_iff.1 h).1

end Program

namespace Run

/-- A run at an instruction goes on with its outcome. -/
theorem advance_of_instruction {p : Program} (traced : Bool) {n : Nat} {i : Instruction}
    (m : Machine) (trace : Trace) (hi : p.instructions[n]? = some i) :
    ∃ noted, advance p traced ⟨.running, n, m, trace⟩ = ofOutcome n noted (m.apply i) := by
  have hlt : (n : Int) < p.size := Int.ofNat_lt.2 (Program.lt_size_of_getElem? hi)
  rw [advance, if_pos hlt, Program.get?_natCast, hi]
  exact ⟨_, rfl⟩

/-- A run at the end of the program finishes. -/
theorem advance_at_end (p : Program) (traced : Bool) (m : Machine) (trace : Trace) :
    advance p traced ⟨.running, p.size, m, trace⟩ = finish traced p.size m trace := by
  rw [advance, if_neg (Int.lt_irrefl _)]

/-- A run that comes to an end stands where it stood. -/
theorem position_of_ended {p : Program} {traced : Bool} {r : Run}
    (h : (advance p traced r).isRunning = false) : (advance p traced r).position = r.position := by
  obtain ⟨phase, position, m, trace⟩ := r
  cases phase with
  | finished | failed fault => rfl
  | running =>
    rw [advance] at h ⊢
    split at h
    · split at h
      · next i hi =>
        cases happly : m.apply i with
        | moved next m' =>
          rw [happly] at h
          exact Bool.noConfusion h
        | stopped fault m' => simp [ofOutcome, *]
      · simp [*]
    · simp [finish, *]

/-- What an advance keeps is kept by any number of them. -/
theorem advanceFor_invariant {p : Program} {traced : Bool} {P : Run → Prop}
    (hstep : ∀ {r}, P r → P (advance p traced r)) (n : Nat) {r : Run} (hr : P r) :
    P (advanceFor p traced n r) := by
  induction n generalizing r with
  | zero => exact hr
  | succ n ih =>
    rw [advanceFor_succ]
    exact ih (hstep hr)

/-- **What an instruction keeps of the machine is kept by a run**, if counting and flushing keep
it. -/
theorem machine_invariant {P : Machine → Prop}
    (happly : ∀ m i, P m → P (Machine.apply m i).machine) (hcount : ∀ m, P m → P m.count)
    (hflush : ∀ m, P m → P m.flush) (p : Program) (traced : Bool) (n : Nat) {r : Run}
    (hr : P r.machine) : P (advanceFor p traced n r).machine := by
  refine advanceFor_invariant (P := fun r' => P r'.machine) ?_ n hr
  intro r' hr'
  obtain ⟨phase, position, m, trace⟩ := r'
  cases phase with
  | finished | failed fault => exact hr'
  | running =>
    rw [advance]
    split
    · split
      · next i hi =>
        have hafter := happly m i hr'
        cases happlied : m.apply i with
        | moved next m' =>
          rw [happlied] at hafter
          exact hcount m' hafter
        | stopped fault m' =>
          rw [happlied] at hafter
          exact hafter
      · exact hr'
    · exact hflush m hr'

/-- The first instructions, then one more. -/
theorem advanceFor_succ_last (p : Program) (traced : Bool) (n : Nat) (r : Run) :
    advanceFor p traced (n + 1) r = advance p traced (advanceFor p traced n r) := by
  rw [advanceFor_add, advanceFor_succ]
  rfl

/-- A run that has ended after some instructions stays the same for more of them. -/
theorem advanceFor_of_le {p : Program} {traced : Bool} {r : Run} {a b : Nat} (hab : a ≤ b)
    (ha : (advanceFor p traced a r).isRunning = false) :
    advanceFor p traced b r = advanceFor p traced a r := by
  rw [← Nat.add_sub_cancel' hab, advanceFor_add, advanceFor_of_ended p traced _ ha]

end Run

/-- A run for some instructions goes on with others. -/
theorem Machine.run_add (m : Machine) (p : Program) (a b : Nat) (traced : Bool) :
    m.run p (a + b) traced = Run.advanceFor p traced b (m.run p a traced) :=
  Run.advanceFor_add p traced a b _

end TapeLanguage
