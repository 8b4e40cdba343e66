import TapeLanguage.Program.Decode
import TapeLanguage.Proofs.Supply

/-!
# Displaced tapes

No instruction knows where on the tape it works: it reads, stores and moves relative to the pointer.
Let a tape hold the same cells as another one, some places further on, as far as both reach, and let
its pointer stand as many places further on (`Tape.Displaced`). Then the cell under the pointer is
the same, and the tapes stay displaced when a byte is stored or the pointer is moved on both.

So an instruction does the same to machines on displaced tapes (`Machine.Displaced.apply`), and so
does every advance of a run (`Run.Displaced.advance`), up to the place where one of the pointers
leaves its tape: the ends of the tapes are all that such machines can tell apart (`run_displaced`).
-/

set_option autoImplicit false

namespace TapeLanguage

/-! ## Tapes -/

/-- The second tape is the first one moved up by `d` places, as far as both tapes reach. -/
structure Tape.Displaced (d : Int) (t t' : Tape) : Prop where
  /-- The pointers stand `d` places apart. -/
  pointer : (t'.pointer.val : Int) = t.pointer.val + d
  /-- Cells that stand `d` places apart are the same. -/
  cell : ∀ i j : Fin capacity, (j.val : Int) = i.val + d → t'.cell j = t.cell i

namespace Tape

/-- A move keeps the cells and changes the pointer by what it says. -/
theorem of_move? {t u : Tape} {delta : Int} (h : t.move? delta = some u) :
    u.cells = t.cells ∧ (u.pointer.val : Int) = t.pointer.val + delta := by
  rw [move?] at h
  split at h
  · next hinside =>
    obtain rfl := Option.some.inj h
    exact ⟨rfl, Int.toNat_of_nonneg hinside.1⟩
  · cases h

namespace Displaced

variable {d : Int} {t t' : Tape}

/-- The cells under the pointers are the same. -/
theorem read_eq (h : t.Displaced d t') : t'.read = t.read :=
  h.cell t.pointer t'.pointer h.pointer

/-- **The same byte can be stored.** -/
theorem store (h : t.Displaced d t') (value : UInt8) :
    (t.store value).Displaced d (t'.store value) := by
  refine ⟨h.pointer, ?_⟩
  intro i j hij
  -- a cell is under its pointer exactly if its counterpart is
  have hunder : j = t'.pointer ↔ i = t.pointer := by
    rw [Fin.ext_iff, Fin.ext_iff]
    have hpointer := h.pointer
    omega
  simp only [cell_store, hunder, h.cell i j hij]

/-- The same change of the cells keeps the tapes displaced. -/
theorem change (h : t.Displaced d t') (f : UInt8 → UInt8) :
    (t.change f).Displaced d (t'.change f) := by
  rw [Tape.change, Tape.change, h.read_eq]
  exact h.store (f t.read)

/-- **The same move keeps the tapes displaced**, if it stays on both. -/
theorem move? (h : t.Displaced d t') {delta : Int} {u u' : Tape} (hu : t.move? delta = some u)
    (hu' : t'.move? delta = some u') : u.Displaced d u' := by
  obtain ⟨hcells, hpointer⟩ := of_move? hu
  obtain ⟨hcells', hpointer'⟩ := of_move? hu'
  constructor
  case pointer =>
    rw [hpointer', hpointer, h.pointer, Int.add_right_comm]
  case cell =>
    intro i j hij
    rw [Tape.cell, Tape.cell, hcells, hcells']
    exact h.cell i j hij

end Displaced

end Tape

/-! ## Machines -/

/-- The same bytes have been written since the outputs were `o` and `o'`. -/
def Output.WrittenSince (o o' a a' : Output) : Prop :=
  ∃ written, a.contents = o.contents ++ written ∧ a'.contents = o'.contents ++ written

theorem Output.WrittenSince.write {o o' a a' : Output} (h : WrittenSince o o' a a')
    (byte : UInt8) : WrittenSince o o' (a.write byte).flush (a'.write byte).flush := by
  obtain ⟨written, ha, ha'⟩ := h
  refine ⟨written ++ [byte], ?_, ?_⟩
  · rw [contents_flush, contents_write, ha, List.append_assoc]
  · rw [contents_flush, contents_write, ha', List.append_assoc]

theorem Output.WrittenSince.flush {o o' a a' : Output} (h : WrittenSince o o' a a') :
    WrittenSince o o' a.flush a'.flush := by
  rwa [WrittenSince, contents_flush, contents_flush]

/-- The machines differ in their tapes, which are displaced, and in what they wrote before they were
given their common program. -/
structure Machine.Displaced (d : Int) (o o' : Output) (m m' : Machine) : Prop where
  tape : m.tape.Displaced d m'.tape
  output : Output.WrittenSince o o' m.output m'.output
  rest : m' = { m with tape := m'.tape, output := m'.output }

/-- The instruction has moved the pointer off the tape. -/
def Outcome.LeavesTape (outcome : Outcome) : Prop :=
  ∃ position pointer capacity m, outcome = .stopped (.outsideTape position pointer capacity) m

/-- The outcomes leave displaced machines. -/
inductive Outcome.Displaced (d : Int) (o o' : Output) : Outcome → Outcome → Prop
  | moved {next : Int} {m m' : Machine} (hm : m.Displaced d o o' m') :
      Displaced d o o' (.moved next m) (.moved next m')
  | stopped {fault : Fault} {m m' : Machine} (hm : m.Displaced d o o' m') :
      Displaced d o o' (.stopped fault m) (.stopped fault m')

namespace Machine.Displaced

variable {d : Int} {o o' : Output} {m m' : Machine}

/-- The second machine is the first one on another tape and with another output. -/
theorem exists_eq (h : m.Displaced d o o' m') :
    ∃ t a, m' = { m with tape := t, output := a } ∧ m.tape.Displaced d t ∧
      Output.WrittenSince o o' m.output a :=
  ⟨m'.tape, m'.output, h.rest, h.tape, h.output⟩

theorem steps_eq (h : m.Displaced d o o' m') : m'.steps = m.steps := by
  obtain ⟨t, a, rfl, -, -⟩ := h.exists_eq
  rfl

theorem supply_eq (h : m.Displaced d o o' m') : m'.supply = m.supply := by
  obtain ⟨t, a, rfl, -, -⟩ := h.exists_eq
  rfl

theorem move (h : m.Displaced d o o' m') (delta position : Int)
    (hon : ¬ (m.move delta position).LeavesTape) (hon' : ¬ (m'.move delta position).LeavesTape) :
    Outcome.Displaced d o o' (m.move delta position) (m'.move delta position) := by
  obtain ⟨t, a, rfl, ht, ha⟩ := h.exists_eq
  rw [Machine.move] at hon hon' ⊢
  rw [Machine.move]
  cases hu : m.tape.move? delta with
  | none =>
    rw [hu] at hon
    exact absurd ⟨_, _, _, _, rfl⟩ hon
  | some u =>
    dsimp only at hon' ⊢
    cases hu' : t.move? delta with
    | none =>
      rw [hu'] at hon'
      exact absurd ⟨_, _, _, _, rfl⟩ hon'
    | some u' => exact .moved ⟨ht.move? hu hu', ha, rfl⟩

theorem change (h : m.Displaced d o o' m') (f : UInt8 → UInt8) (position : Int) :
    Outcome.Displaced d o o' (m.change (Tape.change f) position)
      (m'.change (Tape.change f) position) := by
  obtain ⟨t, a, rfl, ht, ha⟩ := h.exists_eq
  exact .moved ⟨ht.change f, ha, rfl⟩

theorem emit (h : m.Displaced d o o' m') (position : Int) :
    Outcome.Displaced d o o' (m.emit position) (m'.emit position) := by
  obtain ⟨t, a, rfl, ht, ha⟩ := h.exists_eq
  rw [Machine.emit, Machine.emit, show Tape.read _ = _ from ht.read_eq]
  exact .moved ⟨ht, ha.write m.tape.read, rfl⟩

theorem take (h : m.Displaced d o o' m') (position : Int) :
    Outcome.Displaced d o o' (m.take position) (m'.take position) := by
  obtain ⟨t, a, rfl, ht, ha⟩ := h.exists_eq
  have hsupply : Machine.supply { m with tape := t, output := a } = m.supply := rfl
  rw [take_eq, take_eq, hsupply]
  obtain ⟨result, left⟩ := m.supply.fetch
  cases result with
  | ok byte => exact .moved ⟨ht.store byte, ha, rfl⟩
  | error lack => exact .stopped ⟨ht, ha, rfl⟩

theorem enter (h : m.Displaced d o o' m') (i : Instruction) :
    Outcome.Displaced d o o' (m.enter i) (m'.enter i) := by
  obtain ⟨t, a, rfl, ht, ha⟩ := h.exists_eq
  have hpartner : Machine.partner? { m with tape := t, output := a } i = m.partner? i := rfl
  rw [Machine.enter, Machine.enter, show Tape.read _ = _ from ht.read_eq, hpartner]
  split
  · cases m.partner? i with
    | some partner => exact .moved ⟨ht, ha, rfl⟩
    | none => exact .stopped ⟨ht, ha, rfl⟩
  · exact .moved ⟨ht, ha, rfl⟩

theorem repeatOrLeave (h : m.Displaced d o o' m') (i : Instruction) :
    Outcome.Displaced d o o' (m.repeatOrLeave i) (m'.repeatOrLeave i) := by
  obtain ⟨t, a, rfl, ht, ha⟩ := h.exists_eq
  have hpartner : Machine.partner? { m with tape := t, output := a } i = m.partner? i := rfl
  rw [Machine.repeatOrLeave, Machine.repeatOrLeave, show Tape.read _ = _ from ht.read_eq, hpartner]
  split
  · exact .moved ⟨ht, ha, rfl⟩
  · dsimp only
    cases hresume : m.resume with
    | cons body outer => exact .moved ⟨ht, ha, by rw [hresume]⟩
    | nil =>
      cases m.partner? i with
      | some partner => exact .moved ⟨ht, ha, by rw [hresume]⟩
      | none => exact .stopped ⟨ht, ha, by rw [hresume]⟩

/-- **An instruction does the same to machines on displaced tapes**, unless it moves a pointer off
its tape. -/
theorem apply (h : m.Displaced d o o' m') {i : Instruction} (hon : ¬ (m.apply i).LeavesTape)
    (hon' : ¬ (m'.apply i).LeavesTape) : Outcome.Displaced d o o' (m.apply i) (m'.apply i) := by
  rw [Machine.apply] at hon hon' ⊢
  rw [Machine.apply]
  cases hop : i.op with
  | moveRight =>
    rw [hop] at hon hon'
    exact h.move 1 i.index hon hon'
  | moveLeft =>
    rw [hop] at hon hon'
    exact h.move (-1) i.index hon hon'
  | increment => exact h.change (· + 1) i.index
  | decrement => exact h.change (· - 1) i.index
  | output => exact h.emit i.index
  | input => exact h.take i.index
  | openLoop => exact h.enter i
  | closeLoop => exact h.repeatOrLeave i

theorem count (h : m.Displaced d o o' m') : m.count.Displaced d o o' m'.count := by
  obtain ⟨t, a, rfl, ht, ha⟩ := h.exists_eq
  exact ⟨ht, ha, rfl⟩

theorem flush (h : m.Displaced d o o' m') : m.flush.Displaced d o o' m'.flush := by
  obtain ⟨t, a, rfl, ht, ha⟩ := h.exists_eq
  exact ⟨ht, ha.flush, rfl⟩

/-- Machines on displaced tapes with the same supply begin every program so. -/
theorem prepare (htape : m.tape.Displaced d m'.tape) (hsupply : m'.supply = m.supply)
    (p : Program) : (m.prepare p).Displaced d m.output m'.output (m'.prepare p) := by
  obtain ⟨hqueue, hinput⟩ := Supply.mk.inj hsupply
  refine ⟨htape, ⟨[], (List.append_nil _).symm, (List.append_nil _).symm⟩, ?_⟩
  rw [Machine.prepare, hqueue, hinput]
  rfl

end Machine.Displaced

/-! ## Runs -/

namespace Run

/-- The run has failed because a pointer was to leave the tape. -/
def LeavesTape (r : Run) : Prop :=
  ∃ position pointer capacity, r.phase = .failed (.outsideTape position pointer capacity)

theorem LeavesTape.ended {r : Run} (h : r.LeavesTape) : r.isRunning = false := by
  obtain ⟨position, pointer, capacity, hphase⟩ := h
  rw [isRunning, hphase]

theorem not_leavesTape_of_finished {r : Run} (h : r.phase = .finished) : ¬ r.LeavesTape := by
  rintro ⟨position, pointer, capacity, hfailed⟩
  exact Phase.noConfusion (h.symm.trans hfailed)

/-- A run that has not left the tape had not left it before. -/
theorem not_leavesTape_of_advance {p : Program} {traced : Bool} {r : Run}
    (h : ¬ (advance p traced r).LeavesTape) : ¬ r.LeavesTape := by
  intro hleaves
  rw [advance_of_ended p traced hleaves.ended] at h
  exact h hleaves

/-- The run goes on with an instruction that leaves the tape only if it has then left it. -/
theorem leavesTape_ofOutcome {position : Int} {noted : Trace} {outcome : Outcome}
    (h : outcome.LeavesTape) : (ofOutcome position noted outcome).LeavesTape := by
  obtain ⟨place, pointer, capacity, m, rfl⟩ := h
  exact ⟨place, pointer, capacity, rfl⟩

/-- The runs are at the same place, on displaced machines. -/
structure Displaced (d : Int) (o o' : Output) (r r' : Run) : Prop where
  phase : r'.phase = r.phase
  position : r'.position = r.position
  machine : r.machine.Displaced d o o' r'.machine

section Displaced

variable {d : Int} {o o' : Output} {p : Program} {traced traced' : Bool} {r r' : Run}

theorem Displaced.ofOutcome {outcome outcome' : Outcome} (h : outcome.Displaced d o o' outcome')
    (position : Int) (noted noted' : Trace) :
    (Run.ofOutcome position noted outcome).Displaced d o o'
      (Run.ofOutcome position noted' outcome') := by
  cases h with
  | moved hm => exact ⟨rfl, rfl, hm.count⟩
  | stopped hm => exact ⟨rfl, rfl, hm⟩

/-- **An advance keeps runs displaced**, as long as no pointer leaves its tape. -/
theorem Displaced.advance (h : r.Displaced d o o' r') (hon : ¬ (advance p traced r).LeavesTape)
    (hon' : ¬ (Run.advance p traced' r').LeavesTape) :
    (Run.advance p traced r).Displaced d o o' (Run.advance p traced' r') := by
  obtain ⟨phase, position, m, trace⟩ := r
  obtain ⟨phase', position', m', trace'⟩ := r'
  obtain ⟨hphase, hposition, hm⟩ := h
  change phase' = phase at hphase
  change position' = position at hposition
  subst hphase hposition
  cases phase' with
  | finished | failed fault => exact ⟨rfl, rfl, hm⟩
  | running =>
    rw [Run.advance] at hon hon' ⊢
    rw [Run.advance]
    by_cases hlt : position' < p.size
    · rw [if_pos hlt] at hon hon' ⊢
      rw [if_pos hlt]
      cases hi : p.get? position' with
      | none => exact ⟨rfl, rfl, hm⟩
      | some i =>
        rw [hi] at hon hon'
        exact .ofOutcome (hm.apply (hon ∘ leavesTape_ofOutcome) (hon' ∘ leavesTape_ofOutcome)) _ _ _
    · rw [if_neg hlt, if_neg hlt]
      exact ⟨rfl, rfl, hm.flush⟩

/-- **Runs stay displaced** as long as no pointer leaves its tape. -/
theorem Displaced.advanceFor (n : Nat) (h : r.Displaced d o o' r')
    (hon : ¬ (advanceFor p traced n r).LeavesTape)
    (hon' : ¬ (Run.advanceFor p traced' n r').LeavesTape) :
    (Run.advanceFor p traced n r).Displaced d o o' (Run.advanceFor p traced' n r') := by
  induction n with
  | zero => exact h
  | succ n ih =>
    rw [advanceFor_succ_last] at hon hon' ⊢
    rw [advanceFor_succ_last]
    exact (ih (not_leavesTape_of_advance hon) (not_leavesTape_of_advance hon')).advance hon hon'

end Displaced

end Run

/-- What two runs on displaced tapes have in common. -/
structure SameButPlace (d : Int) (m m' : Machine) (r r' : Run) : Prop where
  /-- Both go on, both have finished, or both have failed for the same reason. -/
  phase : r'.phase = r.phase
  /-- As many instructions have been executed. -/
  steps : r'.machine.steps = r.machine.steps
  /-- The same bytes have been written. -/
  written : ∃ written, r.machine.output.contents = m.output.contents ++ written ∧
    r'.machine.output.contents = m'.output.contents ++ written
  /-- The same bytes wait, and the same input is left. -/
  supply : r'.machine.supply = r.machine.supply
  /-- The tapes are still displaced. -/
  tape : r.machine.tape.Displaced d r'.machine.tape

/-- **A run is the same anywhere on the tape.** Let two machines have the same bytes to read, and
let the tape of the second be that of the first moved by `d` places, as far as both tapes reach;
nothing else about the machines matters. Then the runs of a program are the same after any number of
instructions for which neither has left its tape: one has come to an end exactly if the other has,
in the same way and after as many steps, the same bytes have been delivered and written, the same
input is left, and the tapes are still `d` places apart. -/
theorem run_displaced {d : Int} {m m' : Machine} (htape : m.tape.Displaced d m'.tape)
    (hsupply : m'.supply = m.supply) (p : Program) (fuel : Nat) (traced traced' : Bool)
    (trace trace' : Trace) (hon : ¬ (m.run p fuel traced trace).LeavesTape)
    (hon' : ¬ (m'.run p fuel traced' trace').LeavesTape) :
    SameButPlace d m m' (m.run p fuel traced trace) (m'.run p fuel traced' trace') ∧
      (Run.start m' p trace').delivered p traced' fuel =
        (Run.start m p trace).delivered p traced fuel := by
  have hstart : (Run.start m p trace).Displaced d m.output m'.output (.start m' p trace') :=
    ⟨rfl, rfl, .prepare htape hsupply p⟩
  obtain ⟨hphase, -, hm⟩ := hstart.advanceFor fuel hon hon'
  have hleft : (m'.run p fuel traced' trace').machine.supply =
      (m.run p fuel traced trace).machine.supply := hm.supply_eq
  refine ⟨⟨hphase, hm.steps_eq, hm.output, hleft, hm.tape⟩, ?_⟩
  -- what has been delivered is what is missing from the supply
  have hbytes := Run.bytes_eq_delivered p traced fuel (.start m p trace)
  have hbytes' := Run.bytes_eq_delivered p traced' fuel (.start m' p trace')
  change m.supply.bytes = _ ++ (m.run p fuel traced trace).machine.supply.bytes at hbytes
  change m'.supply.bytes = _ ++ (m'.run p fuel traced' trace').machine.supply.bytes at hbytes'
  rw [hsupply, hbytes, hleft] at hbytes'
  exact (List.append_cancel_right hbytes').symm

/-- A program that reads and writes one byte, at the first cell and at the fourth, which has a cell
before it that is not blank. -/
theorem run_displaced_fourth :
    let m : Machine := .new (.bytes [7, 8]) (.bytes #[] 0)
    let m' : Machine :=
      { m with tape := ⟨(Tape.blank.store 9).cells, ⟨3, by decide⟩⟩, resume := [5], steps := 4 }
    ∃ p, (Program.decode (Token.ofText "+[>,.<-]")).outcome = .ok p ∧
      m.tape.Displaced 3 m'.tape ∧ m'.supply = m.supply ∧
      ¬ (m.run p 9).LeavesTape ∧ ¬ (m'.run p 9).LeavesTape ∧
      (m.run p 9).machine.output.contents = [7] ∧ (m'.run p 9).phase = .finished ∧
      SameButPlace 3 m m' (m.run p 9) (m'.run p 9) := by
  intro m m'
  have htape : m.tape.Displaced 3 m'.tape := by
    refine ⟨rfl, ?_⟩
    intro i j hij
    -- the cell that is not blank has no counterpart
    have hj : j ≠ Tape.blank.pointer := by
      rintro rfl
      change (0 : Int) = i.val + 3 at hij
      omega
    show (Tape.blank.store 9).cell j = Tape.blank.cell i
    rw [Tape.cell_store, if_neg hj]
    simp [Tape.cell, Tape.blank]
  have hdecoded : ∃ p, (Program.decode (Token.ofText "+[>,.<-]")).outcome = .ok p ∧
      (Machine.run (.new (.bytes [7, 8]) (.bytes #[] 0)) p 9).phase = .finished ∧
      (Machine.run (.new (.bytes [7, 8]) (.bytes #[] 0)) p 9).machine.output.contents = [7] ∧
      (Machine.run { Machine.new (.bytes [7, 8]) (.bytes #[] 0) with
        tape := ⟨(Tape.blank.store 9).cells, ⟨3, by decide⟩⟩
        resume := [5]
        steps := 4 } p 9).phase = .finished :=
    ⟨_, rfl, rfl, rfl, rfl⟩
  obtain ⟨p, hp, hphase, hwritten, hphase'⟩ := hdecoded
  have hon : ¬ (m.run p 9).LeavesTape := Run.not_leavesTape_of_finished hphase
  have hon' : ¬ (m'.run p 9).LeavesTape := Run.not_leavesTape_of_finished hphase'
  obtain ⟨hsame, -⟩ := run_displaced htape rfl p 9 false false #[] #[] hon hon'
  exact ⟨p, hp, htape, rfl, hon, hon', hwritten, hphase', hsame⟩

end TapeLanguage
