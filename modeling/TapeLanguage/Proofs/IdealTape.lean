import Mathlib.Data.List.Intervals
import TapeLanguage.Machine.Session
import TapeLanguage.Proofs.Footprint

/-!
# The ideal tape

An ideal tape has an integer at every integer position and a pointer to one of them. It is told the
same commands as a tape (`IdealTape.after`), but no number on it is bounded: what is written is kept
as it is and counted on from there, and only the pointer stays where a tape has cells. What a
command should answer is said for the ideal tape (`IdealTape.Answers`).

A tape agrees with the ideal one if the pointers are the same and each cell holds the number at its
position modulo 256. Then the extent and the slices of the tape can be told from the ideal one
(`IdealTape.Agrees.extent_eq_iff`, `IdealTape.Agrees.slice_eq`). Every command answers as it should
and keeps the tapes agreeing (`IdealTape.Agrees.perform`), so after any commands a tape that was
blank agrees with the ideal one (`tape_is_ideal`).
-/

set_option autoImplicit false

namespace TapeLanguage

/-- A tape after some commands. -/
def Tape.performAll (t : Tape) (history : List TapeCommand) : Tape :=
  history.foldl (fun t c => (c.perform t).2) t

/-- **A tape cut at any place is put together again.** -/
theorem Tape.slice_append_slice (t : Tape) (k : Int) :
    t.slice (some 0) (some k) ++ t.slice (some k) none = t.cells.toArray.toList := by
  have hzero : sliceBound 0 = 0 := rfl
  have hle : sliceBound k ≤ capacity := Nat.min_le_right _ _
  simp only [slice, Option.map_some, Option.map_none, Option.getD_some, Option.getD_none, hzero]
  rw [← Array.toList_append, Array.extract_append_extract, Nat.zero_min, Nat.max_eq_right hle,
    Array.extract_eq_self_of_le (Nat.le_of_eq t.cells.size_toArray)]

/-- A command that fails leaves the tape as it was. -/
theorem TapeCommand.perform_error {t : Tape} {c : TapeCommand} {fault : Fault}
    (h : (c.perform t).1 = .error fault) : (c.perform t).2 = t := by
  cases c with
  | move delta position =>
    rw [perform] at h ⊢
    cases hmove : t.move? delta with
    | some next =>
      rw [hmove] at h
      cases h
    | none => rfl
  | write | increment | decrement | reset => cases h
  | read | extent | capacity | slice => rfl

/-- A pointer, and a number at every position. -/
structure IdealTape where
  /-- The position that is read and written. -/
  pointer : Int
  /-- The number at a position. -/
  number : Int → Int

namespace IdealTape

/-- The pointer at position zero, and zero everywhere. -/
def blank : IdealTape :=
  ⟨0, fun _ => 0⟩

/-- The number under the pointer. -/
def read (s : IdealTape) : Int :=
  s.number s.pointer

/-- Put a number under the pointer. -/
def put (s : IdealTape) (n : Int) : IdealTape :=
  { s with number := fun i => if i = s.pointer then n else s.number i }

theorem number_put (s : IdealTape) (n i : Int) :
    (s.put n).number i = if i = s.pointer then n else s.number i := rfl

/-- The ideal tape after a command. -/
def after (s : IdealTape) : TapeCommand → IdealTape
  | .move delta _ =>
    if 0 ≤ s.pointer + delta ∧ s.pointer + delta < capacity then
      { s with pointer := s.pointer + delta }
    else s
  | .write n => s.put n
  | .increment => s.put (s.read + 1)
  | .decrement => s.put (s.read - 1)
  | .reset => blank
  | .read | .extent | .capacity | .slice _ _ => s

/-- The ideal tape after some commands. -/
def afterAll (s : IdealTape) (history : List TapeCommand) : IdealTape :=
  history.foldl after s

/-! ## Views -/

/-- From a position on there are only multiples of 256, and there is none just before it, unless it
is the first position. -/
def HasExtent (s : IdealTape) (u : Nat) : Prop :=
  (∀ i : Int, u ≤ i → s.number i % 256 = 0) ∧ (u = 0 ∨ s.number (u - 1) % 256 ≠ 0)

/-- A bound of a slice as a position: a negative one counts from the end of the tape. -/
def bound (k : Int) : Int :=
  if k < 0 then k + capacity else k

/-- The numbers at the cells of a tape from one position up to and without another, as bytes. -/
def row (s : IdealTape) (first last : Int) : List UInt8 :=
  ((List.range capacity).filter fun i : Nat => first ≤ i ∧ i < last).map
    fun i : Nat => UInt8.ofInt (s.number i)

/-- The numbers from one bound up to and without another, among the first ones. -/
theorem extract_range (first last : Int) (n : Nat) :
    (List.range n).extract (min first.toNat n) (min last.toNat n) =
      (List.range n).filter fun i : Nat => first ≤ i ∧ i < last := by
  have hbounds : ∀ i : Nat, decide (first ≤ i ∧ i < last) =
      (decide (first.toNat ≤ i) && decide (i < last.toNat)) := by
    intro i
    rw [← Bool.decide_and, decide_eq_decide]
    omega
  rw [List.extract_eq_drop_take', List.take_range, ← List.Ico.zero_bot, ← List.Ico.zero_bot]
  simp only [hbounds]
  rw [← List.filter_filter, List.Ico.filter_lt, List.Ico.filter_le, List.Ico, List.Ico,
    List.drop_range']
  by_cases hfirst : first.toNat ≤ n
  · congr 1 <;> omega
  · -- there is no number from the first bound on
    have hleft : min (min last.toNat n) n - 0 - min first.toNat n = 0 := by omega
    have hright : min n last.toNat - max 0 first.toNat = 0 := by omega
    rw [hleft, hright, List.range'_zero, List.range'_zero]

/-- What a command should answer. -/
def Answers (s : IdealTape) : TapeCommand → Except Fault Answer → Prop
  | .move delta position, result =>
    result = if 0 ≤ s.pointer + delta ∧ s.pointer + delta < capacity then
        .ok (.number (s.pointer + delta))
      else .error (.outsideTape position (s.pointer + delta) capacity)
  | .write _, result | .increment, result | .decrement, result | .reset, result =>
    result = .ok .nothing
  | .read, result => result = .ok (.number (s.read % 256))
  | .extent, result => ∃ u : Nat, result = .ok (.number u) ∧ s.HasExtent u
  | .capacity, result => result = .ok (.number capacity)
  | .slice start stop, result =>
    result = .ok (.cells (s.row (start.elim 0 bound) (stop.elim capacity bound)))

/-- The tape has the pointer of the ideal one, and in its cells the numbers modulo 256. Where there
is no cell, there is zero. -/
structure Agrees (s : IdealTape) (t : Tape) : Prop where
  pointer : (t.pointer.val : Int) = s.pointer
  cell : ∀ c : Fin capacity, ((t.cell c).toNat : Int) = s.number c.val % 256
  outside : ∀ i, ¬ (0 ≤ i ∧ i < (capacity : Int)) → s.number i = 0

namespace Agrees

variable {s : IdealTape} {t : Tape}

theorem blank : IdealTape.blank.Agrees Tape.blank := by
  refine ⟨rfl, ?_, fun i _ => rfl⟩
  intro c
  rw [Tape.cell_blank]
  rfl

theorem read (h : s.Agrees t) : (t.read.toNat : Int) = s.read % 256 := by
  rw [Tape.read_eq_cell, h.cell, h.pointer, IdealTape.read]

/-- **The same number can be stored**, once it is reduced modulo 256. -/
theorem store (h : s.Agrees t) {value : UInt8} {n : Int} (hvalue : (value.toNat : Int) = n % 256) :
    (s.put n).Agrees (t.store value) := by
  refine ⟨h.pointer, ?_, ?_⟩
  · intro c
    -- the cell under the pointer is the one at its position
    have hunder : ((c.val : Int) = s.pointer) ↔ c = t.pointer := by
      rw [← h.pointer, Fin.ext_iff, Int.ofNat_inj]
    rw [Tape.cell_store, number_put]
    by_cases hc : c = t.pointer
    · rw [if_pos hc, if_pos (hunder.2 hc), hvalue]
    · rw [if_neg hc, if_neg (mt hunder.1 hc), h.cell]
  · intro i hi
    have hpointer : i ≠ s.pointer := by
      rintro rfl
      have := t.pointer.isLt
      have := h.pointer
      omega
    rw [number_put, if_neg hpointer]
    exact h.outside i hi

/-- A move leads to the same position on both tapes, or it is refused on both. -/
theorem move (h : s.Agrees t) (delta position : Int) :
    s.Answers (.move delta position) (TapeCommand.perform t (.move delta position)).1 ∧
      (s.after (.move delta position)).Agrees (TapeCommand.perform t (.move delta position)).2 := by
  have htarget : t.target delta = s.pointer + delta := by rw [Tape.target, h.pointer]
  rw [TapeCommand.perform, Answers, IdealTape.after, ← htarget]
  by_cases hinside : 0 ≤ t.target delta ∧ t.target delta < capacity
  · obtain ⟨pointer, hpointer⟩ : ∃ pointer : Fin capacity, t.target delta = pointer.val :=
      ⟨⟨(t.target delta).toNat, by omega⟩, (Int.toNat_of_nonneg hinside.1).symm⟩
    rw [Tape.move?_of_target hpointer, if_pos hinside, if_pos hinside, hpointer]
    exact ⟨rfl, rfl, h.cell, h.outside⟩
  · rw [Tape.move?_of_outside hinside, if_neg hinside, if_neg hinside]
    exact ⟨rfl, h⟩

/-- The extent is at most a position if there are only multiples of 256 from there on. -/
theorem extent_le_iff (h : s.Agrees t) (u : Nat) :
    t.extent ≤ u ↔ ∀ i : Int, u ≤ i → s.number i % 256 = 0 := by
  rw [t.extent_le_iff]
  constructor
  · intro hcells i hi
    by_cases hlt : i < capacity
    · have hcell := h.cell ⟨i.toNat, by omega⟩
      rw [hcells ⟨i.toNat, by omega⟩ (by simp; omega), UInt8.toNat_zero,
        Int.toNat_of_nonneg (by omega)] at hcell
      exact hcell.symm
    · rw [h.outside i (by omega)]
      rfl
  · intro hnumbers c hc
    have hcell := h.cell c
    rw [hnumbers c.val (by omega)] at hcell
    exact UInt8.toNat_inj.1 (Int.ofNat_inj.1 hcell)

/-- **The extent of the tape is the extent of the ideal one**, which has no other. -/
theorem extent_eq_iff (h : s.Agrees t) (u : Nat) : t.extent = u ↔ s.HasExtent u := by
  rw [HasExtent, ← h.extent_le_iff]
  cases u with
  | zero => simp
  | succ u =>
    -- it is one less exactly if there is a multiple of 256 at the position before
    have hless : t.extent ≤ u + 1 → (t.extent ≤ u ↔ s.number u % 256 = 0) := by
      intro hle
      rw [h.extent_le_iff] at hle ⊢
      refine ⟨fun hall => hall u (Int.le_refl _), ?_⟩
      intro hzero i hi
      rcases Int.le_iff_eq_or_lt.1 hi with rfl | hlt
      · exact hzero
      · exact hle i (by omega)
    have hposition : ((u + 1 : Nat) : Int) - 1 = u := by omega
    rw [hposition]
    constructor
    · intro hextent
      have hle : t.extent ≤ u + 1 := Nat.le_of_eq hextent
      exact ⟨hle, Or.inr ((hless hle).not.1 (by omega))⟩
    · rintro ⟨hle, hzero | hnonzero⟩
      · exact absurd hzero (Nat.succ_ne_zero u)
      · have hnot := (hless hle).not.2 hnonzero
        omega

/-- The cells of the tape in order. -/
theorem toList_cells (h : s.Agrees t) :
    t.cells.toArray.toList = (List.range capacity).map fun i : Nat => UInt8.ofInt (s.number i) := by
  apply List.ext_getElem
  · simp
  · intro i hi hi'
    have hlt : i < capacity := by simpa using hi'
    rw [List.getElem_map, List.getElem_range]
    show t.cell ⟨i, hlt⟩ = _
    apply UInt8.toNat_inj.1
    apply Int.ofNat_inj.1
    rw [h.cell, Tape.toNat_ofInt]

/-- **A slice shows the cells from one bound up to and without the other**, as far as there are
such cells. -/
theorem slice_eq (h : s.Agrees t) (start stop : Option Int) :
    t.slice start stop = s.row (start.elim 0 bound) (stop.elim capacity bound) := by
  -- the bounds of the slice are the ends of the tape nearest to those of the row
  have hstart : (start.map Tape.sliceBound).getD 0 = min (start.elim 0 bound).toNat capacity := by
    cases start <;> rfl
  have hstop : (stop.map Tape.sliceBound).getD capacity =
      min (stop.elim (capacity : Int) bound).toNat capacity := by
    cases stop <;> rfl
  rw [Tape.slice, hstart, hstop, Array.toList_extract, h.toList_cells, row, ← extract_range,
    List.extract_eq_drop_take', List.extract_eq_drop_take', List.map_drop, List.map_take]

/-- **Every command answers as it should, and the tapes go on to agree.** -/
theorem perform (h : s.Agrees t) (c : TapeCommand) :
    s.Answers c (c.perform t).1 ∧ (s.after c).Agrees (c.perform t).2 := by
  cases c with
  | move delta position => exact h.move delta position
  | write n => exact ⟨rfl, h.store (Tape.toNat_ofInt n)⟩
  | increment =>
    refine ⟨rfl, h.store ?_⟩
    have hread := h.read
    rw [UInt8.toNat_add, UInt8.toNat_one]
    omega
  | decrement =>
    refine ⟨rfl, h.store ?_⟩
    have hread := h.read
    rw [UInt8.toNat_sub, UInt8.toNat_one]
    omega
  | read =>
    refine ⟨?_, h⟩
    rw [TapeCommand.perform, Answers, h.read]
  | extent => exact ⟨⟨t.extent, rfl, (h.extent_eq_iff _).1 rfl⟩, h⟩
  | capacity => exact ⟨rfl, h⟩
  | reset => exact ⟨rfl, .blank⟩
  | slice start stop =>
    refine ⟨?_, h⟩
    rw [TapeCommand.perform, Answers, h.slice_eq]

/-- **Commands keep the tapes agreeing.** -/
theorem performAll (h : s.Agrees t) (history : List TapeCommand) :
    (s.afterAll history).Agrees (t.performAll history) := by
  induction history generalizing s t with
  | nil => exact h
  | cons c history ih => exact ih (h.perform c).2

end Agrees

end IdealTape

/-- **The tape is the ideal tape.** After any commands, refused moves among them, a tape that was
blank agrees with the ideal one, whose pointer is on the tape. Every next command answers as the
ideal tape says, and one that fails leaves the tape as it was. The extent is the only position from
which on there are multiples of 256 everywhere, while there is none just before it, unless it is the
first one. A tape cut at any place, counted from the end or outside of it too, is put together again
to all of its cells. -/
theorem tape_is_ideal (history : List TapeCommand) :
    let s := IdealTape.blank.afterAll history
    let t := Tape.blank.performAll history
    s.Agrees t ∧ 0 ≤ s.pointer ∧ s.pointer < 65536 ∧
      (∀ c, s.Answers c (c.perform t).1 ∧ ∀ fault, (c.perform t).1 = .error fault →
        (c.perform t).2 = t) ∧
      (∀ u : Nat, t.extent = u ↔ s.HasExtent u) ∧
      ∀ k, t.slice (some 0) (some k) ++ t.slice (some k) none =
        (List.range 65536).map fun i : Nat => UInt8.ofInt (s.number i) := by
  intro s t
  have hagrees : s.Agrees t := IdealTape.Agrees.blank.performAll history
  have hlt := t.pointer.isLt
  have hpointer := hagrees.pointer
  refine ⟨hagrees, by omega, ?_, ?_, hagrees.extent_eq_iff, ?_⟩
  · change t.pointer.val < 65536 at hlt
    omega
  · intro c
    refine ⟨(hagrees.perform c).1, ?_⟩
    exact fun fault => TapeCommand.perform_error
  · intro k
    exact (Tape.slice_append_slice t k).trans hagrees.toList_cells

/-- A number that is counted on from 300, and a move that leads behind the last cell. -/
theorem tape_is_ideal_refusing :
    let t := Tape.blank.performAll
      [.write (-1), .move 3 0, .write 300, .move (-4) 1, .increment]
    (TapeCommand.perform t .read).1 = .ok (.number 45) ∧
      (TapeCommand.perform t (.move 65533 2)).1 = .error (.outsideTape 2 65536 65536) ∧
      (TapeCommand.perform t (.move 65533 2)).2 = t ∧ t.extent = 4 := by
  intro t
  obtain ⟨-, -, -, hcommands, hextent, -⟩ := tape_is_ideal
    [.write (-1), .move 3 0, .write 300, .move (-4) 1, .increment]
  obtain ⟨hrefused, hsame⟩ := hcommands (.move 65533 2)
  have hfault : (TapeCommand.perform t (.move 65533 2)).1 = .error (.outsideTape 2 65536 65536) :=
    hrefused.trans rfl
  refine ⟨(hcommands .read).1.trans rfl, hfault, hsame _ hfault, (hextent 4).2 ⟨?_, ?_⟩⟩
  · intro i hi
    have hthird : i ≠ 3 := by omega
    have hfirst : i ≠ 0 := by omega
    simp [IdealTape.afterAll, IdealTape.after, IdealTape.put, IdealTape.blank, capacity, hthird,
      hfirst]
  · exact Or.inr (by decide)

end TapeLanguage
