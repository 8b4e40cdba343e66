/-!
# The tape

A tape is a row of `capacity` byte cells and a pointer to one of them. The pointer never leaves the
tape: a move whose target lies outside is refused (`move?`). Cells wrap modulo 256. Reading a cell
after an operation is described by one lemma for each operation.
-/

set_option autoImplicit false

namespace TapeLanguage

/-- The number of cells. -/
def capacity : Nat := 65536

/-- A row of cells and a pointer to one of them. -/
structure Tape where
  /-- The cells. -/
  cells : Vector UInt8 capacity
  /-- The cell that is read and written. -/
  pointer : Fin capacity

namespace Tape

/-- The tape with all cells zero and the pointer at the first cell. -/
def blank : Tape :=
  ⟨Vector.replicate capacity 0, ⟨0, by decide⟩⟩

/-- The cell under the pointer. -/
def read (t : Tape) : UInt8 :=
  t.cells[t.pointer]

/-- Store a byte under the pointer. -/
def store (t : Tape) (value : UInt8) : Tape :=
  match t with
  | ⟨cells, pointer⟩ => ⟨cells.set pointer value, pointer⟩

/-- Store a number modulo 256 under the pointer. -/
def write (t : Tape) (value : Int) : Tape :=
  t.store (UInt8.ofInt value)

/-- A number is kept modulo 256. -/
theorem toNat_ofInt (value : Int) : ((UInt8.ofInt value).toNat : Int) = value % 256 := by
  rw [UInt8.ofInt, UInt8.toNat_ofNat']
  omega

/-- Change the cell under the pointer. -/
def change (f : UInt8 → UInt8) (t : Tape) : Tape :=
  let value := f t.read
  t.store value

/-- Add one to the cell, modulo 256. -/
def increment (t : Tape) : Tape :=
  t.change (· + 1)

/-- Take one from the cell, modulo 256. -/
def decrement (t : Tape) : Tape :=
  t.change (· - 1)

/-- The position that a move would lead to. -/
def target (t : Tape) (delta : Int) : Int :=
  (t.pointer.val : Int) + delta

/-- Move the pointer, if the target lies on the tape. -/
def move? (t : Tape) (delta : Int) : Option Tape :=
  let position := t.target delta
  if h : 0 ≤ position ∧ position < (capacity : Int) then
    some { t with pointer := ⟨position.toNat, by omega⟩ }
  else none

/-- A move whose target is a cell leads there and changes no cell. -/
theorem move?_of_target {t : Tape} {delta : Int} {pointer : Fin capacity}
    (h : t.target delta = pointer.val) : t.move? delta = some ⟨t.cells, pointer⟩ := by
  have hinside : 0 ≤ t.target delta ∧ t.target delta < (capacity : Int) := by
    have := pointer.isLt
    omega
  rw [move?, dif_pos hinside]
  congr 3
  rw [h, Int.toNat_natCast]

/-- A move whose target is no cell is refused. -/
theorem move?_of_outside {t : Tape} {delta : Int}
    (h : ¬ (0 ≤ t.target delta ∧ t.target delta < (capacity : Int))) : t.move? delta = none :=
  dif_neg h

/-! ## Views -/

/-- The number of cells up to and with the last nonzero one among the first `n`. -/
def extentBelow (cells : Vector UInt8 capacity) : (n : Nat) → n ≤ capacity → Nat
  | 0, _ => 0
  | n + 1, h => if cells[n] = 0 then extentBelow cells n (by omega) else n + 1

/-- One past the last nonzero cell; zero for a blank tape. -/
def extent (t : Tape) : Nat :=
  extentBelow t.cells capacity (Nat.le_refl _)

/-- A bound of a slice: a negative one counts from the end, and it is moved to the nearest end of
the tape if it lies outside. -/
def sliceBound (position : Int) : Nat :=
  let fromStart := if position < 0 then position + capacity else position
  min fromStart.toNat capacity

/-- The cells from one bound up to and without the other; a missing bound is an end of the tape. -/
def slice (t : Tape) (start stop : Option Int) : List UInt8 :=
  let first := (start.map sliceBound).getD 0
  let last := (stop.map sliceBound).getD capacity
  (t.cells.toArray.extract first last).toList

/-! ## Reading after an operation -/

/-- The cell at an index. -/
def cell (t : Tape) (i : Fin capacity) : UInt8 :=
  t.cells[i]

theorem read_eq_cell (t : Tape) : t.read = t.cell t.pointer := rfl

@[simp] theorem pointer_store (t : Tape) (v : UInt8) : (t.store v).pointer = t.pointer := rfl

/-- Storing changes the cell under the pointer and no other. -/
theorem cell_store (t : Tape) (v : UInt8) (i : Fin capacity) :
    (t.store v).cell i = if i = t.pointer then v else t.cell i := by
  show (t.cells.set t.pointer v)[i.val] = if i = t.pointer then v else t.cells[i.val]
  rw [Vector.getElem_set]
  by_cases h : i = t.pointer
  · simp [h]
  · have h' : ¬ t.pointer.val = i.val := fun e => h (Fin.ext e.symm)
    simp [h, h']

@[simp] theorem read_store (t : Tape) (v : UInt8) : (t.store v).read = v := by
  simp [read_eq_cell, cell_store]

@[simp] theorem read_blank : blank.read = 0 := by
  show (Vector.replicate capacity (0 : UInt8))[(0 : Nat)] = 0
  rw [Vector.getElem_replicate]

end Tape

end TapeLanguage
