import Mathlib.Data.Set.List
import TapeLanguage.Proofs.Completed
import TapeLanguage.Proofs.Refinement

/-!
# Strokes, and code that is all strokes

Code without loops and without input or output consists of strokes: each of them moves the pointer
or changes the cell. They are written as the texts of four symbols (`exists_text_iff`).

What some strokes do is known without executing them. They move the pointer by the sum of their
shifts (`movement`), and they change each cell by the sum of the gains that fall on it (`change`),
modulo 256. Both are additive in the strokes (`movement_append`, `change_append`). As long as the
strokes stay on the tape, a run executes them one after the other with this effect and touches
nothing else (`executes_strokes`).

Code that is all strokes runs straight through, and what becomes of it is known from counting. The
strokes move the pointer by their moves up less their moves down (`movement_eq_count`), and a cell
gains one for each increment that falls on it and loses one for each decrement
(`change_eq_struck`).

A run executes all strokes if they stay on the tape. Otherwise there is a shortest beginning of them
that leads off the tape (`exists_leaves`), and the run fails at the last stroke of it, with all
strokes before that executed (`straight_code_ends`).
-/

set_option autoImplicit false

namespace TapeLanguage

/-- An instruction that moves the pointer or changes the cell. -/
inductive Stroke where
  /-- Move the pointer one cell down. -/
  | left
  /-- Move the pointer one cell up. -/
  | right
  /-- Add one to the cell. -/
  | plus
  /-- Take one from the cell. -/
  | minus
  deriving DecidableEq, Repr

/-- The machine some instructions later, with another tape. -/
def Machine.later (m : Machine) (tape : Tape) (n : Nat) : Machine :=
  { m with tape := tape, steps := m.steps + n }

theorem Machine.later_later (m : Machine) (tape tape' : Tape) (a b : Nat) :
    (m.later tape a).later tape' b = m.later tape' (a + b) := by
  simp only [later, Nat.add_assoc]

namespace Stroke

/-- A stroke as an action. -/
def action : Stroke → Action
  | left => .moveLeft
  | right => .moveRight
  | plus => .increment
  | minus => .decrement

/-- A stroke as an instruction. -/
def op (s : Stroke) : Op :=
  s.action.op

/-- How far a stroke moves the pointer. -/
def shift : Stroke → Int
  | left => -1
  | right => 1
  | plus | minus => 0

/-- How much a stroke adds to the cell under the pointer. -/
def gain : Stroke → Int
  | plus => 1
  | minus => -1
  | left | right => 0

/-- The text of some strokes. -/
def text (w : List Stroke) : String :=
  String.ofList (w.map fun s => s.op.symbol)

/-- The strokes as code. -/
def code : List Stroke → Code
  | [] => .skip
  | s :: w => .seq (.single s.action) (code w)

@[simp] theorem ops_code (w : List Stroke) : (code w).ops = w.map op := by
  induction w with
  | nil => rfl
  | cons s w ih => simp [code, Code.ops, ih, op]

theorem text_code (w : List Stroke) : (code w).text = text w := by
  rw [Code.text, ops_code, List.map_map]
  rfl

@[simp] theorem size_code (w : List Stroke) : (code w).size = w.length := by
  rw [← Code.length_ops, ops_code, List.length_map]

/-- Different strokes have different texts. -/
theorem text_injective {v w : List Stroke} (h : text v = text w) : v = w := by
  rw [text, text, String.ofList_inj] at h
  refine (List.map_inj_right ?_).1 h
  intro s s' hs
  have hop : s.op = s'.op := Op.symbol_injective hs
  cases s <;> cases s' <;> first | rfl | cases hop

/-- The strokes denote all texts of the four symbols. -/
theorem exists_text_iff (t : String) :
    (∃ w, text w = t) ↔ ∀ c ∈ t.toList, c ∈ ['<', '>', '+', '-'] := by
  have hsymbols : ∀ c, c ∈ ['<', '>', '+', '-'] ↔ c ∈ Set.range fun s : Stroke => s.op.symbol := by
    intro c
    simp only [List.mem_cons, List.not_mem_nil, or_false]
    constructor
    · rintro (rfl | rfl | rfl | rfl)
      · exact ⟨left, rfl⟩
      · exact ⟨right, rfl⟩
      · exact ⟨plus, rfl⟩
      · exact ⟨minus, rfl⟩
    · rintro ⟨s, rfl⟩
      cases s <;> decide
  have htext : ∀ w, text w = t ↔ (w.map fun s => s.op.symbol) = t.toList := by
    intro w
    rw [text, ← String.ofList_inj, String.ofList_toList]
  simp only [hsymbols, htext]
  exact Set.ext_iff.1 (Set.range_list_map _) t.toList

/-! ## What strokes do -/

/-- Adding nothing to a byte. -/
@[simp] theorem add_ofInt_zero (v : UInt8) : v + UInt8.ofInt 0 = v :=
  UInt8.add_zero v

/-- A byte to which a number is added, modulo 256. -/
theorem toNat_add_ofInt (v : UInt8) (k : Int) :
    ((v + UInt8.ofInt k).toNat : Int) = (v.toNat + k) % 256 := by
  have hnumber := Tape.toNat_ofInt k
  rw [UInt8.toNat_add]
  omega

/-- How far some strokes move the pointer. -/
def movement : List Stroke → Int
  | [] => 0
  | s :: w => s.shift + movement w

/-- How much some strokes add to the cell at an offset from where they begin. -/
def change : List Stroke → Int → Int
  | [], _ => 0
  | s :: w, offset => (if offset = 0 then s.gain else 0) + change w (offset - s.shift)

/-- **Strokes after strokes move the pointer on.** -/
theorem movement_append (w v : List Stroke) : movement (w ++ v) = movement w + movement v := by
  induction w with
  | nil => rw [List.nil_append, movement, Int.zero_add]
  | cons s w ih => rw [List.cons_append, movement, ih, movement, Int.add_assoc]

/-- **Strokes after strokes change the cells around the place to which these have moved.** -/
theorem change_append (w v : List Stroke) (offset : Int) :
    change (w ++ v) offset = change w offset + change v (offset - movement w) := by
  induction w generalizing offset with
  | nil => simp [change, movement]
  | cons s w ih =>
    rw [List.cons_append, change, ih, change, movement, Int.sub_sub, Int.add_assoc]

/-- Strokes that come back are repeated at the same place. -/
theorem movement_repeated {w : List Stroke} (h : movement w = 0) (n : Nat) :
    movement (List.replicate n w).flatten = 0 := by
  induction n with
  | zero => rfl
  | succ n ih => rw [List.replicate_succ, List.flatten_cons, movement_append, h, ih, Int.add_zero]

theorem change_repeated {w : List Stroke} (h : movement w = 0) (n : Nat) (offset : Int) :
    change (List.replicate n w).flatten offset = n * change w offset := by
  induction n with
  | zero => simp [change]
  | succ n ih =>
    rw [List.replicate_succ, List.flatten_cons, change_append, h, Int.sub_zero, ih,
      Int.natCast_succ, Int.add_mul, Int.one_mul, Int.add_comm]

/-- The place is a cell of the tape. -/
def OnTape (position : Int) : Prop :=
  0 ≤ position ∧ position < capacity

/-- Every place that the strokes come to is on the tape. -/
def StaysOn (position : Int) (w : List Stroke) : Prop :=
  ∀ v, v <+: w → OnTape (position + movement v)

theorem StaysOn.onTape {position : Int} {w : List Stroke} (h : StaysOn position w) :
    OnTape position := by
  simpa [movement] using h [] List.nil_prefix

@[simp] theorem staysOn_nil (position : Int) : StaysOn position [] ↔ OnTape position := by
  simp [StaysOn, movement]

@[simp] theorem staysOn_cons (position : Int) (s : Stroke) (w : List Stroke) :
    StaysOn position (s :: w) ↔ OnTape position ∧ StaysOn (position + s.shift) w := by
  constructor
  · intro h
    refine ⟨h.onTape, ?_⟩
    intro v hv
    have hplace := h (s :: v) (List.cons_prefix_cons.2 ⟨rfl, hv⟩)
    rwa [movement, ← Int.add_assoc] at hplace
  · rintro ⟨hfirst, hrest⟩ v hv
    rcases List.prefix_cons_iff.1 hv with rfl | ⟨v', rfl, hv'⟩
    · simpa [movement] using hfirst
    · rw [movement, ← Int.add_assoc]
      exact hrest v' hv'

/-- What some strokes do to a tape. -/
structure Effect (w : List Stroke) (t t' : Tape) : Prop where
  /-- The pointer has been moved. -/
  pointer : (t'.pointer.val : Int) = t.pointer.val + movement w
  /-- Each cell has been changed by the gains at its offset from the old pointer. -/
  cell : ∀ i, t'.cell i = t.cell i + UInt8.ofInt (change w (i.val - t.pointer.val))

theorem Effect.nil (t : Tape) : Effect [] t t :=
  ⟨by simp [movement], by simp [change]⟩

/-- **The effects of strokes add up.** -/
theorem Effect.trans {w v : List Stroke} {t t' t'' : Tape} (h : Effect w t t')
    (h' : Effect v t' t'') : Effect (w ++ v) t t'' := by
  constructor
  case pointer => rw [h'.pointer, h.pointer, movement_append, Int.add_assoc]
  case cell =>
    intro i
    rw [h'.cell, h.cell, h.pointer, change_append, UInt8.ofInt_add, Int.sub_sub, UInt8.add_assoc]

/-! ## Strokes on a machine -/

/-- Moving the pointer is a stroke. -/
theorem effect_of_move {s : Stroke} {t : Tape} (hgain : s.gain = 0)
    (h : OnTape (t.pointer.val + s.shift)) : ∃ t', t.move? s.shift = some t' ∧ Effect [s] t t' := by
  have hpointer : ((t.pointer.val + s.shift).toNat : Int) = t.pointer.val + s.shift :=
    Int.toNat_of_nonneg h.1
  have hlt : (t.pointer.val + s.shift).toNat < capacity := by
    have := h.2
    omega
  refine ⟨⟨t.cells, ⟨(t.pointer.val + s.shift).toNat, hlt⟩⟩, Tape.move?_of_target hpointer.symm, ?_⟩
  constructor
  case pointer => simpa [movement] using hpointer
  case cell =>
    intro i
    rw [change, change, hgain, ite_self, Int.zero_add, add_ofInt_zero]
    rfl

/-- Changing the cell is a stroke. -/
theorem effect_of_store {s : Stroke} {t : Tape} {value : UInt8} (hshift : s.shift = 0)
    (h : value = t.read + UInt8.ofInt s.gain) : Effect [s] t (t.store value) := by
  -- the pointer stays, and only the cell at offset zero gains
  constructor
  case pointer => rw [Tape.pointer_store, movement, movement, hshift, Int.add_zero, Int.add_zero]
  case cell =>
    intro i
    rw [Tape.cell_store, change, change, Int.add_zero]
    by_cases hi : i = t.pointer
    · rw [if_pos hi, hi, Int.sub_self, if_pos rfl, h, Tape.read_eq_cell]
    · -- the cell lies elsewhere
      have hoffset : (i.val : Int) - t.pointer.val ≠ 0 := by
        intro hzero
        exact hi (Fin.ext (by omega))
      rw [if_neg hi, if_neg hoffset, add_ofInt_zero]

/-- **A stroke that stays on the tape has its effect** and touches nothing else. -/
theorem apply_stroke {m : Machine} {s : Stroke} {i : Instruction} (hop : i.op = s.op)
    (h : OnTape (m.tape.pointer.val + s.shift)) :
    ∃ t, Effect [s] m.tape t ∧ m.apply i = .moved (i.index + 1) { m with tape := t } := by
  rw [Machine.apply, hop]
  cases s with
  | left =>
    obtain ⟨t, hmove, heffect⟩ := effect_of_move rfl h
    refine ⟨t, heffect, ?_⟩
    show m.move (-1) i.index = _
    rw [Machine.move, show m.tape.move? (-1) = some t from hmove]
  | right =>
    obtain ⟨t, hmove, heffect⟩ := effect_of_move rfl h
    refine ⟨t, heffect, ?_⟩
    show m.move 1 i.index = _
    rw [Machine.move, show m.tape.move? 1 = some t from hmove]
  | plus => exact ⟨m.tape.increment, effect_of_store rfl rfl, rfl⟩
  | minus =>
    refine ⟨m.tape.decrement, effect_of_store rfl ?_, rfl⟩
    exact UInt8.sub_eq_add_neg _ _

/-- **Strokes that stay on the tape are executed one after the other** with their effect, and
nothing else is touched. -/
theorem executes_strokes {p : Program} {w : List Stroke} {start : Nat} {m : Machine}
    (hp : Placed p start (code w)) (h : StaysOn m.tape.pointer.val w) :
    ∃ t, Effect w m.tape t ∧
      Executes p (w.map op) start m (start + w.length) (m.later t w.length) := by
  -- induction on the strokes, the machine changing with each of them
  induction w generalizing start m with
  | nil => exact ⟨m.tape, .nil m.tape, .nil⟩
  | cons s w ih =>
    obtain ⟨⟨i, hi, hop, hindex⟩, hrest⟩ := hp
    rw [staysOn_cons] at h
    obtain ⟨t, heffect, happly⟩ := apply_stroke hop h.2.onTape
    have hpointer : (t.pointer.val : Int) = m.tape.pointer.val + s.shift := by
      simpa [movement] using heffect.pointer
    -- the first stroke has been executed, and the others go on from there
    have hone : Executes p [s.op] start m (start + 1) (m.later t 1) := by
      rw [hindex] at happly
      change i.op = s.op at hop
      rw [← hop]
      exact .single hi happly
    obtain ⟨t', heffect', hexecutes⟩ := ih (m := m.later t 1) hrest (hpointer ▸ h.2)
    refine ⟨t', heffect.trans heffect', ?_⟩
    rw [Machine.later_later] at hexecutes
    rw [List.length_cons, Nat.add_comm w.length, ← Nat.add_assoc]
    exact hone.trans hexecutes

end Stroke

/-! ## Straight code -/

namespace Stroke

/-! ## Counting strokes -/

/-- The pointer is moved by the moves up less the moves down. -/
theorem movement_eq_count (w : List Stroke) :
    movement w = (w.count right : Int) - w.count left := by
  induction w with
  | nil => rfl
  | cons s w ih => cases s <;> simp [movement, shift, ih] <;> omega

/-- How many of some strokes are a given one and fall on the cell at an offset from where they
begin. -/
def struck (s : Stroke) (w : List Stroke) (offset : Int) : Nat :=
  (List.range w.length).countP fun k => w[k]? = some s ∧ movement (w.take k) = offset

/-- The first stroke falls on the cell at offset zero, and the others begin where it leads to. -/
theorem struck_cons (s a : Stroke) (w : List Stroke) (offset : Int) :
    struck s (a :: w) offset =
      (if a = s ∧ offset = 0 then 1 else 0) + struck s w (offset - a.shift) := by
  have hlater : ∀ k, (movement ((a :: w).take (k + 1)) = offset) =
      (movement (w.take k) = offset - a.shift) := by
    intro k
    rw [List.take_succ_cons, movement, eq_iff_iff]
    omega
  have hfirst : (movement ((a :: w).take 0) = offset) = (offset = 0) := by
    rw [List.take_zero, movement, eq_iff_iff]
    exact eq_comm
  rw [struck, List.length_cons, List.range_succ_eq_map, List.countP_cons, List.countP_map,
    Nat.add_comm]
  simp only [struck, Function.comp_def, Nat.succ_eq_add_one, hlater, hfirst,
    List.getElem?_cons_succ, List.getElem?_cons_zero, Option.some.injEq, decide_eq_true_eq]

/-- **A cell gains the increments that fall on it less the decrements.** -/
theorem change_eq_struck (w : List Stroke) (offset : Int) :
    change w offset = (struck plus w offset : Int) - struck minus w offset := by
  induction w generalizing offset with
  | nil => rfl
  | cons s w ih =>
    rw [change, ih, struck_cons, struck_cons]
    cases s <;> by_cases hoffset : offset = 0 <;> simp [gain, hoffset] <;> omega

/-! ## Leaving the tape -/

/-- Some strokes stay on the tape, and with one more they are the shortest beginning of `w` that
does not. -/
structure Leaves (position : Int) (w v : List Stroke) (s : Stroke) : Prop where
  isBeginning : v ++ [s] <+: w
  stays : StaysOn position v
  outside : ¬ OnTape (position + movement (v ++ [s]))

/-- **Strokes that do not stay on the tape have a shortest beginning that leaves it.** -/
theorem exists_leaves {position : Int} {w : List Stroke} (hposition : OnTape position)
    (h : ¬ StaysOn position w) : ∃ v s, Leaves position w v s := by
  induction w generalizing position with
  | nil => exact absurd ((staysOn_nil position).2 hposition) h
  | cons s w ih =>
    by_cases hnext : OnTape (position + s.shift)
    · -- the first stroke stays, so the others leave the tape
      have hrest : ¬ StaysOn (position + s.shift) w := fun hrest =>
        h ((staysOn_cons position s w).2 ⟨hposition, hrest⟩)
      obtain ⟨v, last, hleaves⟩ := ih hnext hrest
      refine ⟨s :: v, last, List.cons_prefix_cons.2 ⟨rfl, hleaves.isBeginning⟩, ?_, ?_⟩
      · exact (staysOn_cons position s v).2 ⟨hposition, hleaves.stays⟩
      · rw [List.cons_append, movement, ← Int.add_assoc]
        exact hleaves.outside
    · refine ⟨[], s, List.cons_prefix_cons.2 ⟨rfl, List.nil_prefix⟩, ?_, ?_⟩
      · exact (staysOn_nil position).2 hposition
      · simpa [movement] using hnext

/-- A stroke that leads off the tape fails and leaves the machine as it was. -/
theorem apply_stroke_outside {m : Machine} {s : Stroke} {i : Instruction} (hop : i.op = s.op)
    (h : ¬ OnTape (m.tape.pointer.val + s.shift)) :
    m.apply i = .stopped (.outsideTape i.index (m.tape.pointer.val + s.shift) capacity) m := by
  rw [Machine.apply, hop]
  have hmove : m.tape.move? s.shift = none := Tape.move?_of_outside h
  cases s with
  | left =>
    show m.move (-1) i.index = _
    rw [Machine.move, show m.tape.move? (-1) = none from hmove]
    rfl
  | right =>
    show m.move 1 i.index = _
    rw [Machine.move, show m.tape.move? 1 = none from hmove]
    rfl
  | plus | minus =>
    -- the pointer stays where it is
    exact absurd ⟨by simp [shift], by simp [shift, m.tape.pointer.isLt]⟩ h

/-- Strokes stand in a row. -/
theorem placed_code_append {p : Program} {start : Nat} {v w : List Stroke} :
    Placed p start (code (v ++ w)) ↔
      Placed p start (code v) ∧ Placed p (start + v.length) (code w) := by
  induction v generalizing start with
  | nil => simp [code, Placed]
  | cons s v ih =>
    simp only [List.cons_append, code, Placed, Code.size, ih, List.length_cons, and_assoc,
      Nat.add_assoc, Nat.add_comm 1]

end Stroke

/-! ## Runs -/

/-- Some strokes have been executed, and nothing else has been done to the machine. -/
structure HasStruck (w : List Stroke) (m m' : Machine) : Prop where
  /-- The strokes have been counted. -/
  steps : m'.steps = w.length
  /-- The pointer has been moved. -/
  pointer : (m'.tape.pointer.val : Int) = m.tape.pointer.val + w.count .right - w.count .left
  /-- Each cell has been changed by the strokes that fell on it, modulo 256. -/
  cell : ∀ c : Fin capacity, ((m'.tape.cell c).toNat : Int) =
    ((m.tape.cell c).toNat + Stroke.struck .plus w (c.val - m.tape.pointer.val) -
      Stroke.struck .minus w (c.val - m.tape.pointer.val)) % 256
  /-- Nothing has been read. -/
  supply : m'.supply = m.supply
  /-- Nothing has been written. -/
  written : m'.output.contents = m.output.contents

namespace HasStruck

open Stroke

variable {w : List Stroke} {m m' : Machine}

/-- The count begins anew with each run. -/
theorem of_effect {t : Tape} (h : Effect w m.tape t) (p : Program) :
    HasStruck w m ((m.prepare p).later t w.length) := by
  constructor
  case steps => exact Nat.zero_add _
  case pointer =>
    show (t.pointer.val : Int) = _
    rw [h.pointer, movement_eq_count, ← Int.add_sub_assoc]
  case cell =>
    intro c
    show ((t.cell c).toNat : Int) = _
    rw [h.cell, toNat_add_ofInt, change_eq_struck, Int.add_sub_assoc]
  case supply => rfl
  case written => rfl

theorem flush (h : HasStruck w m m') : HasStruck w m m'.flush :=
  { h with written := (Output.contents_flush _).trans h.written }

end HasStruck

section Runs

open Stroke

variable {p : Program} {w v : List Stroke} {s : Stroke} {m : Machine}

/-- A run of strokes that stay on the tape finishes. -/
theorem run_of_staysOn (hp : Placed p 0 (code w)) (hsize : (code w).size = p.size)
    (h : StaysOn m.tape.pointer.val w) {fuel : Nat} (hfuel : w.length < fuel) (traced : Bool)
    (trace : Trace) :
    (m.run p fuel traced trace).phase = .finished ∧
      HasStruck w m (m.run p fuel traced trace).machine := by
  obtain ⟨t, heffect, hexecutes⟩ := executes_strokes (m := m.prepare p) hp h
  rw [Nat.zero_add, ← size_code, hsize] at hexecutes
  obtain ⟨hphase, hmachine, -⟩ :=
    hexecutes.finishes (by rwa [List.length_map]) traced trace
  rw [hmachine, ← hsize, size_code]
  exact ⟨hphase, (HasStruck.of_effect (m := m) heffect p).flush⟩

/-- **A run of strokes that leave the tape fails** at the first one that leads off it. -/
theorem run_of_leaves (hp : Placed p 0 (code w)) (h : Leaves m.tape.pointer.val w v s) {fuel : Nat}
    (hfuel : v.length < fuel) (traced : Bool) (trace : Trace) :
    (m.run p fuel traced trace).phase = .failed (.outsideTape v.length
        (m.tape.pointer.val + movement (v ++ [s])) capacity) ∧
      HasStruck v m (m.run p fuel traced trace).machine := by
  obtain ⟨rest, rfl⟩ := h.isBeginning
  obtain ⟨hv, ⟨i, hi, hop, hindex⟩, -⟩ := placed_code_append.1 (placed_code_append.1 hp).1
  obtain ⟨t, heffect, hexecutes⟩ := executes_strokes (m := m.prepare p) hv h.stays
  -- the machine has come to the place before the first one that is not on the tape
  have hpointer : (t.pointer.val : Int) + s.shift =
      m.tape.pointer.val + movement (v ++ [s]) := by
    rw [show (t.pointer.val : Int) = m.tape.pointer.val + movement v from heffect.pointer,
      movement_append, movement, movement, Int.add_zero, Int.add_assoc]
  have hstopped := apply_stroke_outside (m := (m.prepare p).later t v.length) hop
    (hpointer ▸ h.outside)
  rw [show ((m.prepare p).later t v.length).tape = t from rfl, hpointer, hindex,
    Nat.zero_add] at hstopped
  rw [Nat.zero_add] at hexecutes hi
  obtain ⟨hphase, hmachine, -⟩ :=
    hexecutes.fails hi hstopped (by rwa [List.length_map]) traced trace
  rw [hmachine]
  exact ⟨hphase, .of_effect (m := m) heffect p⟩

end Runs

/-- **Straight code ends as counting tells.** A text of the four symbols is a program, and it is the
text of some strokes. Let a machine run it from any cell. If every beginning of the strokes leads to
a cell of the tape, then the run finishes: it has counted the strokes, the pointer has been moved by
the moves up less the moves down, and each cell has gained the increments that fell on it less the
decrements, modulo 256. Otherwise the run fails at the last stroke of the shortest beginning that
leads off the tape, and it tells where that leads; the strokes before it have been executed, and
nothing has been read or written. -/
theorem straight_code_ends {t : String} (ht : ∀ c ∈ t.toList, c ∈ ['<', '>', '+', '-']) :
    ∃ p, (Program.decode (Token.ofText t)).outcome = .ok p ∧ (∃ w, Stroke.text w = t) ∧
      ∀ w, Stroke.text w = t → ∀ m : Machine,
        (Stroke.StaysOn m.tape.pointer.val w →
          ∀ (fuel : Nat) (traced : Bool) (trace : Trace), w.length < fuel →
            (m.run p fuel traced trace).phase = .finished ∧
              HasStruck w m (m.run p fuel traced trace).machine) ∧
        (¬ Stroke.StaysOn m.tape.pointer.val w →
          ∃ v s, Stroke.Leaves m.tape.pointer.val w v s ∧
            ∀ (fuel : Nat) (traced : Bool) (trace : Trace), v.length < fuel →
              (m.run p fuel traced trace).phase = .failed (.outsideTape v.length
                  (m.tape.pointer.val + Stroke.movement (v ++ [s])) capacity) ∧
                HasStruck v m (m.run p fuel traced trace).machine) := by
  obtain ⟨u, rfl⟩ := (Stroke.exists_text_iff t).2 ht
  obtain ⟨p, hdecode, hp, hsize⟩ := exists_placed (Stroke.code u)
  rw [Stroke.text_code] at hdecode
  refine ⟨p, hdecode, ⟨u, rfl⟩, ?_⟩
  intro w hw m
  obtain rfl := Stroke.text_injective hw
  constructor
  · intro hstays fuel traced trace hfuel
    exact run_of_staysOn hp hsize hstays hfuel traced trace
  · intro hleaves
    have hpointer : Stroke.OnTape m.tape.pointer.val :=
      ⟨Int.natCast_nonneg _, Int.ofNat_lt.2 m.tape.pointer.isLt⟩
    obtain ⟨v, s, h⟩ := Stroke.exists_leaves hpointer hleaves
    exact ⟨v, s, h, fun fuel traced trace hfuel => run_of_leaves hp h hfuel traced trace⟩

/-- A text that leaves the tape below the first cell, and stays on it from the second one. -/
theorem straight_code_ends_below :
    let m : Machine := .new (.bytes []) (.bytes #[] 0)
    let m' : Machine := { m with tape := ⟨m.tape.cells, ⟨1, by decide⟩⟩ }
    ∃ p, (Program.decode (Token.ofText "-><<+")).outcome = .ok p ∧
      (m.run p 9).phase = .failed (.outsideTape 3 (-1) 65536) ∧
      (∃ v s, Stroke.Leaves 0 [.minus, .right, .left, .left, .plus] v s ∧ v.length = 3 ∧
        HasStruck v m (m.run p 9).machine) ∧
      (m'.run p 9).phase = .finished ∧ (m'.run p 9).machine.steps = 5 ∧
      ((m'.run p 9).machine.tape.cell ⟨1, by decide⟩).toNat = 255 := by
  intro m m'
  have hdecoded : ∃ p, (Program.decode (Token.ofText "-><<+")).outcome = .ok p ∧
      (Machine.run (.new (.bytes []) (.bytes #[] 0)) p 9).phase =
        .failed (.outsideTape 3 (-1) 65536) := ⟨_, rfl, rfl⟩
  obtain ⟨p, hp, hfailed⟩ := hdecoded
  have hw : Stroke.text [.minus, .right, .left, .left, .plus] = "-><<+" := by decide
  obtain ⟨p', hp', -, hruns⟩ := straight_code_ends ((Stroke.exists_text_iff _).1 ⟨_, hw⟩)
  obtain rfl : p = p' := Except.ok.inj (hp.symm.trans hp')
  have hleaves : ¬ Stroke.StaysOn m.tape.pointer.val [.minus, .right, .left, .left, .plus] := by
    simp [Stroke.OnTape, Stroke.shift, capacity, m, Machine.new, Tape.blank]
  have hstays : Stroke.StaysOn m'.tape.pointer.val [.minus, .right, .left, .left, .plus] := by
    simp [Stroke.OnTape, Stroke.shift, capacity, m']
  obtain ⟨v, s, hv, hfails⟩ := (hruns _ hw m).2 hleaves
  obtain ⟨hfinished, hstruck⟩ := (hruns _ hw m').1 hstays 9 false #[] (by decide)
  have hlength : v.length < 9 := by
    have hle := hv.isBeginning.length_le
    simp only [List.length_append, List.length_cons, List.length_nil] at hle
    omega
  obtain ⟨hphase, hstruck'⟩ := hfails 9 false #[] hlength
  refine ⟨p, hp, hfailed, ⟨v, s, hv, ?_, hstruck'⟩, hfinished, hstruck.steps, ?_⟩
  · have hfault := Phase.failed.inj (hphase.symm.trans hfailed)
    have hposition := (Fault.outsideTape.inj hfault).1
    omega
  · have hcell := hstruck.cell ⟨1, by decide⟩
    have hblank : m'.tape.cell ⟨1, by decide⟩ = 0 := Vector.getElem_replicate _
    have hplus : Stroke.struck .plus [.minus, .right, .left, .left, .plus] 0 = 0 := by decide
    have hminus : Stroke.struck .minus [.minus, .right, .left, .left, .plus] 0 = 1 := by decide
    have hoffset : ((1 : Nat) : Int) - m'.tape.pointer.val = 0 := rfl
    rw [hoffset, hblank, hplus, hminus] at hcell
    exact Int.ofNat_inj.1 hcell

end TapeLanguage
