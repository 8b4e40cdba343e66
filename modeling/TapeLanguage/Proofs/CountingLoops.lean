import Mathlib.Order.Bounds.Basic
import Mathlib.RingTheory.Coprime.Lemmas
import Mathlib.Tactic.LinearCombination
import TapeLanguage.Proofs.LoopStack
import TapeLanguage.Proofs.StraightCode

/-!
# Counting loops

A loop of strokes that come back to where they begin counts: with each pass the cell at the
beginning changes by the same number, and the loop ends when the cell is zero. If this number is
odd, then the cell becomes zero at some time (`exists_countsTo`), as the number has an inverse
modulo 256.

A run passes through the body as often as it takes to come to zero (`executes_passes`), whether it
enters the loop or skips it (`executes_loop`). So every other cell has been changed by a multiple of
what the body adds to it (`counting_loop_ends`).
-/

set_option autoImplicit false

namespace TapeLanguage

open Stroke

/-! ## Counting -/

/-- A cell comes to zero for the first time after `n` changes by the same number. -/
structure CountsTo (v : UInt8) (d : Int) (n : Nat) : Prop where
  zero : v + UInt8.ofInt (n * d) = 0
  before : ∀ k : Nat, k < n → v + UInt8.ofInt (k * d) ≠ 0

/-- A sum is zero as a byte if it is divisible by 256. -/
theorem add_ofInt_eq_zero_iff (v : UInt8) (k : Int) :
    v + UInt8.ofInt k = 0 ↔ (256 : Int) ∣ v.toNat + k := by
  have hsum := toNat_add_ofInt v k
  rw [← UInt8.toNat_inj, UInt8.toNat_zero]
  omega

theorem countsTo_iff (v : UInt8) (d : Int) (n : Nat) :
    CountsTo v d n ↔ IsLeast { k : Nat | (256 : Int) ∣ v.toNat + k * d } n := by
  constructor
  · rintro ⟨hzero, hbefore⟩
    refine ⟨(add_ofInt_eq_zero_iff v _).1 hzero, ?_⟩
    intro k hk
    by_contra hlt
    exact hbefore k (Nat.lt_of_not_le hlt) ((add_ofInt_eq_zero_iff v _).2 hk)
  · rintro ⟨hzero, hleast⟩
    refine ⟨(add_ofInt_eq_zero_iff v _).2 hzero, ?_⟩
    intro k hk hk0
    exact Nat.not_le_of_lt hk (hleast ((add_ofInt_eq_zero_iff v _).1 hk0))

/-- **Counting by an odd number comes to zero.** -/
theorem exists_countsTo (v : UInt8) {d : Int} (hd : Odd d) : ∃ n, CountsTo v d n := by
  -- an odd number has an inverse modulo 256
  obtain ⟨a, b, hinverse⟩ : IsCoprime d (2 ^ 8) := by
    obtain ⟨k, rfl⟩ := hd
    have hodd : IsCoprime (2 * k + 1) (2 : Int) := ⟨1, -k, by ring⟩
    exact hodd.pow_right
  -- so `-v` times the inverse is a number of changes that leads to zero
  have hexists : ∃ n : Nat, (256 : Int) ∣ v.toNat + n * d := by
    refine ⟨(-(v.toNat * a) % 256).toNat, v.toNat * b - -(v.toNat * a) / 256 * d, ?_⟩
    rw [Int.toNat_of_nonneg (Int.emod_nonneg _ (by decide)), Int.emod_def]
    linear_combination (-(v.toNat : Int)) * hinverse
  classical
  refine ⟨Nat.find hexists, (countsTo_iff v d _).2 ⟨Nat.find_spec hexists, ?_⟩⟩
  intro k hk
  exact Nat.find_min' hexists hk

theorem CountsTo.eq_zero {v : UInt8} {d : Int} (h : CountsTo v d 0) : v = 0 := by
  simpa using h.zero

theorem CountsTo.ne_zero {v : UInt8} {d : Int} {n : Nat} (h : CountsTo v d (n + 1)) : v ≠ 0 := by
  simpa using h.before 0 (Nat.succ_pos n)

/-- One change fewer is left after one change. -/
theorem CountsTo.next {v : UInt8} {d : Int} {n : Nat} (h : CountsTo v d (n + 1)) :
    CountsTo (v + UInt8.ofInt d) d n := by
  have hnext : ∀ k : Nat, v + UInt8.ofInt d + UInt8.ofInt (k * d) =
      v + UInt8.ofInt ((k + 1 : Nat) * d) := by
    intro k
    rw [UInt8.add_assoc, ← UInt8.ofInt_add, Int.natCast_succ, Int.add_mul, Int.one_mul,
      Int.add_comm d]
  constructor
  case zero => rw [hnext, h.zero]
  case before =>
    intro k hk
    rw [hnext]
    exact h.before (k + 1) (Nat.succ_lt_succ hk)

/-! ## The brackets of a loop -/

section Brackets

variable {p : Program} {start : Nat} {body : Code} {m : Machine}

theorem executes_skip (hp : Placed p start (.loop body)) (hcell : m.tape.read = 0) :
    Executes p [.openLoop] start m (start + (body.size + 2))
      { m with bookmark := (start + body.size + 1 : Nat), steps := m.steps + 1 } := by
  obtain ⟨⟨i, hi, hop, -, hpartner⟩, -⟩ := hp
  rw [← hop]
  exact .single hi (Machine.apply_skip hop hcell hpartner)

theorem executes_enter (hp : Placed p start (.loop body)) (hcell : m.tape.read ≠ 0) :
    Executes p [.openLoop] start m (start + 1)
      { m with resume := bodyStart start :: m.resume, steps := m.steps + 1 } := by
  obtain ⟨⟨i, hi, hop, hindex, -⟩, -⟩ := hp
  have henter := Machine.apply_enter hop hcell
  rw [hindex] at henter
  rw [← hop]
  exact .single hi henter

theorem executes_repeat {outer : List Int} (hp : Placed p start (.loop body))
    (hcell : m.tape.read ≠ 0) (hresume : m.resume = bodyStart start :: outer) :
    Executes p [.closeLoop] (start + 1 + body.size) m (start + 1) m.count := by
  obtain ⟨-, -, ⟨j, hj, hop, -⟩⟩ := hp
  rw [← hop, Nat.add_right_comm]
  exact .single hj (Machine.apply_repeat hop hcell hresume)

theorem executes_leave (hp : Placed p start (.loop body)) (hcell : m.tape.read = 0) :
    Executes p [.closeLoop] (start + 1 + body.size) m (start + (body.size + 2))
      { m with resume := m.resume.tail, steps := m.steps + 1 } := by
  obtain ⟨-, -, ⟨j, hj, hop, hindex⟩⟩ := hp
  have hleave := Machine.apply_leave hop hcell
  rw [hindex] at hleave
  rw [← hop, Nat.add_right_comm]
  exact .single hj hleave

end Brackets

/-! ## Passes -/

/-- The instructions of one pass: the body and the end of the loop. -/
def pass (w : List Stroke) : List Op :=
  w.map op ++ [.closeLoop]

/-- The cell at the beginning after strokes that come back. -/
theorem read_of_effect {w : List Stroke} {t t' : Tape} (hclosed : movement w = 0)
    (h : Effect w t t') : t'.pointer = t.pointer ∧ t'.read = t.read + UInt8.ofInt (change w 0) := by
  have hpointer : t'.pointer = t.pointer := by
    have hval := h.pointer
    rw [hclosed, Int.add_zero] at hval
    exact Fin.ext (Int.ofNat_inj.1 hval)
  refine ⟨hpointer, ?_⟩
  rw [Tape.read_eq_cell, hpointer, h.cell, Int.sub_self, Tape.read_eq_cell]

section Loop

variable {p : Program} {start : Nat} {w : List Stroke} {m : Machine}

/-- **A loop is passed as often as it takes to come to zero.** The run is in the loop, at the
beginning of its body. -/
theorem executes_passes {outer : List Int} {n : Nat} (hp : Placed p start (.loop (code w)))
    (hclosed : movement w = 0) (hon : StaysOn m.tape.pointer.val w)
    (hresume : m.resume = bodyStart start :: outer)
    (hn : CountsTo m.tape.read (change w 0) (n + 1)) :
    ∃ t, Effect (List.replicate (n + 1) w).flatten m.tape t ∧
      Executes p (List.replicate (n + 1) (pass w)).flatten (start + 1) m (start + (w.length + 2))
        ({ m with resume := outer }.later t ((n + 1) * (w.length + 1))) := by
  -- induction on the passes that are left; each of them begins with the same resume stack
  induction n generalizing m with
  | zero =>
    obtain ⟨t, heffect, hbody⟩ := executes_strokes hp.2.1 hon
    -- the body has made the cell zero, and the loop is left
    have hcell : t.read = 0 := by
      rw [(read_of_effect hclosed heffect).2]
      exact hn.next.eq_zero
    have hleave := executes_leave (m := m.later t w.length) hp hcell
    have htail : (m.later t w.length).resume.tail = outer := congrArg List.tail hresume
    rw [size_code, htail] at hleave
    refine ⟨t, by simpa using heffect, ?_⟩
    rw [Nat.zero_add, Nat.one_mul, List.replicate_one, List.flatten_singleton]
    exact hbody.trans hleave
  | succ n ih =>
    obtain ⟨t, heffect, hbody⟩ := executes_strokes hp.2.1 hon
    obtain ⟨hpointer, hread⟩ := read_of_effect hclosed heffect
    -- one pass fewer is left, and the cell is not zero yet
    have hcount := hn.next
    rw [← hread] at hcount
    have hrepeat := executes_repeat (m := m.later t w.length) hp hcount.ne_zero hresume
    rw [size_code] at hrepeat
    obtain ⟨t', heffect', hpasses⟩ :=
      ih (m := m.later t (w.length + 1)) (hpointer ▸ hon) hresume hcount
    refine ⟨t', heffect.trans heffect', ?_⟩
    have hpass : Executes p (pass w) (start + 1) m (start + 1) (m.later t (w.length + 1)) :=
      hbody.trans hrepeat
    -- the count of this pass and the count of the others
    have hlater : { m.later t (w.length + 1) with resume := outer }.later t'
        ((n + 1) * (w.length + 1)) =
        { m with resume := outer }.later t' ((n + 1 + 1) * (w.length + 1)) := by
      rw [Nat.succ_mul (n + 1), Nat.add_comm (_ * _)]
      exact Machine.later_later { m with resume := outer } t t' _ _
    rw [← hlater]
    exact hpass.trans hpasses

/-- **A counting loop is entered or skipped, and leaves the other loops as they were.** -/
theorem executes_loop {n : Nat} (hp : Placed p start (.loop (code w))) (hclosed : movement w = 0)
    (hon : StaysOn m.tape.pointer.val w) (hn : CountsTo m.tape.read (change w 0) n) :
    ∃ t bookmark, Effect (List.replicate n w).flatten m.tape t ∧
      Executes p (.openLoop :: (List.replicate n (pass w)).flatten) start m
        (start + (w.length + 2))
        ({ m with bookmark := bookmark }.later t (1 + n * (w.length + 1))) := by
  cases n with
  | zero =>
    have hskip := executes_skip hp hn.eq_zero
    rw [size_code] at hskip
    refine ⟨m.tape, (start + w.length + 1 : Nat), .nil m.tape, ?_⟩
    rw [Nat.zero_mul]
    exact hskip
  | succ n =>
    have henter := executes_enter hp hn.ne_zero
    obtain ⟨t, heffect, hpasses⟩ := executes_passes
      (m := { m with resume := bodyStart start :: m.resume, steps := m.steps + 1 }) hp hclosed hon
      rfl hn
    refine ⟨t, m.bookmark, heffect, ?_⟩
    -- the passes have popped what the beginning has pushed
    have hlater := Machine.later_later m m.tape t 1 ((n + 1) * (w.length + 1))
    show Executes _ _ _ _ _ (m.later t (1 + (n + 1) * (w.length + 1)))
    rw [← hlater]
    exact henter.trans hpasses

end Loop

/-! ## Runs -/

/-- A run has ended that was to count a cell to zero by executing a body some times. -/
structure HasCounted (w : List Stroke) (n : Nat) (m : Machine) (r : Run) : Prop where
  /-- The run has come to its end. -/
  finished : r.phase = .finished
  /-- One test at the beginning, and each pass with the test at its end. -/
  steps : r.machine.steps = 1 + n * (w.length + 1)
  /-- The pointer is back. -/
  pointer : r.machine.tape.pointer = m.tape.pointer
  /-- The cell is zero. -/
  read : r.machine.tape.read = 0
  /-- Every cell has been changed by each pass. -/
  cell : ∀ i, r.machine.tape.cell i =
    m.tape.cell i + UInt8.ofInt (n * change w (i.val - m.tape.pointer.val))
  /-- Nothing has been read. -/
  supply : r.machine.supply = m.supply
  /-- Nothing has been written. -/
  output : r.machine.output = m.output.flush

/-- The effect of all passes on the cells. -/
theorem cell_of_passes {w : List Stroke} {n : Nat} {t t' : Tape} (hclosed : movement w = 0)
    (h : Effect (List.replicate n w).flatten t t') (i : Fin capacity) :
    t'.cell i = t.cell i + UInt8.ofInt (n * change w (i.val - t.pointer.val)) := by
  rw [h.cell, change_repeated hclosed]

theorem text_loop (w : List Stroke) : (Code.loop (code w)).text = "[" ++ text w ++ "]" := by
  rw [← text_code]
  apply String.toList_injective
  simp only [Code.text, Code.ops, String.toList_append, String.toList_ofList, List.map_cons,
    List.map_append]
  rfl

/-- **A counting loop multiplies and ends.** Let the strokes of the body, which can be any text of
the four symbols (`Stroke.exists_text_iff`), come back to where they begin, staying on the tape,
and let them change the cell there by an odd number. Then the text of the loop is a program, and
there is a least number `n` of such changes that take the cell to zero modulo 256. On the machine a
run of the program executes the body `n` times and ends: the pointer is back, the cell is zero, each
cell has been changed by `n` times what the body adds to it, and nothing has been read or
written. -/
theorem counting_loop_ends {w : List Stroke} {m : Machine} (hclosed : movement w = 0)
    (hodd : Odd (change w 0)) (hon : StaysOn m.tape.pointer.val w) :
    ∃ p n, (Program.decode (Token.ofText ("[" ++ text w ++ "]"))).outcome = .ok p ∧
      IsLeast { k : Nat | (256 : Int) ∣ m.tape.read.toNat + k * change w 0 } n ∧
      ∀ (fuel : Nat) (traced : Bool) (trace : Trace), 1 + n * (w.length + 1) < fuel →
        HasCounted w n m (m.run p fuel traced trace) ∧
        (Run.start m p trace).completedOps p traced fuel =
          .openLoop :: (List.replicate n (w.map op ++ [.closeLoop])).flatten := by
  obtain ⟨p, hdecode, hp, hsize⟩ := exists_placed (.loop (code w))
  rw [text_loop] at hdecode
  obtain ⟨n, hn⟩ := exists_countsTo m.tape.read hodd
  refine ⟨p, n, hdecode, (countsTo_iff _ _ _).1 hn, ?_⟩
  intro fuel traced trace hfuel
  obtain ⟨t, bookmark, heffect, hexecutes⟩ :=
    executes_loop (m := m.prepare p) hp hclosed hon hn
  have hend : 0 + (w.length + 2) = p.size := by
    rw [← hsize, Code.size, size_code, Nat.zero_add]
  have hlength : (Op.openLoop :: (List.replicate n (pass w)).flatten).length =
      1 + n * (w.length + 1) := by
    simp [pass, Nat.add_comm]
  rw [hend] at hexecutes
  obtain ⟨hphase, hmachine, hops⟩ := hexecutes.finishes (by rwa [hlength]) traced trace
  obtain ⟨hpointer, hread⟩ := read_of_effect (movement_repeated hclosed n) heffect
  refine ⟨?_, hops⟩
  constructor
  case finished => exact hphase
  case steps =>
    -- the count begins anew with each run
    rw [hmachine]
    exact Nat.zero_add _
  case pointer =>
    rw [hmachine]
    exact hpointer
  case read =>
    rw [hmachine]
    show t.read = 0
    rw [hread, change_repeated hclosed]
    exact hn.zero
  case cell =>
    rw [hmachine]
    exact cell_of_passes hclosed heffect
  case supply =>
    rw [hmachine]
    rfl
  case output =>
    rw [hmachine]
    rfl

/-- A loop that adds twice the first cell to the second one. -/
theorem counting_loop_ends_doubling :
    let m : Machine := { Machine.new (.bytes []) (.bytes #[] 0) with tape := Tape.blank.store 3 }
    ∃ p, (Program.decode (Token.ofText "[->++<]")).outcome = .ok p ∧
      (m.run p 20).phase = .finished ∧ (m.run p 20).machine.steps = 19 ∧
      (m.run p 20).machine.tape.read = 0 ∧ (m.run p 20).machine.tape.cell ⟨1, by decide⟩ = 6 := by
  intro m
  obtain ⟨p, n, hp, hn, hruns⟩ := counting_loop_ends (w := [.minus, .right, .plus, .plus, .left])
    (m := m) rfl (by decide) (by simp [OnTape, Stroke.shift, capacity, m, Tape.blank])
  have hthree : n = 3 := by
    rw [show m.tape.read = 3 from Tape.read_store _ _] at hn
    have hmember : (256 : Int) ∣ 3 + n * -1 := hn.1
    have hleast : n ≤ 3 := hn.2 (show (256 : Int) ∣ 3 + (3 : Nat) * -1 by decide)
    omega
  subst hthree
  obtain ⟨h, -⟩ := hruns 20 false #[] (by decide)
  exact ⟨p, hp, h.finished, h.steps, h.read, h.cell _⟩

end TapeLanguage
