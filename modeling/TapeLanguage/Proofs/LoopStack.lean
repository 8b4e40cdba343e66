import TapeLanguage.Proofs.Pairing
import TapeLanguage.Proofs.Step

/-!
# The resume stack

At every moment of a run of a decoded program the resume stack holds the body starts of the loops
around the position, and nothing else. One instruction keeps this (`apply_stacks`): a token that is
no bracket and a skipped loop leave the open loops alone, a loop that is entered becomes the
innermost one, and a loop end is the end of the innermost one. So the whole run keeps it
(`advanceFor_onStack`), whatever the machine held before. In particular a loop end never finds the
stack empty, it goes back to its own loop, and a run that finishes leaves the stack empty
(`run_stacks_loops`).
-/

set_option autoImplicit false

namespace TapeLanguage

open Brackets

namespace Program

/-- The beginnings of the loops around a position, in ascending order. -/
def loopsAround (p : Program) (position : Int) : List Nat :=
  (List.range p.size).filter fun o : Nat =>
    (p.get? o).any (fun i => decide (i.op = .openLoop)) && decide ((o : Int) < position) &&
      p.jumps[(o : Int)]?.any fun c => decide (position ≤ c)

end Program

open Program

/-! ## One instruction -/

/-- The position past a loop beginning. -/
def bodyStart (o : Nat) : Int :=
  (o : Int) + 1

/-- The positions are the body starts of the loops that are open before a place. -/
def Stacks (tokens : List Token) (position : Int) (resume : List Int) : Prop :=
  ∃ (n : Nat) (us : List Nat), position = n ∧ n ≤ tokens.length ∧
    Unfinished (tokens.take n) us ∧ resume = us.map bodyStart

section Instruction

variable {tokens : List Token} {p : Program} {m : Machine} {n : Nat} {i : Instruction}
  {us : List Nat}

/-- A loop beginning stacks its body start, or leads behind the loop. -/
theorem enter_stacks (h : Decodes tokens p) (hi : p.instructions[n]? = some i)
    (hus : Unfinished (tokens.take n) us) (hresume : m.resume = us.map bodyStart)
    (hop : i.op = .openLoop) :
    ∃ next m', m.apply i = .moved next m' ∧ Stacks tokens next m'.resume := by
  obtain ⟨c, hm⟩ := h.exists_end hi hop
  have hc := hm.closes.lt_length
  by_cases hcell : m.tape.read = 0
  · -- the whole pair is skipped
    refine ⟨_, _, Machine.apply_skip hop hcell (h.partner_of_opens hm hi), ?_⟩
    exact ⟨c + 1, us, rfl, hc, hus.take_pair hm, hresume⟩
  · -- the loop is entered, and its body start is pushed
    refine ⟨_, _, Machine.apply_enter hop hcell, ?_⟩
    rw [h.index_eq hi]
    refine ⟨n + 1, n :: us, rfl, Nat.lt_trans hm.lt hc, hus.take_opens hm.opens, ?_⟩
    rw [List.map_cons, ← hresume]
    rfl

/-- A loop end leads back to the body of its own loop, the top of the stack, or takes it away. -/
theorem end_stacks {o : Nat} (h : Decodes tokens p) (hi : p.instructions[n]? = some i)
    (hus : Unfinished (tokens.take n) us) (hresume : m.resume = us.map bodyStart)
    (hop : i.op = .closeLoop) (hm : Matches tokens o n) :
    (m.tape.read ≠ 0 ∧ m.apply i = .moved (bodyStart o) m ∧ Stacks tokens (bodyStart o) m.resume) ∨
      (m.tape.read = 0 ∧
        ∃ m', m.apply i = .moved (n + 1) m' ∧ Stacks tokens (n + 1) m'.resume) := by
  have hn := hm.closes.lt_length
  obtain ⟨outer, rfl, hbody, hrest⟩ := hus.take_closes hm
  by_cases hcell : m.tape.read = 0
  · -- the loop is left, and its body start is popped
    refine Or.inr ⟨hcell, { m with resume := m.resume.tail }, ?_, ?_⟩
    · rw [Machine.apply_leave hop hcell, h.index_eq hi]
    · refine ⟨n + 1, outer, rfl, hn, hrest, ?_⟩
      rw [hresume]
      rfl
  · -- the top of the stack is the body start of the own loop
    refine Or.inl ⟨hcell, Machine.apply_repeat hop hcell hresume, ?_⟩
    exact ⟨o + 1, o :: outer, rfl, Nat.lt_trans hm.lt hn, hbody, hresume⟩

/-- **One instruction keeps the stack the list of the loops around the position.** -/
theorem apply_stacks (h : Decodes tokens p) (hi : p.instructions[n]? = some i)
    (hus : Unfinished (tokens.take n) us) (hresume : m.resume = us.map bodyStart) :
    (∃ next m', m.apply i = .moved next m' ∧ Stacks tokens next m'.resume) ∨
      ∃ fault m', m.apply i = .stopped fault m' ∧ m'.resume = m.resume := by
  by_cases hbracket : i.op.isBracket = false
  · -- no bracket: the same loops are open behind the token
    obtain ⟨m', hsame, hm' | ⟨fault, hm'⟩⟩ := m.apply_plain hbracket
    · obtain ⟨ho, hc⟩ := h.not_bracket hi hbracket
      have hn := h.lt_length hi
      have ht := List.getElem?_eq_getElem hn
      rw [OpensAt, standsAt_iff_of_getElem? ht] at ho
      rw [ClosesAt, standsAt_iff_of_getElem? ht] at hc
      refine Or.inl ⟨_, m', hm', n + 1, us, ?_, hn, hus.take_plain ht ho hc, ?_⟩
      · rw [h.index_eq hi]
        rfl
      · rw [hsame.resume, hresume]
    · exact Or.inr ⟨fault, m', hm', hsame.resume⟩
  · refine Or.inl ?_
    cases hop : i.op with
    | openLoop => exact enter_stacks h hi hus hresume hop
    | closeLoop =>
      obtain ⟨o, hm⟩ := h.exists_beginning hi hop
      rcases end_stacks h hi hus hresume hop hm with ⟨-, hm', hs⟩ | ⟨-, m', hm', hs⟩
      · exact ⟨_, _, hm', hs⟩
      · exact ⟨_, _, hm', hs⟩
    | moveLeft | moveRight | increment | decrement | output | input =>
      rw [hop] at hbracket
      exact absurd rfl hbracket

end Instruction

/-! ## A run -/

/-- The resume stack of a run is the stack at its position, and a finished run stands at the end. -/
def OnStack (tokens : List Token) (r : Run) : Prop :=
  Stacks tokens r.position r.machine.resume ∧
    (r.phase = .finished → r.position = (tokens.length : Int))

theorem advance_onStack {tokens : List Token} {p : Program} (h : Decodes tokens p) (traced : Bool)
    {r : Run} (hr : OnStack tokens r) : OnStack tokens (Run.advance p traced r) := by
  obtain ⟨phase, position, m, trace⟩ := r
  cases phase with
  | finished => exact hr
  | failed fault => exact hr
  | running =>
    obtain ⟨⟨n, us, hposition, hn, hus, hresume⟩, -⟩ := hr
    change position = n at hposition
    subst hposition
    rcases Nat.lt_or_eq_of_le hn with hlt | rfl
    · -- an instruction is executed
      obtain ⟨i, hi⟩ := h.exists_instruction hlt
      obtain ⟨noted, hadvance⟩ := Run.advance_of_instruction traced m trace hi
      rw [hadvance]
      rcases apply_stacks h hi hus hresume with ⟨next, m', hm', hs⟩ | ⟨fault, m', hm', hsame⟩
      · rw [hm']
        exact ⟨hs, nofun⟩
      · rw [hm']
        exact ⟨⟨n, us, rfl, hn, hus, hsame.trans hresume⟩, nofun⟩
    · -- the run finishes where it stands
      have hend := Run.advance_at_end p traced m trace
      rw [h.size_eq] at hend
      rw [hend]
      exact ⟨⟨tokens.length, us, rfl, hn, hus, hresume⟩, fun _ => rfl⟩

theorem advanceFor_onStack {tokens : List Token} {p : Program} (h : Decodes tokens p)
    (traced : Bool) (fuel : Nat) {r : Run} (hr : OnStack tokens r) :
    OnStack tokens (Run.advanceFor p traced fuel r) :=
  Run.advanceFor_invariant (P := OnStack tokens) (advance_onStack h traced) fuel hr

/-- A run begins with no loop around it, whatever the machine held before. -/
theorem start_onStack (tokens : List Token) (m : Machine) (p : Program) (trace : Trace) :
    OnStack tokens (Run.start m p trace) :=
  ⟨⟨0, [], rfl, Nat.zero_le _, .flat .nil, rfl⟩, nofun⟩

/-! ## The stack and the loops around a position -/

theorem mem_loopsAround_iff {tokens : List Token} {p : Program} (h : Decodes tokens p) (n o : Nat) :
    o ∈ p.loopsAround n ↔ o < n ∧ ∃ c, Matches tokens o c ∧ n ≤ c := by
  simp only [loopsAround, List.mem_filter, List.mem_range, Bool.and_eq_true, decide_eq_true_eq,
    Option.any_eq_true, get?_natCast, Int.ofNat_lt]
  constructor
  · rintro ⟨-, ⟨⟨i, hi, hop⟩, hlt⟩, v, hv, hle⟩
    obtain ⟨c, hm⟩ := h.exists_end hi hop
    have hpartner := h.partner_of_opens hm hi
    rw [h.partner_eq hi, hv, Option.some.injEq] at hpartner
    subst hpartner
    exact ⟨hlt, c, hm, Int.ofNat_le.1 hle⟩
  · rintro ⟨hlt, c, hm, hle⟩
    have ho := hm.opens.lt_length
    obtain ⟨i, hi⟩ := h.exists_instruction ho
    have hv : p.jumps[(o : Int)]? = some (c : Int) := by
      rw [← h.partner_eq hi, h.partner_of_opens hm hi]
    exact ⟨h.size_eq ▸ ho, ⟨⟨i, hi, (h.opensAt_iff hi).1 hm.opens⟩, hlt⟩, c, hv, Int.ofNat_le.2 hle⟩

/-- The open loops before a place, outermost first, are the loops around it. -/
theorem reverse_eq_loopsAround {tokens : List Token} {p : Program} {n : Nat} {us : List Nat}
    (h : Decodes tokens p) (hus : Unfinished (tokens.take n) us) :
    us.reverse = p.loopsAround n := by
  have hascending : (p.loopsAround n).Pairwise (· < ·) :=
    List.Pairwise.filter _ List.pairwise_lt_range
  rw [List.reverse_eq_iff]
  apply eq_of_descending hus.descending (List.pairwise_reverse.2 hascending)
  intro o
  rw [List.mem_reverse, mem_loopsAround_iff h, hus.mem_take_iff h.balanced]

/-- The resume stack of a run at a position of a program. -/
structure StacksLoops (p : Program) (traced : Bool) (r : Run) : Prop where
  /-- The position lies on the program or just past it. -/
  position : 0 ≤ r.position ∧ r.position ≤ p.size
  /-- The instruction at the position has the position as its index. -/
  index : r.position < p.size → ∃ i, p.get? r.position = some i ∧ i.index = r.position
  /-- The stack, read from the outermost loop on, holds the positions past the beginnings of the
  loops around the position. -/
  resume : r.machine.resume.reverse = (p.loopsAround r.position).map bodyStart
  /-- At a loop beginning there are as many entries as its depth. -/
  beginning : ∀ i, p.get? r.position = some i → i.op = .openLoop →
    (r.machine.resume.length : Int) = i.depth
  /-- At a loop end there is one entry more, so the stack is not empty. -/
  ending : ∀ i, p.get? r.position = some i → i.op = .closeLoop →
    (r.machine.resume.length : Int) = i.depth + 1 ∧ r.machine.resume ≠ []
  /-- A loop end on a nonzero cell goes on behind the beginning of its own loop. -/
  repeats : ∀ i, p.get? r.position = some i → i.op = .closeLoop → r.phase = .running →
    r.machine.tape.read ≠ 0 → ∃ o, i.partner = some o ∧ (Run.advance p traced r).phase = .running ∧
      (Run.advance p traced r).position = o + 1
  /-- A run that has finished stands past the last instruction with an empty stack. -/
  finished : r.phase = .finished → r.position = p.size ∧ r.machine.resume = []

section AtInstruction

variable {tokens : List Token} {p : Program} {m : Machine} {n : Nat} {i : Instruction}
  {us : List Nat}

/-- The depth of a loop beginning is the number of loops around it. -/
theorem length_at_beginning (h : Decodes tokens p) (hi : p.instructions[n]? = some i)
    (hus : Unfinished (tokens.take n) us) (hop : i.op = .openLoop) :
    (us.length : Int) = i.depth := by
  obtain ⟨d, hd, hdepth⟩ := h.depthAt hi
  rw [hdepth, hd.opens ((h.opensAt_iff hi).2 hop), level, hus.height_eq]

/-- The depth of a loop end is one less than the number of loops around it. -/
theorem length_at_end (h : Decodes tokens p) (hi : p.instructions[n]? = some i)
    (hus : Unfinished (tokens.take n) us) (hop : i.op = .closeLoop) :
    (us.length : Int) = i.depth + 1 := by
  have hclose := (h.closesAt_iff hi).2 hop
  obtain ⟨d, hd, hdepth⟩ := h.depthAt hi
  have hlevel : level tokens n = us.length := hus.height_eq
  rw [hdepth, hd.closes hclose, level_succ_of_closesAt hclose, hlevel]
  omega

/-- A loop end on a nonzero cell goes on behind its own loop beginning. -/
theorem advance_repeats (h : Decodes tokens p) (hi : p.instructions[n]? = some i)
    (hus : Unfinished (tokens.take n) us) (hresume : m.resume = us.map bodyStart)
    (hop : i.op = .closeLoop) (hcell : m.tape.read ≠ 0) (traced : Bool) (trace : Trace) :
    ∃ o noted, i.partner = some o ∧
      Run.advance p traced ⟨.running, n, m, trace⟩ = ⟨.running, o + 1, m.count, noted⟩ := by
  obtain ⟨o, hm⟩ := h.exists_beginning hi hop
  obtain ⟨noted, hadvance⟩ := Run.advance_of_instruction traced m trace hi
  refine ⟨o, noted, h.partner_of_closes hm hi, ?_⟩
  rcases end_stacks h hi hus hresume hop hm with ⟨-, hm', -⟩ | ⟨hzero, -⟩
  · rw [hadvance, hm']
    rfl
  · exact absurd hzero hcell

/-- At the end of balanced tokens no loop is open. -/
theorem unfinished_at_end (h : Decodes tokens p)
    (hus : Unfinished (tokens.take tokens.length) us) : us = [] := by
  rw [List.take_length] at hus
  exact hus.unique (.flat h.balanced)

end AtInstruction

theorem OnStack.stacksLoops {tokens : List Token} {p : Program} {r : Run} (h : Decodes tokens p)
    (traced : Bool) (hr : OnStack tokens r) : StacksLoops p traced r := by
  obtain ⟨phase, position, m, trace⟩ := r
  obtain ⟨⟨n, us, hposition, hn, hus, hresume⟩, hfinished⟩ := hr
  change position = n at hposition
  subst hposition
  change m.resume = us.map bodyStart at hresume
  have hsize := h.size_eq
  constructor
  case position => exact ⟨Int.natCast_nonneg n, by rw [hsize]; exact Int.ofNat_le.2 hn⟩
  case index =>
    intro hlt
    obtain ⟨i, hi⟩ := h.exists_instruction (Int.ofNat_lt.1 (hsize ▸ hlt))
    exact ⟨i, by rw [get?_natCast, hi], h.index_eq hi⟩
  case resume =>
    rw [hresume, ← reverse_eq_loopsAround h hus, List.map_reverse]
  case beginning =>
    intro i hi hop
    rw [get?_natCast] at hi
    rw [hresume, List.length_map]
    exact length_at_beginning h hi hus hop
  case ending =>
    intro i hi hop
    rw [get?_natCast] at hi
    -- the loop of the loop end is open
    obtain ⟨o, hm⟩ := h.exists_beginning hi hop
    obtain ⟨outer, rfl, -⟩ := hus.take_closes hm
    rw [hresume, List.length_map]
    exact ⟨length_at_end h hi hus hop, nofun⟩
  case repeats =>
    intro i hget hop hphase hcell
    have hi : p.instructions[n]? = some i := by rwa [get?_natCast] at hget
    obtain rfl : phase = .running := hphase
    obtain ⟨o, noted, hpartner, hadvance⟩ :=
      advance_repeats h hi hus hresume hop hcell traced trace
    rw [hadvance]
    exact ⟨o, hpartner, rfl, rfl⟩
  case finished =>
    intro hphase
    have hlast := hfinished hphase
    refine ⟨by rw [hsize]; exact hlast, ?_⟩
    rw [Int.natCast_inj.1 hlast] at hus
    rw [hresume, unfinished_at_end h hus]
    rfl

/-- **The resume stack of a run is the list of the loops around its position**, from the first
instruction to the end, for every program that decoding gives and whatever the machine held before.
-/
theorem run_stacks_loops {tokens : List Token} {source : Option String} {p : Program}
    (h : (decode tokens source).outcome = .ok p) (m : Machine) (fuel : Nat) (traced : Bool)
    (trace : Trace) : StacksLoops p traced (m.run p fuel traced trace) := by
  have hp := decodes_of_decode h
  exact (advanceFor_onStack hp traced fuel (start_onStack tokens m p trace)).stacksLoops hp traced

/-- Two loops are entered by a machine that holds the stack of an earlier run. -/
theorem run_stacks_loops_nested : ∃ p, (decode (Token.ofText "+[[-]]")).outcome = .ok p ∧
    let m : Machine := { Machine.new .empty (.bytes #[] 0) with resume := [7], bookmark := 3 }
    (m.run p 3).machine.resume = [3, 2] ∧ StacksLoops p false (m.run p 3) := by
  have hdecoded : ∃ p, (decode (Token.ofText "+[[-]]")).outcome = .ok p ∧
      (Machine.run { Machine.new .empty (.bytes #[] 0) with resume := [7], bookmark := 3 } p
        3).machine.resume = [3, 2] := ⟨_, rfl, rfl⟩
  obtain ⟨p, hp, hresume⟩ := hdecoded
  exact ⟨p, hp, hresume, run_stacks_loops hp _ 3 false #[]⟩

end TapeLanguage
