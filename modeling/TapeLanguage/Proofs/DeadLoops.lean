import TapeLanguage.Proofs.LoopStack

/-!
# Loops that are never entered

An instruction of a decoded program that does not fail leads to one of four places (`Leads`): a
token that is no bracket and the beginning of a loop that is entered lead to the next one, the end
of a loop on a nonzero cell leads into its body again, and a zero cell leads behind a loop, from its
beginning or from its end (`apply_leads`). The place behind a loop end is reached in the last way
alone, so the cell is zero whenever a run stands there (`Leads.cell_behind`).

A loop that begins right behind another one is therefore skipped each time it is reached. Nothing
else leads into it, since its body is entered through its beginning or by its own end, and pairs do
not cross (`Leads.outside`). So no run ever executes an instruction of it (`run_skips_dead_loop`).
-/

set_option autoImplicit false

namespace TapeLanguage

open Brackets Program

/-! ## Where an instruction leads -/

/-- Where the instruction at a position leads, and the tape before and after it. -/
inductive Leads (tokens : List Token) (n : Nat) : Tape → Nat → Tape → Prop
  /-- A token that is no bracket leads to the next one. -/
  | onward {tape tape' : Tape} : ¬ OpensAt tokens n → ¬ ClosesAt tokens n →
      Leads tokens n tape (n + 1) tape'
  /-- A nonzero cell leads into a loop. -/
  | entered {tape : Tape} : OpensAt tokens n → tape.read ≠ 0 → Leads tokens n tape (n + 1) tape
  /-- A nonzero cell leads back into the loop that ends here. -/
  | repeated {tape : Tape} {o : Nat} : Matches tokens o n → tape.read ≠ 0 →
      Leads tokens n tape (o + 1) tape
  /-- A zero cell leads behind the loop that begins or ends here. -/
  | passed {tape : Tape} {o c : Nat} : Matches tokens o c → n = o ∨ n = c → tape.read = 0 →
      Leads tokens n tape (c + 1) tape

section Instruction

variable {tokens : List Token} {p : Program} {m m' : Machine} {n : Nat} {i : Instruction}
  {us : List Nat} {next : Int}

theorem enter_leads (h : Decodes tokens p) (hi : p.instructions[n]? = some i)
    (hop : i.op = .openLoop) (happly : m.apply i = .moved next m') :
    ∃ k : Nat, next = k ∧ Leads tokens n m.tape k m'.tape := by
  obtain ⟨c, hm⟩ := h.exists_end hi hop
  by_cases hcell : m.tape.read = 0
  · rw [Machine.apply_skip hop hcell (h.partner_of_opens hm hi)] at happly
    cases happly
    exact ⟨c + 1, rfl, .passed hm (Or.inl rfl) hcell⟩
  · rw [Machine.apply_enter hop hcell, h.index_eq hi] at happly
    cases happly
    exact ⟨n + 1, rfl, .entered hm.opens hcell⟩

theorem end_leads (h : Decodes tokens p) (hi : p.instructions[n]? = some i)
    (hus : Unfinished (tokens.take n) us) (hresume : m.resume = us.map bodyStart)
    (hop : i.op = .closeLoop) (happly : m.apply i = .moved next m') :
    ∃ k : Nat, next = k ∧ Leads tokens n m.tape k m'.tape := by
  obtain ⟨o, hm⟩ := h.exists_beginning hi hop
  by_cases hcell : m.tape.read = 0
  · rw [Machine.apply_leave hop hcell, h.index_eq hi] at happly
    cases happly
    exact ⟨n + 1, rfl, .passed hm (Or.inr rfl) hcell⟩
  · -- the top of the stack is the body start of the own loop
    obtain ⟨outer, rfl, -⟩ := hus.take_closes hm
    rw [Machine.apply_repeat hop hcell hresume] at happly
    cases happly
    exact ⟨o + 1, rfl, .repeated hm hcell⟩

/-- **An instruction of a decoded program that does not fail leads to one of four places.** -/
theorem apply_leads (h : Decodes tokens p) (hi : p.instructions[n]? = some i)
    (hus : Unfinished (tokens.take n) us) (hresume : m.resume = us.map bodyStart)
    (happly : m.apply i = .moved next m') :
    ∃ k : Nat, next = k ∧ Leads tokens n m.tape k m'.tape := by
  cases hop : i.op with
  | openLoop => exact enter_leads h hi hop happly
  | closeLoop => exact end_leads h hi hus hresume hop happly
  | moveLeft | moveRight | increment | decrement | output | input =>
    have hplain : i.op.isBracket = false := by rw [hop]; rfl
    obtain ⟨ho, hc⟩ := h.not_bracket hi hplain
    obtain ⟨m'', -, hmoved | ⟨fault, hstopped⟩⟩ := m.apply_plain hplain
    · rw [hmoved, h.index_eq hi] at happly
      cases happly
      exact ⟨n + 1, rfl, .onward ho hc⟩
    · exact Outcome.noConfusion (happly.symm.trans hstopped)

end Instruction

section Places

variable {tokens : List Token} {n k : Nat} {tape tape' : Tape}

/-- **Only a zero cell leads behind the end of a loop.** -/
theorem Leads.cell_behind {c : Nat} (h : Leads tokens n tape k tape') (hc : ClosesAt tokens c)
    (hk : k = c + 1) : tape'.read = 0 := by
  cases h with
  | onward _ hplain =>
    obtain rfl : n = c := Nat.succ.inj hk
    exact absurd hc hplain
  | entered ho _ =>
    obtain rfl : n = c := Nat.succ.inj hk
    exact absurd hc (opensAt_not_closesAt ho)
  | repeated hm _ =>
    obtain rfl := Nat.succ.inj hk
    exact absurd hc (opensAt_not_closesAt hm.opens)
  | passed _ _ hcell => exact hcell

/-- The place is in the loop that begins at `o` and ends at `c`, behind its beginning. -/
def InLoop (o c n : Nat) : Prop :=
  o < n ∧ n ≤ c

/-- **Nothing leads into a loop from outside** but its beginning on a nonzero cell. -/
theorem Leads.outside {o c : Nat} (h : Leads tokens n tape k tape') (hm : Matches tokens o c)
    (hn : ¬ InLoop o c n) (hcell : n = o → tape.read = 0) : ¬ InLoop o c k := by
  rintro ⟨hlow, hhigh⟩
  rw [InLoop] at hn
  cases h with
  | onward ho _ =>
    -- the place before would be the beginning itself
    obtain rfl : n = o := by omega
    exact ho hm.opens
  | entered _ hnonzero =>
    obtain rfl : n = o := by omega
    exact hnonzero (hcell rfl)
  | @repeated o' hm' _ =>
    have hlt := hm'.lt
    rcases Nat.eq_or_lt_of_le (Nat.le_of_lt_succ hlow) with rfl | hinside
    · -- the loop itself is repeated, from its end
      obtain rfl := hm.right_unique hm'
      omega
    · -- a loop inside it is repeated, and that one ends inside it too
      have := hm.nested hm' hinside (by omega)
      omega
  | @passed o' c' hm' hat _ =>
    have hlt := hm'.lt
    have hne : c' ≠ o := by
      rintro rfl
      exact opensAt_not_closesAt hm.opens hm'.closes
    rcases Nat.lt_trichotomy o' o with hbefore | rfl | hafter
    · -- a loop that begins before it and ends inside it would cross it
      have := hm'.nested hm hbefore (by omega)
      omega
    · have := hm.right_unique hm'
      omega
    · omega

end Places

/-! ## A run -/

section Runs

variable {tokens : List Token} {p : Program}

/-- A run of a decoded program that goes on has gone where its instruction leads. -/
theorem advance_leads (h : Decodes tokens p) (traced : Bool) {r : Run} (hr : OnStack tokens r)
    (hnext : (Run.advance p traced r).isRunning = true) :
    ∃ n k : Nat, r.position = n ∧ (Run.advance p traced r).position = k ∧
      Leads tokens n r.machine.tape k (Run.advance p traced r).machine.tape := by
  obtain ⟨phase, position, m, trace⟩ := r
  cases phase with
  | finished | failed fault => exact Bool.noConfusion hnext
  | running =>
    obtain ⟨⟨n, us, hposition, hn, hus, hresume⟩, -⟩ := hr
    obtain rfl : position = n := hposition
    rcases Nat.lt_or_eq_of_le hn with hlt | rfl
    · obtain ⟨i, hi⟩ := h.exists_instruction hlt
      obtain ⟨noted, hadvance⟩ := Run.advance_of_instruction traced m trace hi
      rw [hadvance] at hnext ⊢
      cases happly : m.apply i with
      | moved next m' =>
        obtain ⟨k, rfl, hleads⟩ := apply_leads h hi hus hresume happly
        exact ⟨n, k, rfl, rfl, hleads⟩
      | stopped fault m' =>
        rw [happly] at hnext
        exact Bool.noConfusion hnext
    · -- at the end of the program the run would finish
      rw [← h.size_eq, Run.advance_at_end] at hnext
      exact Bool.noConfusion hnext

/-- The run is where its stack says, and the cell is zero if it stands behind a loop end. -/
structure ZeroBehind (tokens : List Token) (r : Run) : Prop where
  stack : OnStack tokens r
  cell : r.isRunning = true → ∀ c : Nat, ClosesAt tokens c → r.position = (c + 1 : Nat) →
    r.machine.tape.read = 0

theorem advance_zeroBehind (h : Decodes tokens p) (traced : Bool) {r : Run}
    (hr : ZeroBehind tokens r) : ZeroBehind tokens (Run.advance p traced r) := by
  refine ⟨advance_onStack h traced hr.stack, ?_⟩
  intro hrunning c hc hposition
  obtain ⟨n, k, -, hk, hleads⟩ := advance_leads h traced hr.stack hrunning
  rw [hk] at hposition
  exact hleads.cell_behind hc (Int.natCast_inj.1 hposition)

theorem start_zeroBehind (tokens : List Token) (m : Machine) (p : Program) (trace : Trace) :
    ZeroBehind tokens (Run.start m p trace) := by
  refine ⟨start_onStack tokens m p trace, ?_⟩
  -- the beginning of the program is behind nothing
  intro _ c _ hposition
  exact absurd (Int.natCast_inj.1 hposition) (Nat.succ_ne_zero c).symm

/-- The loop that begins at `o` and ends at `c` has not been entered. -/
structure Unentered (tokens : List Token) (o c : Nat) (r : Run) : Prop where
  behind : ZeroBehind tokens r
  outside : ∀ n : Nat, r.position = n → ¬ InLoop o c n

/-- **A run does not enter a loop that begins behind a loop end.** -/
theorem advance_unentered (h : Decodes tokens p) (traced : Bool) {c d : Nat}
    (hc : ClosesAt tokens c) (hm : Matches tokens (c + 1) d) {r : Run}
    (hr : Unentered tokens (c + 1) d r) :
    Unentered tokens (c + 1) d (Run.advance p traced r) := by
  refine ⟨advance_zeroBehind h traced hr.behind, ?_⟩
  intro k hk
  cases hrunning : (Run.advance p traced r).isRunning with
  | false =>
    rw [Run.position_of_ended hrunning] at hk
    exact hr.outside k hk
  | true =>
    obtain ⟨n, k', hn, hk', hleads⟩ := advance_leads h traced hr.behind.stack hrunning
    obtain rfl : k' = k := Int.natCast_inj.1 (hk'.symm.trans hk)
    refine hleads.outside hm (hr.outside n hn) ?_
    rintro rfl
    -- a run that goes on has been running, so the cell is zero at the beginning
    refine hr.behind.cell ?_ c hc hn
    by_cases hbefore : r.isRunning = true
    · exact hbefore
    · rw [Run.advance_of_ended p traced (Bool.eq_false_iff.2 hbefore)] at hrunning
      exact hrunning

theorem start_unentered (tokens : List Token) (o c : Nat) (m : Machine) (p : Program)
    (trace : Trace) : Unentered tokens o c (Run.start m p trace) := by
  refine ⟨start_zeroBehind tokens m p trace, ?_⟩
  rintro n hn ⟨hlow, -⟩
  obtain rfl : 0 = n := Int.natCast_inj.1 hn
  exact absurd hlow (Nat.not_lt_zero o)

/-- At the beginning of a loop on a zero cell a run goes on behind the loop, and the bookmark is the
end of the loop. -/
theorem advance_skips (traced : Bool) {n c : Nat} {i : Instruction} {r : Run}
    (hi : p.instructions[n]? = some i) (hop : i.op = .openLoop)
    (hpartner : i.partner = some (c : Int)) (hrunning : r.phase = .running)
    (hposition : r.position = n) (hcell : r.machine.tape.read = 0) :
    (Run.advance p traced r).phase = .running ∧
      (Run.advance p traced r).position = (c : Int) + 1 ∧
      (Run.advance p traced r).machine.bookmark = c := by
  obtain ⟨phase, position, m, trace⟩ := r
  obtain rfl : phase = .running := hrunning
  obtain rfl : position = n := hposition
  obtain ⟨noted, hadvance⟩ := Run.advance_of_instruction traced m trace hi
  rw [hadvance, Machine.apply_skip hop hcell hpartner]
  exact ⟨rfl, rfl, rfl⟩

end Runs

/-- **A loop right behind a loop is never entered.** In a decoded program, where a loop begins at
the instruction after a loop end, the cell is zero whenever a run stands at the beginning, for every
machine and every input. Each time the run goes on behind the loop, with its end as the bookmark,
and no state of the run stands at an instruction after the beginning up to the end. -/
theorem run_skips_dead_loop {tokens : List Token} {source : Option String} {p : Program}
    (h : (decode tokens source).outcome = .ok p) {c : Nat} {i j : Instruction}
    (hj : p.get? c = some j) (hjop : j.op = .closeLoop)
    (hi : p.get? (c + 1 : Nat) = some i) (hiop : i.op = .openLoop) :
    ∃ d : Nat, i.partner = some (d : Int) ∧ c + 1 < d ∧
      ∀ (m : Machine) (fuel : Nat) (traced : Bool) (trace : Trace),
        let r := m.run p fuel traced trace
        let next := m.run p (fuel + 1) traced trace
        (r.phase = .running → r.position = (c + 1 : Nat) →
          r.machine.tape.read = 0 ∧ next.phase = .running ∧ next.position = (d : Int) + 1 ∧
            next.machine.bookmark = d) ∧
        ¬ ((c + 1 : Nat) < r.position ∧ r.position ≤ d) := by
  have hp := decodes_of_decode h
  rw [get?_natCast] at hi hj
  have hc : ClosesAt tokens c := (hp.closesAt_iff hj).2 hjop
  obtain ⟨d, hm⟩ := hp.exists_end hi hiop
  have hpartner := hp.partner_of_opens hm hi
  refine ⟨d, hpartner, hm.lt, ?_⟩
  intro m fuel traced trace r next
  have hr : Unentered tokens (c + 1) d r :=
    Run.advanceFor_invariant (P := Unentered tokens (c + 1) d)
      (advance_unentered hp traced hc hm) fuel (start_unentered tokens (c + 1) d m p trace)
  constructor
  · intro hrunning hposition
    have hcell : r.machine.tape.read = 0 :=
      hr.behind.cell (by rw [Run.isRunning, hrunning]) c hc hposition
    have hnext : next = Run.advance p traced r := Run.advanceFor_succ_last p traced fuel _
    rw [hnext]
    exact ⟨hcell, advance_skips traced hi hiop hpartner hrunning hposition hcell⟩
  · rintro ⟨hlow, hhigh⟩
    obtain ⟨⟨n, -, hn, -⟩, -⟩ := hr.behind.stack
    rw [hn] at hlow hhigh
    exact hr.outside n hn ⟨Int.ofNat_lt.1 hlow, Int.ofNat_le.1 hhigh⟩

/-- The second loop of a program is reached once, on the cell that the first one has cleared. -/
theorem run_skips_dead_loop_cleared : ∃ p, (decode (Token.ofText "+[-][+.]>")).outcome = .ok p ∧
    let m : Machine := .new .empty (.bytes #[] 0)
    (m.run p 4).position = 4 ∧ (m.run p 4).machine.tape.read = 0 ∧
      (m.run p 5).position = 8 ∧ (m.run p 5).machine.bookmark = 7 ∧
      ∀ fuel, ¬ (4 < (m.run p fuel).position ∧ (m.run p fuel).position ≤ 7) := by
  have hdecoded : ∃ p i j, (decode (Token.ofText "+[-][+.]>")).outcome = .ok p ∧
      p.get? (3 : Nat) = some j ∧ j.op = .closeLoop ∧ p.get? (3 + 1 : Nat) = some i ∧
      i.op = .openLoop ∧ i.partner = some ((7 : Nat) : Int) ∧
      (Machine.run (.new .empty (.bytes #[] 0)) p 4).phase = .running ∧
      (Machine.run (.new .empty (.bytes #[] 0)) p 4).position = (3 + 1 : Nat) :=
    ⟨_, _, _, rfl, rfl, rfl, rfl, rfl, rfl, rfl, rfl⟩
  obtain ⟨p, i, j, hp, hj, hjop, hi, hiop, hpartner, hrunning, hposition⟩ := hdecoded
  obtain ⟨d, hd, -, hruns⟩ := run_skips_dead_loop hp hj hjop hi hiop
  obtain rfl : d = 7 := by
    rw [hpartner, Option.some.injEq, Int.natCast_inj] at hd
    exact hd.symm
  obtain ⟨hcell, -, hnext, hbookmark⟩ :=
    (hruns (.new .empty (.bytes #[] 0)) 4 false #[]).1 hrunning hposition
  exact ⟨p, hp, hposition, hcell, hnext, hbookmark, fun fuel => (hruns _ fuel false #[]).2⟩

end TapeLanguage
