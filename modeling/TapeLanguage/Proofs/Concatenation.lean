import TapeLanguage.Proofs.Coupling
import TapeLanguage.Proofs.LoopStack

/-!
# Programs one after the other

The brackets of two balanced texts are paired in their concatenation as they are paired in the texts
(`Embeds`). So the program of the concatenation first runs as the program of the first text does, in
step with it (`front_runs`), until that program finishes, which it does with no loop around it
(`advanceFor_finishes`). From there it runs as the program of the second text does from its
beginning, in step with it again, some places and some steps further on (`back_runs`). What the
second program finds is the machine as the first one left it: running a concatenation ends as
running its parts in sequence ends (`run_append`).
-/

set_option autoImplicit false

namespace TapeLanguage

open Brackets Program

/-! ## Tokens among other tokens -/

/-- Tokens stand among others, some places further on, with the same pairs of brackets. -/
structure Embeds (d : Nat) (tokens others : List Token) : Prop where
  token : ∀ {n : Nat} {t : Token}, tokens[n]? = some t → others[d + n]? = some t
  pair : ∀ {o c : Nat}, Matches tokens o c → Matches others (d + o) (d + c)

theorem embeds_front (a b : List Token) : Embeds 0 a (a ++ b) where
  token := by
    intro n t h
    rw [Nat.zero_add, List.getElem?_append_left (List.getElem?_eq_some_iff.1 h).1, h]
  pair := by
    intro o c h
    rw [Nat.zero_add, Nat.zero_add]
    exact h.append_right b

theorem embeds_back (a b : List Token) : Embeds a.length b (a ++ b) where
  token := by
    intro n t h
    rw [List.getElem?_append_right (Nat.le_add_right _ _), Nat.add_sub_cancel_left, h]
  pair := fun h => h.append_left a

/-- Two balanced lists of instructions are a program together. -/
theorem Program.Decodes.append {a b : List Token} {p q : Program} (ha : Decodes a p)
    (hb : Decodes b q) : ∃ pq, Decodes (a ++ b) pq ∧ (decode (a ++ b)).outcome = .ok pq := by
  apply decode_of_balanced none (ha.balanced.append hb.balanced)
  intro n hforeign
  rcases Nat.lt_or_ge n a.length with hlt | hge
  · exact ha.not_foreign n ((standsAt_append_left _ a b hlt).1 hforeign)
  · rw [← Nat.add_sub_cancel' hge, standsAt_append_right] at hforeign
    exact hb.not_foreign _ hforeign

/-! ## Programs at other places -/

/-- The first machine has flushed its output once more. -/
def StreamCoupling.flushedOnce : StreamCoupling :=
  { StreamCoupling.same with
    output := fun o o' => o = o'.flush
    write := by
      rintro o o' byte rfl
      cases o' <;> rfl
    flush := congrArg Output.flush }

namespace Coupling

/-- The second machine executes the instructions in a program around them. -/
def relocated (streams : StreamCoupling) (shift : Int) (lead : Nat) : Coupling :=
  { streams with
    shift := shift
    lead := lead
    bookmark := fun _ _ => True
    program := fun _ _ => True
    bookmark_shift := fun _ => trivial }

section Relocated

variable {streams : StreamCoupling} {d lead : Nat} {tokens others : List Token} {p p' : Program}

theorem instructions_relocated {n : Nat} {i i' : Instruction} (h : Decodes tokens p)
    (h' : Decodes others p') (he : Embeds d tokens others) (hi : p.instructions[n]? = some i)
    (hi' : p'.instructions[d + n]? = some i') : (relocated streams d lead).Instructions i i' := by
  constructor
  case op =>
    have ht := List.getElem?_eq_getElem (h.lt_length hi)
    exact h.op_eq h' hi hi' ht (he.token ht)
  case index =>
    rw [h.index_eq hi, h'.index_eq hi', Nat.add_comm]
    rfl
  case partner =>
    intro hbracket m m' _
    -- both brackets name their partners, so no jump table is looked at
    have hpartner : ∃ v : Nat, i.partner = some v ∧ i'.partner = some ((d + v : Nat) : Int) := by
      cases hop : i.op with
      | openLoop =>
        obtain ⟨c, hm⟩ := h.exists_end hi hop
        exact ⟨c, h.partner_of_opens hm hi, h'.partner_of_opens (he.pair hm) hi'⟩
      | closeLoop =>
        obtain ⟨o, hm⟩ := h.exists_beginning hi hop
        exact ⟨o, h.partner_of_closes hm hi, h'.partner_of_closes (he.pair hm) hi'⟩
      | moveLeft | moveRight | increment | decrement | output | input =>
        rw [hop] at hbracket
        exact absurd hbracket nofun
    obtain ⟨v, hv, hv'⟩ := hpartner
    rw [Machine.partner?, Machine.partner?, hv, hv', Nat.add_comm]
    rfl

theorem instructions_relocated_get? {n : Nat} (h : Decodes tokens p) (h' : Decodes others p')
    (he : Embeds d tokens others) (hn : n < tokens.length) :
    Option.Rel (relocated streams d lead).Instructions (p.get? n)
      (p'.get? ((n : Int) + (relocated streams d lead).shift)) := by
  obtain ⟨i, hi⟩ := h.exists_instruction hn
  have hn' : d + n < others.length :=
    (List.getElem?_eq_some_iff.1 (he.token (List.getElem?_eq_getElem hn))).1
  obtain ⟨i', hi'⟩ := h'.exists_instruction hn'
  have hplace : (n : Int) + (relocated streams d lead).shift = ((d + n : Nat) : Int) := by
    rw [Nat.add_comm]
    rfl
  rw [hplace, get?_natCast, get?_natCast, hi, hi']
  exact .some (instructions_relocated h h' he hi hi')

end Relocated

end Coupling

/-! ## Runs that finish -/

section Finishes

variable {tokens : List Token} {p : Program} {traced : Bool}

/-- A run that finishes has come to the end of its program with no loop around it. -/
theorem advanceFor_finishes (h : Decodes tokens p) (n : Nat) {r : Run} (hr : OnStack tokens r)
    (hrunning : r.phase = .running) (hn : (Run.advanceFor p traced n r).phase = .finished) :
    ∃ j m trace, Run.advanceFor p traced j r = ⟨.running, p.size, m, trace⟩ ∧ m.resume = [] ∧
      Run.advanceFor p traced n r = .finish traced p.size m trace := by
  induction n generalizing r with
  | zero => exact Phase.noConfusion (hrunning.symm.trans hn)
  | succ n ih =>
    obtain ⟨phase, position, m, trace⟩ := r
    obtain rfl : phase = .running := hrunning
    have hnext := advance_onStack h traced hr
    obtain ⟨⟨k, us, hposition, hk, hus, hresume⟩, -⟩ := hr
    obtain rfl : position = k := hposition
    rw [Run.advanceFor_succ] at hn ⊢
    rcases Nat.lt_or_eq_of_le hk with hlt | rfl
    · -- an instruction is executed, and the run goes on
      obtain ⟨i, hi⟩ := h.exists_instruction hlt
      obtain ⟨noted, hadvance⟩ := Run.advance_of_instruction traced m trace hi
      rw [hadvance] at hn hnext ⊢
      cases happly : m.apply i with
      | moved next m' =>
        rw [happly] at hn hnext
        obtain ⟨j, m'', trace', hj, hempty, hfinish⟩ := ih hnext rfl hn
        refine ⟨j + 1, m'', trace', ?_, hempty, hfinish⟩
        rw [Run.advanceFor_succ, hadvance, happly, hj]
      | stopped fault m' =>
        rw [happly, Run.ofOutcome, Run.advanceFor_of_ended p traced n rfl] at hn
        exact Phase.noConfusion hn
    · -- the run is at the end
      obtain rfl := unfinished_at_end h hus
      rw [← h.size_eq, Run.advance_at_end]
      exact ⟨0, m, trace, rfl, hresume, Run.advanceFor_of_ended p traced n rfl⟩

end Finishes

/-! ## The two parts of a run -/

section Parts

variable {a b : List Token} {p q pq : Program} {traced : Bool}

/-- **A run of the whole begins as a run of the first part**, up to the end of the part. -/
theorem front_runs (ha : Decodes a p) (hpq : Decodes (a ++ b) pq) (m : Machine) (n : Nat)
    (hn : (m.run p n traced).phase ≠ .finished) :
    (Coupling.relocated .same 0 0).Runs (m.run p n traced) (m.run pq n traced) := by
  have hstart : (Coupling.relocated .same 0 0).Runs (.start m p #[]) (.start m pq #[]) :=
    ⟨rfl, rfl, rfl, rfl, trivial, rfl, trivial, rfl, rfl⟩
  refine hstart.advanceFor n ?_
  intro k hk hrunning
  have hstack := advanceFor_onStack ha traced k (start_onStack a m p #[])
  have hnext := Run.advanceFor_succ_last p traced k (.start m p #[])
  generalize hr : Run.advanceFor p traced k (.start m p #[]) = r at hrunning hstack hnext ⊢
  obtain ⟨phase, position, m', trace⟩ := r
  obtain ⟨⟨i, us, hposition, hi, -⟩, -⟩ := hstack
  obtain rfl : position = i := hposition
  have hlt : i < a.length := by
    refine Nat.lt_of_le_of_ne hi ?_
    rintro rfl
    -- a run at the end would finish with the next step
    cases phase with
    | finished | failed fault => exact absurd hrunning nofun
    | running =>
      rw [← ha.size_eq, Run.advance_at_end] at hnext
      apply hn
      rw [Machine.run, Run.advanceFor_of_le hk (by rw [hnext]; rfl), hnext]
      rfl
  refine ⟨?_, fun _ => Coupling.instructions_relocated_get? ha hpq (embeds_front a b) hlt⟩
  have hwhole : i < pq.size := by
    rw [hpq.size_eq, List.length_append]
    omega
  rw [ha.size_eq]
  exact iff_of_true (by simpa [Coupling.relocated] using hwhole) (Int.ofNat_lt.2 hlt)

/-- When the first part has finished, the whole stands at the beginning of the second one, with
nothing left of the loops of the first. -/
theorem back_starts (ha : Decodes a p) (hpq : Decodes (a ++ b) pq) {m : Machine} {n : Nat}
    (hn : (m.run p n traced).phase = .finished) :
    ∃ j, (Coupling.relocated .flushedOnce a.length (m.run p n traced).machine.steps).Runs
      (.start (m.run p n traced).machine q #[]) (m.run pq j traced) := by
  obtain ⟨j, m', trace, hj, hempty, hfinish⟩ :=
    advanceFor_finishes ha n (start_onStack a m p #[]) rfl hn
  have hmachine : (m.run p n traced).machine = m'.flush := by
    rw [Machine.run, hfinish]
    rfl
  change m.run p j traced = _ at hj
  have hfront : (m.run p j traced).phase ≠ .finished := by
    rw [hj]
    exact nofun
  obtain ⟨hphase, hposition, hm⟩ := front_runs ha hpq m j hfront
  rw [hj] at hphase hposition hm
  rw [hmachine]
  refine ⟨j, hphase, ?_, hm.tape, ?_, trivial, ?_, trivial, hm.supply, ?_⟩
  · rw [hposition, ha.size_eq]
    exact Int.add_comm _ _
  · rw [hm.resume, hempty]
    rfl
  · rw [hm.steps]
    exact (Nat.zero_add _).symm
  · exact congrArg Output.flush hm.output

/-- **A run of the whole ends as a run of the second part**, from the end of the first part on. -/
theorem back_runs (hb : Decodes b q) (hpq : Decodes (a ++ b) pq) (traced : Bool) {r r' : Run}
    {lead : Nat} (h : (Coupling.relocated .flushedOnce a.length lead).Runs r r')
    (hr : OnStack b r) (n : Nat) :
    (Coupling.relocated .flushedOnce a.length lead).Runs (Run.advanceFor q traced n r)
      (Run.advanceFor pq traced n r') := by
  refine h.advanceFor n ?_
  intro k _ _
  obtain ⟨⟨i, us, hposition, hi, -⟩, -⟩ := advanceFor_onStack hb traced k hr
  rw [hposition]
  constructor
  case within =>
    rw [hb.size_eq, hpq.size_eq, List.length_append]
    simp only [Coupling.relocated]
    omega
  case instruction =>
    intro hlt
    rw [hb.size_eq] at hlt
    exact Coupling.instructions_relocated_get? hb hpq (embeds_back a b) (Int.ofNat_lt.1 hlt)

end Parts

/-! ## Ends of runs -/

/-- What is seen of a run that has come to an end. -/
structure Ending where
  /-- Whether it has finished, or why it has failed. -/
  phase : Phase
  /-- Where it stands. -/
  position : Int
  /-- The tape, with the pointer. -/
  tape : Tape
  /-- The bytes that wait, and the rest of the input. -/
  supply : Supply
  /-- The bytes that have been written. -/
  written : List UInt8
  /-- The number of instructions executed. -/
  steps : Nat

/-- What is seen of a run. -/
def Run.ending (r : Run) : Ending :=
  ⟨r.phase, r.position, r.machine.tape, r.machine.supply, r.machine.output.contents,
    r.machine.steps⟩

/-- The same end of a program that stands some places further on, after some other instructions. -/
def Ending.after (e : Ending) (d : Int) (steps : Nat) : Ending :=
  { e with phase := e.phase.shifted d, position := e.position + d, steps := steps + e.steps }

/-- A run of a program from a machine comes to an end. -/
def Machine.Ends (m : Machine) (p : Program) (traced : Bool) (e : Ending) : Prop :=
  ∃ n, (m.run p n traced).isRunning = false ∧ (m.run p n traced).ending = e

/-- Runs in step whose streams look the same are seen to end in the same way. -/
theorem Coupling.Runs.ending_eq {c : Coupling} {r r' : Run} (h : c.Runs r r')
    (hsupply : ∀ {s s'}, c.supply s s' → s' = s)
    (houtput : ∀ {o o'}, c.output o o' → o'.contents = o.contents) :
    r'.ending = r.ending.after c.shift c.lead := by
  obtain ⟨hphase, hposition, hm⟩ := h
  rw [Run.ending, hphase, hposition, hm.tape, hsupply hm.supply, houtput hm.output, hm.steps,
    Nat.add_comm]
  rfl

@[simp] theorem Ending.after_zero (e : Ending) : e.after 0 0 = e := by
  simp only [after, Phase.shifted_zero, Int.add_zero, Nat.zero_add]

section Ends

variable {a b : List Token} {p q pq : Program} {m : Machine} {traced : Bool}

/-- A run of the first part that fails is a run of the whole. -/
theorem ends_of_front (ha : Decodes a p) (hpq : Decodes (a ++ b) pq) {n : Nat}
    (hn : (m.run p n traced).phase ≠ .finished) :
    (m.run pq n traced).isRunning = (m.run p n traced).isRunning ∧
      (m.run pq n traced).ending = (m.run p n traced).ending := by
  have h := front_runs ha hpq m n hn
  refine ⟨h.isRunning, ?_⟩
  rw [h.ending_eq Eq.symm fun ho => congrArg Output.contents (Eq.symm ho)]
  exact (m.run p n traced).ending.after_zero

/-- A run of the first part that finishes goes on in the whole as a run of the second part. -/
theorem ends_of_back (ha : Decodes a p) (hb : Decodes b q) (hpq : Decodes (a ++ b) pq) {n : Nat}
    (hn : (m.run p n traced).phase = .finished) :
    ∃ j, ∀ k, (m.run pq (j + k) traced).isRunning =
        ((m.run p n traced).machine.run q k traced).isRunning ∧
      (m.run pq (j + k) traced).ending =
        ((m.run p n traced).machine.run q k traced).ending.after a.length
          (m.run p n traced).machine.steps := by
  obtain ⟨j, hj⟩ := back_starts (q := q) ha hpq hn
  refine ⟨j, ?_⟩
  intro k
  have h := back_runs hb hpq traced hj (start_onStack b _ q #[]) k
  rw [Machine.run_add]
  refine ⟨h.isRunning, h.ending_eq Eq.symm ?_⟩
  intro o o' ho
  rw [show o = o'.flush from ho, Output.contents_flush]

end Ends

/-- **Running a concatenation is running its parts in sequence.** The texts of two programs are a
program together. A run of it ends exactly as a run of the first program ends that fails, or as a
run of the second one ends on the machine that the first one has left when it finished, with all its
places moved behind the first program and the steps of both runs together. -/
theorem run_append {a b : String} {p q : Program}
    (ha : (decode (Token.ofText a)).outcome = .ok p)
    (hb : (decode (Token.ofText b)).outcome = .ok q) :
    ∃ pq, (decode (Token.ofText (a ++ b))).outcome = .ok pq ∧
      ∀ (m : Machine) (traced : Bool) (e : Ending),
        m.Ends pq traced e ↔
          (m.Ends p traced e ∧ e.phase ≠ .finished) ∨
            ∃ n e', (m.run p n traced).phase = .finished ∧
              (m.run p n traced).machine.Ends q traced e' ∧
              e = e'.after a.length (m.run p n traced).machine.steps := by
  have hpa := decodes_of_decode ha
  have hqb := decodes_of_decode hb
  obtain ⟨pq, hpq, hdecode⟩ := hpa.append hqb
  have htext : Token.ofText (a ++ b) = Token.ofText a ++ Token.ofText b := by
    rw [Token.ofText, String.toList_append, List.map_append]
    rfl
  have hlength : (Token.ofText a).length = a.length := by
    rw [Token.ofText, List.length_map, String.length_toList]
  rw [htext]
  refine ⟨pq, hdecode, ?_⟩
  intro m traced e
  constructor
  · rintro ⟨n, hended, rfl⟩
    by_cases hn : (m.run p n traced).phase = .finished
    · -- the second part has run for long enough
      obtain ⟨j, hj⟩ := ends_of_back hpa hqb hpq hn
      obtain ⟨hrunning, hending⟩ := hj n
      have hsame : m.run pq (j + n) traced = m.run pq n traced :=
        Run.advanceFor_of_le (Nat.le_add_left n j) hended
      rw [hsame] at hrunning hending
      rw [hlength] at hending
      exact Or.inr ⟨n, _, hn, ⟨n, hrunning ▸ hended, rfl⟩, hending⟩
    · obtain ⟨hrunning, hending⟩ := ends_of_front hpa hpq hn
      rw [hending]
      exact Or.inl ⟨⟨n, hrunning ▸ hended, rfl⟩, hn⟩
  · rintro (⟨⟨n, hended, rfl⟩, hn⟩ | ⟨n, e', hn, ⟨k, hended, rfl⟩, rfl⟩)
    · obtain ⟨hrunning, hending⟩ := ends_of_front hpa hpq hn
      exact ⟨n, hrunning.trans hended, hending⟩
    · obtain ⟨j, hj⟩ := ends_of_back hpa hqb hpq hn
      obtain ⟨hrunning, hending⟩ := hj k
      rw [hlength] at hending
      exact ⟨j + k, hrunning.trans hended, hending⟩

/-- The second part leaves the tape: the whole fails one place further on. -/
theorem run_append_outside : ∃ p q pq, (decode (Token.ofText "+")).outcome = .ok p ∧
    (decode (Token.ofText "<")).outcome = .ok q ∧
    (decode (Token.ofText ("+" ++ "<"))).outcome = .ok pq ∧
    ∃ e, (Machine.new .empty (.bytes #[] 0)).Ends pq false e ∧
      e.phase = .failed (.outsideTape 1 (-1) 65536) ∧ e.position = 1 ∧ e.steps = 1 := by
  have hparts : ∃ p q, (decode (Token.ofText "+")).outcome = .ok p ∧
      (decode (Token.ofText "<")).outcome = .ok q ∧
      let first := (Machine.new .empty (.bytes #[] 0)).run p 2
      first.phase = .finished ∧ first.machine.steps = 1 ∧
        (first.machine.run q 1).phase = .failed (.outsideTape 0 (-1) 65536) ∧
        (first.machine.run q 1).position = 0 ∧ (first.machine.run q 1).machine.steps = 0 :=
    ⟨_, _, rfl, rfl, rfl, rfl, rfl, rfl, rfl⟩
  obtain ⟨p, q, hp, hq, hfirst, hsteps, hphase, hposition, hsteps'⟩ := hparts
  obtain ⟨pq, hpq, hends⟩ := run_append hp hq
  refine ⟨p, q, pq, hp, hq, hpq, _, (hends _ false _).2 (Or.inr ⟨2, _, hfirst, ⟨1, ?_, rfl⟩, rfl⟩),
    ?_, ?_, ?_⟩
  · rw [Run.isRunning, hphase]
  · rw [Ending.after, Run.ending, hphase]
    rfl
  · rw [Ending.after, Run.ending, hposition]
    rfl
  · rw [Ending.after, Run.ending, hsteps, hsteps']
    rfl

end TapeLanguage
