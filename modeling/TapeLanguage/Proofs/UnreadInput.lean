import TapeLanguage.Proofs.Completed
import TapeLanguage.Proofs.Faults
import TapeLanguage.Proofs.StreamKinds

/-!
# Input that is not read

A machine reads no byte before an instruction asks for it. So input behind its own input
(`followedBy`) changes nothing until an instruction wants a byte and none is left: an instruction
that finds its byte does the same with more input behind (`Machine.apply_followedBy`), and a run
stays the same up to the first place where it wants input (`Run.advanceFor_followedBy`). On bytes
these places are exactly those at which a run fails for want of input (`Run.advance_of_wantsInput`,
`Run.not_exhausted_of_advance`).

Hence a run that does not lack input is determined by the bytes that it has taken, and a run that
lacks input is a part of the run on every longer input (`run_ignores_unread`).
-/

set_option autoImplicit false

namespace TapeLanguage

/-! ## More input behind -/

namespace Input

/-- An input with the units of another one of its kind behind its own. -/
def followedBy : Input → Input → Input
  | bytes rest, bytes more => bytes (rest ++ more)
  | codePoints rest, codePoints more => codePoints (rest ++ more)
  | chunks rest, chunks more => chunks (rest ++ more)
  | input, _ => input

/-- One reading takes nothing of what stands behind an input that holds a byte. -/
theorem read_followedBy (input : Input) (h : input.contents ≠ []) (more : Input) :
    (input.followedBy more).read = (input.read.1, input.read.2.followedBy more) := by
  cases input with
  | bytes rest | chunks rest =>
    cases rest with
    | nil => exact absurd rfl h
    | cons unit rest => cases more <;> rfl
  | codePoints rest =>
    cases rest with
    | nil => exact absurd rfl h
    | cons c rest => cases c <;> cases more <;> rfl
  | wrapped rest | interrupting rest =>
    cases rest with
    | nil => exact absurd rfl h
    | cons byte rest => rfl
  | closed => exact absurd rfl h

/-- An input of the same kind of which nothing is left. -/
def spent : Input → Input
  | bytes _ => bytes []
  | wrapped _ => wrapped []
  | codePoints _ => codePoints []
  | chunks _ => chunks []
  | interrupting _ => interrupting []
  | closed => closed

theorem spent_drop (input : Input) (k : Nat) : (input.drop k).spent = input.spent := by
  cases input <;> rfl

/-- An input without early ends that gives no byte has no unit left. -/
theorem Steady.eq_spent {input : Input} (h : input.Steady) (hnil : input.contents = []) :
    input = input.spent := by
  cases input with
  | bytes rest => exact congrArg bytes hnil
  | wrapped rest => exact congrArg wrapped hnil
  | codePoints rest =>
    cases rest with
    | nil => rfl
    | cons c rest =>
      have hc := (List.flatMap_eq_nil_iff.1 hnil) c List.mem_cons_self
      exact absurd hc (h c List.mem_cons_self)
  | chunks rest =>
    cases rest with
    | nil => rfl
    | cons chunk rest =>
      have hchunk := (List.flatten_eq_nil_iff.1 hnil) chunk List.mem_cons_self
      exact absurd hchunk (h chunk List.mem_cons_self)
  | interrupting rest | closed => exact absurd h id

end Input

namespace Supply

/-- A supply with more input behind. -/
def followedBy (s : Supply) (more : Input) : Supply :=
  ⟨s.queue, s.input.followedBy more⟩

/-- A byte that is there is fetched without what stands behind. -/
theorem fetch_followedBy {s : Supply} (h : s.bytes ≠ []) (more : Input) :
    (s.followedBy more).fetch = (s.fetch.1, s.fetch.2.followedBy more) := by
  obtain ⟨queue, input⟩ := s
  cases queue with
  | cons byte queue => rfl
  | nil =>
    have hread := input.read_followedBy h more
    simp only [fetch, followedBy, hread]

end Supply

namespace Machine

/-- A machine with more input behind. -/
def followedBy (m : Machine) (more : Input) : Machine :=
  { m with input := m.input.followedBy more }

end Machine

/-- An outcome with more input behind. -/
def Outcome.followedBy : Outcome → Input → Outcome
  | moved next m, more => .moved next (m.followedBy more)
  | stopped fault m, more => .stopped fault (m.followedBy more)

/-! ## One instruction -/

namespace Machine

variable (m : Machine) (more : Input)

theorem move_followedBy (delta position : Int) :
    (m.followedBy more).move delta position = (m.move delta position).followedBy more := by
  have htape : (m.followedBy more).tape = m.tape := rfl
  rw [move, move, htape]
  cases m.tape.move? delta <;> rfl

theorem enter_followedBy (i : Instruction) :
    (m.followedBy more).enter i = (m.enter i).followedBy more := by
  have htape : (m.followedBy more).tape = m.tape := rfl
  have hpartner : (m.followedBy more).partner? i = m.partner? i := rfl
  rw [enter, enter, htape, hpartner]
  by_cases hcell : m.tape.read = 0
  · rw [if_pos hcell, if_pos hcell]
    cases m.partner? i <;> rfl
  · rw [if_neg hcell, if_neg hcell]
    rfl

theorem repeatOrLeave_followedBy (i : Instruction) :
    (m.followedBy more).repeatOrLeave i = (m.repeatOrLeave i).followedBy more := by
  have htape : (m.followedBy more).tape = m.tape := rfl
  have hresume : (m.followedBy more).resume = m.resume := rfl
  have hpartner : (m.followedBy more).partner? i = m.partner? i := rfl
  rw [repeatOrLeave, repeatOrLeave, htape, hresume, hpartner]
  by_cases hcell : m.tape.read = 0
  · rw [if_pos hcell, if_pos hcell]
    rfl
  · rw [if_neg hcell, if_neg hcell]
    cases m.resume with
    | cons position outer => rfl
    | nil => cases m.partner? i <;> rfl

theorem take_followedBy (h : m.supply.bytes ≠ []) (position : Int) :
    (m.followedBy more).take position = (m.take position).followedBy more := by
  have hsupply : (m.followedBy more).supply = m.supply.followedBy more := rfl
  rw [take_eq, take_eq, hsupply, Supply.fetch_followedBy h]
  obtain ⟨result, rest⟩ := m.supply.fetch
  cases result <;> rfl

/-- **An instruction that finds its byte does the same with more input behind.** -/
theorem apply_followedBy {i : Instruction} (h : i.op = .input → m.supply.bytes ≠ []) :
    (m.followedBy more).apply i = (m.apply i).followedBy more := by
  rw [apply, apply]
  cases hop : i.op with
  | moveRight => exact m.move_followedBy more 1 i.index
  | moveLeft => exact m.move_followedBy more (-1) i.index
  | increment | decrement | output => rfl
  | input => exact m.take_followedBy more (h hop) i.index
  | openLoop => exact m.enter_followedBy more i
  | closeLoop => exact m.repeatOrLeave_followedBy more i

end Machine

/-! ## A run up to the place where it wants input -/

namespace Run

/-- A run with more input behind. -/
def followedBy (r : Run) (more : Input) : Run :=
  { r with machine := r.machine.followedBy more }

variable {p : Program} {traced : Bool} {r : Run}

/-- A run wants input when it is about to take a byte and none is left. -/
theorem wantsInput_iff : r.wantsInput p = true ↔
    ∃ i, r.next? p = some i ∧ i.op = .input ∧ r.machine.supply.bytes = [] := by
  simp only [wantsInput, next?, Supply.bytes, Machine.supply, Bool.and_eq_true, decide_eq_true_eq,
    Option.any_eq_true, beq_iff_eq, List.isEmpty_iff, Option.ite_none_right_eq_some,
    List.append_eq_nil_iff]
  constructor
  · rintro ⟨⟨⟨hrunning, i, hi, hop⟩, hqueue⟩, hcontents⟩
    exact ⟨i, ⟨hrunning, hi⟩, hop, hqueue, hcontents⟩
  · rintro ⟨i, ⟨hrunning, hi⟩, hop, hqueue, hcontents⟩
    exact ⟨⟨⟨hrunning, i, hi, hop⟩, hqueue⟩, hcontents⟩

/-- An advance does the same with more input behind, unless the run wants input. -/
theorem advance_followedBy (h : r.wantsInput p = false) (more : Input) :
    advance p traced (r.followedBy more) = (advance p traced r).followedBy more := by
  have hbyte : ∀ i, r.next? p = some i → i.op = .input → r.machine.supply.bytes ≠ [] := by
    intro i hi hop hnil
    exact Bool.false_ne_true (h.symm.trans (wantsInput_iff.2 ⟨i, hi, hop, hnil⟩))
  obtain ⟨phase, position, m, trace⟩ := r
  cases phase with
  | finished | failed fault => rfl
  | running =>
    rw [followedBy, advance, advance]
    by_cases hlt : position < p.size
    · rw [if_pos hlt, if_pos hlt]
      cases hi : p.get? position with
      | none => rfl
      | some i =>
        -- the state that is noted does not show the input
        have hnext : next? p ⟨.running, position, m, trace⟩ = some i :=
          (if_pos (decide_eq_true hlt)).trans hi
        have happly := m.apply_followedBy more (hbyte i hnext)
        dsimp only
        rw [happly]
        cases m.apply i <;> rfl
    · rw [if_neg hlt, if_neg hlt]
      rfl

/-- **A run does the same with more input behind**, as long as it does not want input. -/
theorem advanceFor_followedBy (n : Nat) (more : Input)
    (h : ∀ k, k < n → (advanceFor p traced k r).wantsInput p = false) :
    advanceFor p traced n (r.followedBy more) = (advanceFor p traced n r).followedBy more := by
  induction n with
  | zero => rfl
  | succ n ih =>
    rw [advanceFor_succ_last, advanceFor_succ_last, ih fun k hk => h k (Nat.lt_succ_of_lt hk),
      advance_followedBy (h n n.lt_succ_self)]

/-- A run wants input at some first place, or it does not want any. -/
theorem first_want_or_none (p : Program) (traced : Bool) (n : Nat) (r : Run) :
    (∀ k, k < n → (advanceFor p traced k r).wantsInput p = false) ∨
      ∃ k, k < n ∧ (advanceFor p traced k r).wantsInput p = true ∧
        ∀ j, j < k → (advanceFor p traced j r).wantsInput p = false := by
  induction n with
  | zero => exact Or.inl fun k hk => absurd hk (Nat.not_lt_zero k)
  | succ n ih =>
    rcases ih with hnone | ⟨k, hk, hwants, hbefore⟩
    · cases hn : (advanceFor p traced n r).wantsInput p with
      | true => exact Or.inr ⟨n, n.lt_succ_self, hn, hnone⟩
      | false =>
        refine Or.inl ?_
        intro k hk
        rcases Nat.lt_succ_iff_lt_or_eq.1 hk with hlt | rfl
        · exact hnone k hlt
        · exact hn
    · exact Or.inr ⟨k, Nat.lt_succ_of_lt hk, hwants, hbefore⟩

end Run

/-! ## Lacking input -/

/-- Only an input instruction fails for want of input. -/
theorem Machine.op_of_exhausted {m m' : Machine} {i : Instruction} {position : Int}
    (h : m.apply i = .stopped (.inputExhausted position) m') : i.op = .input := by
  rw [apply] at h
  cases hop : i.op with
  | input => rfl
  | moveLeft | moveRight =>
    rw [hop] at h
    exact Fault.noConfusion (outside_of_move h).2
  | increment | decrement | output =>
    rw [hop] at h
    exact Outcome.noConfusion h
  | openLoop =>
    simp only [hop, enter] at h
    split at h
    · split at h <;> cases h
    · cases h
  | closeLoop =>
    simp only [hop, repeatOrLeave] at h
    split at h
    · cases h
    · split at h
      · cases h
      · split at h <;> cases h

/-- An instruction that fails for want of input takes a byte, and none is left. -/
theorem Machine.bytes_of_exhausted {m m' : Machine} {i : Instruction} {position : Int}
    (hinput : m.input.Steady) (h : m.apply i = .stopped (.inputExhausted position) m') :
    i.op = .input ∧ m.supply.bytes = [] := by
  have hop := op_of_exhausted h
  refine ⟨hop, ?_⟩
  rw [m.apply_of_input hop, ← Prod.eta m.supply.fetch] at h
  cases hfetch : m.supply.fetch.1 with
  | ok byte =>
    rw [hfetch] at h
    exact Outcome.noConfusion h
  | error lack => exact Supply.bytes_of_lack hinput hfetch

namespace Run

variable {p : Program} {traced : Bool} {r : Run}

/-- The run has failed for want of input. -/
def Exhausted (r : Run) : Prop :=
  ∃ position, r.phase = .failed (.inputExhausted position)

theorem Exhausted.ended (h : r.Exhausted) : r.isRunning = false := by
  obtain ⟨position, hphase⟩ := h
  rw [isRunning, hphase]

/-- **A run that wants input fails for want of it**, with the machine as it was. -/
theorem advance_of_wantsInput (traced : Bool) (h : r.wantsInput p = true)
    (hinput : r.machine.input.Steady) :
    (advance p traced r).Exhausted ∧ (advance p traced r).position = r.position ∧
      (advance p traced r).machine = r.machine := by
  obtain ⟨i, hi, hop, hnil⟩ := wantsInput_iff.1 h
  obtain ⟨noted, hadvance⟩ := advance_of_next traced hi
  have hfetch := Supply.fetch_of_nil hinput hnil
  rw [hadvance, r.machine.apply_of_input hop, hfetch]
  exact ⟨⟨i.index, rfl⟩, rfl, rfl⟩

/-- A run fails for want of input only where it wants input. -/
theorem not_exhausted_of_advance (h : r.wantsInput p = false) (hinput : r.machine.input.Steady)
    (hr : ¬ r.Exhausted) : ¬ (advance p traced r).Exhausted := by
  rintro ⟨lacking, hphase⟩
  obtain ⟨phase, position, m, trace⟩ := r
  cases phase with
  | finished => exact Phase.noConfusion hphase
  | failed fault => exact hr ⟨lacking, hphase⟩
  | running =>
    rw [advance] at hphase
    split at hphase
    · next hlt =>
      split at hphase
      · next i hi =>
        cases happly : m.apply i with
        | moved next m' =>
          rw [happly] at hphase
          exact Phase.noConfusion hphase
        | stopped fault m' =>
          rw [happly] at hphase
          obtain rfl := Phase.failed.inj hphase
          -- the instruction is the one that the run was about to execute
          obtain ⟨hop, hnil⟩ := Machine.bytes_of_exhausted hinput happly
          have hnext : next? p ⟨.running, position, m, trace⟩ = some i :=
            (if_pos (decide_eq_true hlt)).trans hi
          exact Bool.false_ne_true (h.symm.trans (wantsInput_iff.2 ⟨i, hnext, hop, hnil⟩))
      · exact Fault.noConfusion (Phase.failed.inj hphase)
    · exact Phase.noConfusion hphase

end Run

namespace Run

variable {p : Program} {traced : Bool} {r : Run}

/-- Reading on, an input without early ends stays one. -/
theorem steady_advanceFor (n : Nat) (h : r.machine.input.Steady) :
    (advanceFor p traced n r).machine.input.Steady := by
  obtain ⟨k, hk⟩ := input_advanceFor p traced n r
  rw [hk]
  exact h.drop k

/-- A run that wants input somewhere stays there for want of it. -/
theorem advanceFor_of_wantsInput {k n : Nat} (hk : k < n) (h : r.machine.input.Steady)
    (hwants : (advanceFor p traced k r).wantsInput p = true) :
    (advanceFor p traced n r).Exhausted ∧
      (advanceFor p traced n r).position = (advanceFor p traced k r).position ∧
      (advanceFor p traced n r).machine = (advanceFor p traced k r).machine := by
  have hadvance := advance_of_wantsInput traced hwants (steady_advanceFor k h)
  rw [← advanceFor_succ_last] at hadvance
  rw [advanceFor_of_le hk hadvance.1.ended]
  exact hadvance

/-- A run that wants input has taken all that there was. -/
theorem spent_of_wantsInput (k : Nat) (h : r.machine.input.Steady)
    (hwants : (advanceFor p traced k r).wantsInput p = true) :
    (advanceFor p traced k r).machine.queue = [] ∧
      (advanceFor p traced k r).machine.input = r.machine.input.spent := by
  obtain ⟨i, -, -, hnil⟩ := wantsInput_iff.1 hwants
  obtain ⟨hqueue, hcontents⟩ := List.append_eq_nil_iff.1 hnil
  obtain ⟨j, hleft⟩ := input_advanceFor p traced k r
  refine ⟨hqueue, ?_⟩
  rw [← r.machine.input.spent_drop j, ← hleft]
  exact (steady_advanceFor k h).eq_spent hcontents

/-- A run that does not want input does not fail for want of it. -/
theorem not_exhausted_of_advanceFor (n : Nat) (h : r.machine.input.Steady) (hr : ¬ r.Exhausted)
    (hwants : ∀ k, k < n → (advanceFor p traced k r).wantsInput p = false) :
    ¬ (advanceFor p traced n r).Exhausted := by
  induction n with
  | zero => exact hr
  | succ n ih =>
    rw [advanceFor_succ_last]
    exact not_exhausted_of_advance (hwants n n.lt_succ_self) (steady_advanceFor n h)
      (ih fun k hk => hwants k (Nat.lt_succ_of_lt hk))

end Run

/-! ## Bytes -/

theorem Input.steady_of_bytes {input : Input} {bytes : List UInt8} (h : input = .bytes bytes) :
    input.Steady := by
  rw [h]
  trivial

/-- The machine with other bytes to read. -/
def Machine.reading (m : Machine) (bytes : List UInt8) : Machine :=
  { m with input := .bytes bytes }

namespace Run

/-- The run with other bytes to read. -/
def reading (r : Run) (bytes : List UInt8) : Run :=
  { r with machine := r.machine.reading bytes }

variable {p : Program} {traced : Bool} {r : Run} {bytes : List UInt8}

/-- **What a run leaves of some bytes is an end of them.** -/
theorem suffix_advanceFor (p : Program) (traced : Bool) (n : Nat)
    (h : r.machine.input = .bytes bytes) :
    ∃ rest, (advanceFor p traced n r).machine.input = .bytes rest ∧ rest <:+ bytes := by
  obtain ⟨k, hk⟩ := input_advanceFor p traced n r
  rw [h] at hk
  exact ⟨bytes.drop k, hk, List.drop_suffix k bytes⟩

/-- More bytes behind bytes that are all taken are the bytes that are left. -/
theorem followedBy_eq_reading (h : r.machine.input = .bytes []) (more : List UInt8) :
    r.followedBy (.bytes more) = r.reading more := by
  rw [followedBy, Machine.followedBy, h]
  rfl

/-- A run that leaves all the bytes behind some others does not want input on these others alone. -/
theorem not_wantsInput_of_unread {unread : List UInt8} {n k : Nat}
    (h : r.machine.input = .bytes bytes) (hk : k < n)
    (hleft : (advanceFor p traced n (r.followedBy (.bytes unread))).machine.input = .bytes unread)
    (hwants : (advanceFor p traced k (r.followedBy (.bytes unread))).wantsInput p = false)
    (hbefore : ∀ j, j < k → (advanceFor p traced j r).wantsInput p = false) :
    (advanceFor p traced k r).wantsInput p = false := by
  cases hcut : (advanceFor p traced k r).wantsInput p with
  | false => rfl
  | true =>
    -- the others are all taken there, and the next instruction takes a byte
    obtain ⟨i, hi, hop, -⟩ := wantsInput_iff.1 hcut
    obtain ⟨hqueue, hspent⟩ := spent_of_wantsInput k (Input.steady_of_bytes h) hcut
    rw [h] at hspent
    have hsame := advanceFor_followedBy k (.bytes unread) hbefore
    rw [followedBy_eq_reading hspent] at hsame
    have hsupply : (advanceFor p traced k (r.followedBy (.bytes unread))).machine.supply =
        ⟨[], .bytes unread⟩ := by
      rw [hsame]
      exact congrArg (Supply.mk · (.bytes unread)) hqueue
    have hnext : next? p (advanceFor p traced k (r.followedBy (.bytes unread))) = some i := by
      rw [hsame]
      exact hi
    cases unread with
    | nil =>
      rw [← hwants]
      exact (wantsInput_iff.2 ⟨i, hnext, hop, congrArg Supply.bytes hsupply⟩).symm
    | cons byte unread =>
      -- so it takes one of the bytes behind, and that byte is not left
      have hadvance := advance_supply traced hnext
      rw [← advanceFor_succ_last, Machine.apply_input_supply _ hop, hsupply] at hadvance
      obtain ⟨left, hleft', hsuffix⟩ :=
        suffix_advanceFor p traced (n - (k + 1)) (congrArg Supply.input hadvance)
      rw [← advanceFor_add, Nat.add_sub_cancel' hk, hleft, Input.bytes.injEq] at hleft'
      have hlength := (hleft' ▸ hsuffix).length_le
      exact absurd hlength (Nat.not_succ_le_self _)

end Run

/-! ## What has been written -/

/-- An instruction keeps what has been written. -/
theorem Machine.written_prefix_apply (m : Machine) (i : Instruction) :
    m.output.contents <+: (m.apply i).machine.output.contents :=
  ⟨_, (m.contents_apply i).symm⟩

/-- **What has been written stays at the front** of all that is written later. -/
theorem Run.written_prefix_advanceFor {p : Program} {traced : Bool} {a b : Nat} (hab : a ≤ b)
    (r : Run) :
    (advanceFor p traced a r).machine.output.contents <+:
      (advanceFor p traced b r).machine.output.contents := by
  obtain ⟨d, rfl⟩ := Nat.exists_eq_add_of_le hab
  rw [advanceFor_add]
  refine machine_invariant
    (P := fun m => (advanceFor p traced a r).machine.output.contents <+: m.output.contents)
    (fun m i h => h.trans (m.written_prefix_apply i)) (fun _ h => h) ?_ p traced d List.prefix_rfl
  intro m h
  show _ <+: m.output.flush.contents
  rwa [Output.contents_flush]

/-! ## Runs on bytes -/

namespace Run

variable {p : Program} {traced : Bool} {r : Run} {bytes : List UInt8}

theorem phase_of_wantsInput (h : r.wantsInput p = true) : r.phase = .running := by
  rw [wantsInput, Bool.and_eq_true, Bool.and_eq_true, Bool.and_eq_true, Bool.and_eq_true] at h
  obtain ⟨⟨⟨⟨hrunning, -⟩, -⟩, -⟩, -⟩ := h
  cases hphase : r.phase with
  | running => rfl
  | finished | failed fault =>
    rw [isRunning, hphase] at hrunning
    exact Bool.noConfusion hrunning

/-- **A run that has not failed for want of input depends on the bytes that it has taken.** -/
theorem advanceFor_of_taken {taken unread : List UInt8} {n : Nat}
    (h : r.machine.input = .bytes taken)
    (hleft : (advanceFor p traced n (r.followedBy (.bytes unread))).machine.input = .bytes unread)
    (hfed : ¬ (advanceFor p traced n (r.followedBy (.bytes unread))).Exhausted)
    (other : List UInt8) :
    advanceFor p traced n (r.followedBy (.bytes other)) =
      (advanceFor p traced n (r.followedBy (.bytes unread))).reading other := by
  have hbytes : (r.followedBy (.bytes unread)).machine.input = .bytes (taken ++ unread) := by
    show r.machine.input.followedBy _ = _
    rw [h]
    rfl
  -- with the bytes behind no input is wanted, so none is wanted on the taken bytes alone
  have hcut : ∀ k, k < n → (advanceFor p traced k r).wantsInput p = false := by
    rcases first_want_or_none p traced n r with hnone | ⟨k, hk, hwants, hbefore⟩
    · exact hnone
    · have hnot : (advanceFor p traced k (r.followedBy (.bytes unread))).wantsInput p = false := by
        refine Bool.eq_false_iff.2 ?_
        intro hw
        exact hfed (advanceFor_of_wantsInput hk (Input.steady_of_bytes hbytes) hw).1
      rw [not_wantsInput_of_unread h hk hleft hnot hbefore] at hwants
      exact absurd hwants nofun
  rw [advanceFor_followedBy n _ hcut] at hleft ⊢
  rw [advanceFor_followedBy n _ hcut]
  -- the taken bytes are all taken
  obtain ⟨rest, hrest, -⟩ := suffix_advanceFor p traced n h
  have hempty : rest = [] := by
    change (advanceFor p traced n r).machine.input.followedBy _ = _ at hleft
    rw [hrest, Input.followedBy, Input.bytes.injEq] at hleft
    exact List.append_left_eq_self.1 hleft
  rw [hempty] at hrest
  rw [followedBy_eq_reading hrest, followedBy_eq_reading hrest]
  rfl

/-- **A run that fails for want of input is a part of the run on more input.** -/
theorem passes_of_exhausted {n : Nat} (h : r.machine.input = .bytes bytes) (hr : ¬ r.Exhausted)
    (hn : (advanceFor p traced n r).Exhausted) :
    ∃ k, k < n ∧ ∀ more,
      (advanceFor p traced k (r.followedBy (.bytes more))).phase = .running ∧
        (advanceFor p traced k (r.followedBy (.bytes more))).position =
          (advanceFor p traced n r).position ∧
        (advanceFor p traced k (r.followedBy (.bytes more))).machine =
          (advanceFor p traced n r).machine.reading more := by
  have hsteady := Input.steady_of_bytes h
  rcases first_want_or_none p traced n r with hnone | ⟨k, hk, hwants, hbefore⟩
  · exact absurd hn (not_exhausted_of_advanceFor n hsteady hr hnone)
  · obtain ⟨-, hposition, hmachine⟩ := advanceFor_of_wantsInput hk hsteady hwants
    refine ⟨k, hk, ?_⟩
    intro more
    have hrunning := phase_of_wantsInput hwants
    have hspent := (spent_of_wantsInput k hsteady hwants).2
    rw [h] at hspent
    rw [advanceFor_followedBy k _ hbefore, hposition, hmachine, followedBy_eq_reading hspent]
    exact ⟨hrunning, rfl, rfl⟩

end Run

/-- **A run depends on the bytes that it takes, and more input only extends it.** A run on some
bytes takes the first of them. If it has not failed for want of input, it is the same run on every
input that begins with the bytes taken, but for what is left unread. If it has failed for want of
input, the run on every longer input passes through the state in which it failed, with exactly the
bytes behind unread, so that what was written until then is at the front of all that is written. -/
theorem run_ignores_unread (m : Machine) (p : Program) (n : Nat) (traced : Bool)
    (bytes : List UInt8) :
    let r := (m.reading bytes).run p n traced
    (∃ taken unread, bytes = taken ++ unread ∧ r.machine.input = .bytes unread ∧
      ((∀ position, r.phase ≠ .failed (.inputExhausted position)) → ∀ other,
        (m.reading (taken ++ other)).run p n traced = r.reading other)) ∧
    ∀ position, r.phase = .failed (.inputExhausted position) →
      ∃ k, k < n ∧ ∀ more,
        let longer := fun j => (m.reading (bytes ++ more)).run p j traced
        (longer k).phase = .running ∧ (longer k).position = r.position ∧
          (longer k).machine = r.machine.reading more ∧
          ∀ j, k ≤ j → r.machine.output.contents <+: (longer j).machine.output.contents := by
  intro r
  have hinput : (Run.start (m.reading bytes) p #[]).machine.input = .bytes bytes := rfl
  constructor
  · obtain ⟨unread, hunread, taken, rfl⟩ :=
      Run.suffix_advanceFor p traced n hinput
    refine ⟨taken, unread, rfl, hunread, ?_⟩
    intro hfed other
    have htaken : (Run.start (m.reading taken) p #[]).machine.input = .bytes taken := rfl
    refine Run.advanceFor_of_taken htaken hunread ?_ other
    rintro ⟨position, hphase⟩
    exact hfed position hphase
  · intro position hphase
    have hfresh : ¬ (Run.start (m.reading bytes) p #[]).Exhausted := nofun
    obtain ⟨k, hk, hpasses⟩ := Run.passes_of_exhausted hinput hfresh ⟨position, hphase⟩
    refine ⟨k, hk, ?_⟩
    intro more longer
    obtain ⟨hrunning, hposition, hmachine⟩ := hpasses more
    refine ⟨hrunning, hposition, hmachine, ?_⟩
    intro j hj
    have hwritten : (longer k).machine.output = (r.machine.reading more).output :=
      congrArg Machine.output hmachine
    rw [show r.machine.output = _ from hwritten.symm]
    exact Run.written_prefix_advanceFor hj _

/-- Two of three bytes are taken, so that the third one does not matter; one byte is too few, and
what is done with it is done with any bytes behind. -/
theorem run_ignores_unread_echo : ∃ p, (Program.decode (Token.ofText ",.,")).outcome = .ok p ∧
    let on := fun bytes n => ((Machine.new .empty (.bytes #[] 0)).reading bytes).run p n
    (on [7, 8, 9] 4).phase = .finished ∧ (on [7, 8, 5, 5] 4) = (on [7, 8, 9] 4).reading [5, 5] ∧
      (on [7] 4).phase = .failed (.inputExhausted 2) ∧ (on [7] 4).machine.output.contents = [7] ∧
      ∃ k, k < 4 ∧ ∀ more j, k ≤ j → [7] <+: (on (7 :: more) j).machine.output.contents := by
  have hdecoded : ∃ p, (Program.decode (Token.ofText ",.,")).outcome = .ok p ∧
      let on := fun bytes n => ((Machine.new .empty (.bytes #[] 0)).reading bytes).run p n
      (on [7, 8, 9] 4).phase = .finished ∧ (on [7, 8, 9] 4).machine.input = .bytes [9] ∧
        (on [7] 4).phase = .failed (.inputExhausted 2) ∧
        (on [7] 4).machine.output.contents = [7] :=
    ⟨_, rfl, rfl, rfl, rfl, rfl⟩
  obtain ⟨p, hp, hfinished, hleft, hfailed, hwritten⟩ := hdecoded
  refine ⟨p, hp, hfinished, ?_, hfailed, hwritten, ?_⟩
  · obtain ⟨⟨taken, unread, hsplit, hunread, hother⟩, -⟩ :=
      run_ignores_unread (.new .empty (.bytes #[] 0)) p 4 false [7, 8, 9]
    obtain rfl : [9] = unread := Input.bytes.inj (hleft.symm.trans hunread)
    obtain rfl : [7, 8] = taken := List.append_cancel_right hsplit
    refine hother ?_ [5, 5]
    intro position hphase
    exact Phase.noConfusion (hfinished.symm.trans hphase)
  · obtain ⟨-, hlonger⟩ := run_ignores_unread (.new .empty (.bytes #[] 0)) p 4 false [7]
    obtain ⟨k, hk, hpasses⟩ := hlonger 2 hfailed
    refine ⟨k, hk, ?_⟩
    intro more j hj
    rw [← hwritten]
    exact (hpasses more).2.2.2 j hj

end TapeLanguage
