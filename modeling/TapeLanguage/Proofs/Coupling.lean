import TapeLanguage.Proofs.Step
import TapeLanguage.Proofs.Supply

/-!
# Machines in step

Two machines that execute the same instructions stay in step, although their programs may stand at
different places and the parts of them that no instruction looks at may differ. A `Coupling` says
what may differ: the positions by a constant, the steps by a lead, and the supplies and the outputs
by relations that fetching a byte and writing a byte keep.

Coupled machines have the same tape. An instruction does the same to both (`Machines.apply`), so one
advance of coupled runs gives coupled runs (`Runs.advance`), and so does any number of them
(`Runs.advanceFor`). The second run may be traced where the first is not.
-/

set_option autoImplicit false

namespace TapeLanguage

/-- The same fault, some places further on. -/
def Fault.shifted (d : Int) : Fault → Fault
  | inputExhausted position => .inputExhausted (position + d)
  | outsideTape position pointer capacity => .outsideTape (position + d) pointer capacity
  | noPartner index => .noPartner (index + d)
  | noInstruction position => .noInstruction (position + d)
  | unencodable s => .unencodable s
  | closedInput => .closedInput
  | interrupted => .interrupted

@[simp] theorem Fault.shifted_zero (fault : Fault) : fault.shifted 0 = fault := by
  cases fault <;> simp only [shifted, Int.add_zero]

/-- The same phase, some places further on. -/
def Phase.shifted (d : Int) : Phase → Phase
  | running => .running
  | finished => .finished
  | failed fault => .failed (fault.shifted d)

@[simp] theorem Phase.shifted_zero (phase : Phase) : phase.shifted 0 = phase := by
  cases phase <;> simp only [shifted, Fault.shifted_zero]

/-- How the streams of two machines may differ that execute the same instructions. -/
structure StreamCoupling where
  /-- What the machines can still read. -/
  supply : Supply → Supply → Prop
  /-- What the machines have written. -/
  output : Output → Output → Prop
  /-- Both machines fetch the same byte, or lack one for the same reason. -/
  fetch : ∀ {s s'}, supply s s' → s'.fetch.1 = s.fetch.1 ∧ supply s.fetch.2 s'.fetch.2
  /-- Both machines can write the same byte. -/
  write : ∀ {o o'} (byte : UInt8), output o o' → output (o.write byte).flush (o'.write byte).flush
  /-- Both machines can flush what they have written. -/
  flush : ∀ {o o'}, output o o' → output o.flush o'.flush

/-- The streams are the same. -/
def StreamCoupling.same : StreamCoupling where
  supply := Eq
  output := Eq
  fetch := by
    rintro s s' rfl
    exact ⟨rfl, rfl⟩
  write byte h := congrArg (fun o : Output => (o.write byte).flush) h
  flush := congrArg Output.flush

/-- What may differ between two machines that execute the same instructions. -/
structure Coupling extends StreamCoupling where
  /-- How much further on the program of the second machine stands. -/
  shift : Int
  /-- How many more instructions the second machine has executed. -/
  lead : Nat
  /-- The bookmarks. -/
  bookmark : Int → Int → Prop
  /-- The programs whose jump tables are used. -/
  program : Option Program → Option Program → Prop
  /-- A bookmark is a place in the program. -/
  bookmark_shift : ∀ n, bookmark n (n + shift)

namespace Coupling

variable {c : Coupling}

/-- Two machines that are in step. -/
structure Machines (c : Coupling) (m m' : Machine) : Prop where
  tape : m'.tape = m.tape
  resume : m'.resume = m.resume.map (· + c.shift)
  bookmark : c.bookmark m.bookmark m'.bookmark
  steps : m'.steps = m.steps + c.lead
  program : c.program m.program m'.program
  supply : c.supply m.supply m'.supply
  output : c.output m.output m'.output

/-- Two instructions that do the same to machines in step. -/
structure Instructions (c : Coupling) (i i' : Instruction) : Prop where
  op : i'.op = i.op
  index : i'.index = i.index + c.shift
  partner : i.op.isBracket = true → ∀ {m m' : Machine}, c.program m.program m'.program →
    m'.partner? i' = (m.partner? i).map (· + c.shift)

/-- Two outcomes that leave machines in step. -/
inductive Outcomes (c : Coupling) : Outcome → Outcome → Prop
  | moved {next next' : Int} {m m' : Machine} (hnext : next' = next + c.shift)
    (hm : c.Machines m m') : Outcomes c (.moved next m) (.moved next' m')
  | stopped {fault fault' : Fault} {m m' : Machine} (hfault : fault' = fault.shifted c.shift)
    (hm : c.Machines m m') : Outcomes c (.stopped fault m) (.stopped fault' m')

/-! ## One instruction -/

section Instruction

variable {m m' : Machine} {i i' : Instruction} {position position' : Int}

theorem Machines.with_tape (h : c.Machines m m') (tape : Tape) :
    c.Machines { m with tape := tape } { m' with tape := tape } :=
  { h with tape := rfl }

/-- The place after an instruction is as much further on as the instruction is. -/
theorem next_eq (hposition : position' = position + c.shift) :
    position' + 1 = position + 1 + c.shift := by
  omega

theorem Machines.move (h : c.Machines m m') (hposition : position' = position + c.shift)
    (delta : Int) : c.Outcomes (m.move delta position) (m'.move delta position') := by
  rw [Machine.move, Machine.move, h.tape]
  cases m.tape.move? delta with
  | some tape => exact .moved (next_eq hposition) (h.with_tape tape)
  | none =>
    refine .stopped ?_ h
    rw [hposition]
    rfl

theorem Machines.change (h : c.Machines m m') (hposition : position' = position + c.shift)
    (f : Tape → Tape) : c.Outcomes (m.change f position) (m'.change f position') := by
  rw [Machine.change, Machine.change, h.tape]
  exact .moved (next_eq hposition) (h.with_tape (f m.tape))

theorem Machines.emit (h : c.Machines m m') (hposition : position' = position + c.shift) :
    c.Outcomes (m.emit position) (m'.emit position') := by
  rw [Machine.emit, Machine.emit, h.tape]
  exact .moved (next_eq hposition) { h with tape := rfl, output := c.write m.tape.read h.output }

theorem Machines.stored {s s' : Supply} (h : c.Machines m m')
    (hposition : position' = position + c.shift) (result : Except Lack UInt8)
    (hs : c.supply s s') :
    c.Outcomes (m.stored position (result, s)) (m'.stored position' (result, s')) := by
  cases result with
  | ok byte =>
    rw [Machine.stored, Machine.stored, h.tape]
    exact .moved (next_eq hposition) { h with tape := rfl, supply := hs }
  | error lack =>
    refine .stopped ?_ { h with supply := hs }
    rw [hposition]
    cases lack <;> rfl

theorem Machines.take (h : c.Machines m m') (hposition : position' = position + c.shift) :
    c.Outcomes (m.take position) (m'.take position') := by
  obtain ⟨hfetched, hleft⟩ := c.fetch h.supply
  rw [m.take_eq, m'.take_eq, ← Prod.eta m.supply.fetch, ← Prod.eta m'.supply.fetch, hfetched]
  exact h.stored hposition m.supply.fetch.1 hleft

theorem Machines.enter (h : c.Machines m m') (hi : c.Instructions i i')
    (hbracket : i.op.isBracket = true) : c.Outcomes (m.enter i) (m'.enter i') := by
  rw [Machine.enter, Machine.enter, h.tape, hi.partner hbracket h.program]
  by_cases hcell : m.tape.read = 0
  · rw [if_pos hcell, if_pos hcell]
    cases m.partner? i with
    | some partner =>
      exact .moved (next_eq rfl) { h with tape := rfl, bookmark := c.bookmark_shift partner }
    | none =>
      refine .stopped ?_ h
      rw [hi.index]
      rfl
  · rw [if_neg hcell, if_neg hcell]
    refine .moved (next_eq hi.index) { h with tape := rfl, resume := ?_ }
    rw [List.map_cons, next_eq hi.index, h.resume]

theorem Machines.repeatOrLeave (h : c.Machines m m') (hi : c.Instructions i i')
    (hbracket : i.op.isBracket = true) :
    c.Outcomes (m.repeatOrLeave i) (m'.repeatOrLeave i') := by
  rw [Machine.repeatOrLeave, Machine.repeatOrLeave, h.tape, hi.partner hbracket h.program]
  by_cases hcell : m.tape.read = 0
  · rw [if_pos hcell, if_pos hcell]
    refine .moved (next_eq hi.index) { h with tape := rfl, resume := ?_ }
    rw [h.resume, List.map_tail]
  · rw [if_neg hcell, if_neg hcell, h.resume]
    cases m.resume with
    | cons body outer => exact .moved rfl h
    | nil =>
      cases m.partner? i with
      | some partner => exact .moved (next_eq rfl) h
      | none =>
        refine .stopped ?_ h
        rw [hi.index]
        rfl

/-- **An instruction does the same to machines in step.** -/
theorem Machines.apply (h : c.Machines m m') (hi : c.Instructions i i') :
    c.Outcomes (m.apply i) (m'.apply i') := by
  rw [Machine.apply, Machine.apply, hi.op]
  cases hop : i.op with
  | moveRight => exact h.move hi.index 1
  | moveLeft => exact h.move hi.index (-1)
  | increment => exact h.change hi.index Tape.increment
  | decrement => exact h.change hi.index Tape.decrement
  | output => exact h.emit hi.index
  | input => exact h.take hi.index
  | openLoop => exact h.enter hi (by rw [hop]; rfl)
  | closeLoop => exact h.repeatOrLeave hi (by rw [hop]; rfl)

/-- Machines in step fetch the same byte. -/
theorem Machines.taken (h : c.Machines m m') (hi : c.Instructions i i') :
    m'.taken i' = m.taken i := by
  by_cases hop : i.op = .input
  · rw [m.taken_of_input hop, m'.taken_of_input (hi.op.trans hop), (c.fetch h.supply).1]
  · rw [m.taken_of_other hop, m'.taken_of_other (hi.op ▸ hop)]

end Instruction

/-! ## A run -/

/-- Two runs that are in step. -/
structure Runs (c : Coupling) (r r' : Run) : Prop where
  phase : r'.phase = r.phase.shifted c.shift
  position : r'.position = r.position + c.shift
  machine : c.Machines r.machine r'.machine

/-- At a position of the first program the second program goes on in the same way. -/
structure Places (c : Coupling) (p p' : Program) (position : Int) : Prop where
  within : position + c.shift < p'.size ↔ position < p.size
  instruction : position < p.size →
    Option.Rel c.Instructions (p.get? position) (p'.get? (position + c.shift))

section Run

variable {p p' : Program} {r r' : Run} {traced traced' : Bool}

theorem Runs.isRunning (h : c.Runs r r') : r'.isRunning = r.isRunning := by
  rw [Run.isRunning, Run.isRunning, h.phase]
  cases r.phase <;> rfl

theorem Machines.count {m m' : Machine} (h : c.Machines m m') : c.Machines m.count m'.count :=
  { h with steps := by rw [Machine.count, Machine.count, h.steps, Nat.add_right_comm] }

theorem Machines.flush {m m' : Machine} (h : c.Machines m m') : c.Machines m.flush m'.flush :=
  { h with output := c.flush h.output }

/-- Outcomes that leave the machines in step leave the runs in step. -/
theorem Outcomes.runs {position position' : Int} {o o' : Outcome} (h : c.Outcomes o o')
    (hposition : position' = position + c.shift) (trace trace' : Trace) :
    c.Runs (.ofOutcome position trace o) (.ofOutcome position' trace' o') := by
  cases h with
  | moved hnext hm => exact ⟨rfl, hnext, hm.count⟩
  | stopped hfault hm => exact ⟨congrArg Phase.failed hfault, hposition, hm⟩

/-- **An advance keeps runs in step** where the programs go on in the same way. -/
theorem Runs.advance (h : c.Runs r r') (hp : r.isRunning = true → c.Places p p' r.position) :
    c.Runs (r.advance p traced) (r'.advance p' traced') := by
  obtain ⟨phase, position, m, trace⟩ := r
  obtain ⟨phase', position', m', trace'⟩ := r'
  obtain ⟨hphase, hposition, hm⟩ := h
  change phase' = phase.shifted c.shift at hphase
  change position' = position + c.shift at hposition
  subst hphase hposition
  cases phase with
  | finished | failed fault => exact ⟨rfl, rfl, hm⟩
  | running =>
    obtain ⟨hwithin, hinstruction⟩ := hp rfl
    rw [Run.advance, Phase.shifted, Run.advance]
    by_cases hlt : position < p.size
    · rw [if_pos hlt, if_pos (hwithin.2 hlt)]
      have hi := hinstruction hlt
      generalize p.get? position = i at hi ⊢
      generalize p'.get? (position + c.shift) = i' at hi ⊢
      cases hi with
      | some hi => exact (hm.apply hi).runs rfl _ _
      | none => exact ⟨rfl, rfl, hm⟩
    · rw [if_neg hlt, if_neg (hlt ∘ hwithin.1)]
      exact ⟨rfl, rfl, hm.flush⟩

/-- **Runs stay in step** as long as the programs go on in the same way. -/
theorem Runs.advanceFor (n : Nat) (h : c.Runs r r')
    (hp : ∀ k, k < n → (Run.advanceFor p traced k r).isRunning = true →
      c.Places p p' (Run.advanceFor p traced k r).position) :
    c.Runs (Run.advanceFor p traced n r) (Run.advanceFor p' traced' n r') := by
  induction n generalizing r r' with
  | zero => exact h
  | succ n ih =>
    rw [Run.advanceFor_succ, Run.advanceFor_succ]
    refine ih (h.advance (hp 0 (Nat.succ_pos n))) ?_
    intro k hk
    rw [← Run.advanceFor_succ]
    exact hp (k + 1) (Nat.succ_lt_succ hk)

theorem Runs.next? (h : c.Runs r r') (hp : r.isRunning = true → c.Places p p' r.position) :
    Option.Rel c.Instructions (r.next? p) (r'.next? p') := by
  rw [Run.next?, Run.next?, h.isRunning, h.position]
  cases hrunning : r.isRunning with
  | false => exact .none
  | true =>
    obtain ⟨hwithin, hinstruction⟩ := hp hrunning
    rw [Bool.true_and, Bool.true_and, decide_eq_decide.2 hwithin]
    by_cases hlt : r.position < p.size
    · rw [decide_eq_true hlt]
      exact hinstruction hlt
    · rw [decide_eq_false hlt]
      exact .none

/-- The same bytes are delivered to runs that stay in step. -/
theorem Runs.delivered (n : Nat) (h : c.Runs r r')
    (hp : ∀ k, k < n → (Run.advanceFor p traced k r).isRunning = true →
      c.Places p p' (Run.advanceFor p traced k r).position) :
    r'.delivered p' traced' n = r.delivered p traced n := by
  induction n generalizing r r' with
  | zero => rfl
  | succ n ih =>
    have hp₀ := hp 0 (Nat.succ_pos n)
    have htaken : (r'.next? p').elim [] r'.machine.taken = (r.next? p).elim [] r.machine.taken := by
      have hnext := h.next? hp₀
      generalize r.next? p = i at hnext ⊢
      generalize r'.next? p' = i' at hnext ⊢
      cases hnext with
      | some hi => exact h.machine.taken hi
      | none => rw [Option.elim_none, Option.elim_none]
    rw [Run.delivered, Run.delivered, htaken, ih (h.advance hp₀)]
    intro k hk
    rw [← Run.advanceFor_succ]
    exact hp (k + 1) (Nat.succ_lt_succ hk)

end Run

/-! ## The same program at the same place -/

/-- The streams of the machines may differ, and nothing else. -/
def ofStreams (streams : StreamCoupling) : Coupling :=
  { streams with
    shift := 0
    lead := 0
    bookmark := Eq
    program := Eq
    bookmark_shift := fun n => (Int.add_zero n).symm }

section Streams

variable {streams : StreamCoupling} {m m' : Machine}

theorem instructions_ofStreams (i : Instruction) : (ofStreams streams).Instructions i i where
  op := rfl
  index := (Int.add_zero i.index).symm
  partner := by
    intro _ m m' hprogram
    change m.program = m'.program at hprogram
    simp only [ofStreams, Int.add_zero, Option.map_id', Machine.partner?, Machine.jump?, hprogram]

theorem places_ofStreams (p : Program) (position : Int) :
    (ofStreams streams).Places p p position := by
  have hposition : position + (ofStreams streams).shift = position := Int.add_zero position
  constructor
  case within => rw [hposition]
  case instruction =>
    intro _
    rw [hposition]
    cases p.get? position with
    | some i => exact .some (instructions_ofStreams i)
    | none => exact .none

/-- Machines that differ in their streams begin every program in step. -/
theorem Machines.start (h : (ofStreams streams).Machines m m') (p : Program)
    (trace trace' : Trace) :
    (ofStreams streams).Runs (.start m p trace) (.start m' p trace') :=
  ⟨rfl, rfl, { h with resume := rfl, bookmark := rfl, steps := rfl, program := rfl }⟩

/-- Machines that differ in their streams run every program in step. -/
theorem Machines.run (h : (ofStreams streams).Machines m m') (p : Program) (fuel : Nat)
    (traced traced' : Bool) (trace trace' : Trace) :
    (ofStreams streams).Runs (m.run p fuel traced trace) (m'.run p fuel traced' trace') :=
  (h.start p trace trace').advanceFor fuel fun _ _ _ => places_ofStreams p _

/-- The same bytes are delivered to machines that differ in their streams. -/
theorem Machines.delivered (h : (ofStreams streams).Machines m m') (p : Program) (fuel : Nat)
    (traced traced' : Bool) (trace trace' : Trace) :
    (Run.start m' p trace').delivered p traced' fuel =
      (Run.start m p trace).delivered p traced fuel :=
  (h.start p trace trace').delivered fuel fun _ _ _ => places_ofStreams p _

end Streams

/-! ## Another program at the same place -/

/-- The machines may differ in the programs whose jump tables they use, and in nothing else. -/
def ofPrograms (related : Option Program → Option Program → Prop) : Coupling :=
  { ofStreams .same with program := related }

section Programs

variable {related : Option Program → Option Program → Prop}

/-- Instructions do the same if they are the same up to the names of partners and to places, and
find the same partners. -/
theorem instructions_ofPrograms {i i' : Instruction} (hop : i'.op = i.op)
    (hindex : i'.index = i.index)
    (hpartner : i.op.isBracket = true → ∀ {m m' : Machine}, related m.program m'.program →
      m'.partner? i' = m.partner? i) : (ofPrograms related).Instructions i i' where
  op := hop
  index := hindex.trans (Int.add_zero i.index).symm
  partner := by
    intro hbracket m m' hprogram
    simp only [ofPrograms, ofStreams, Int.add_zero, Option.map_id']
    exact hpartner hbracket hprogram

/-- Programs go on in the same way where their instructions do the same. -/
theorem places_ofPrograms {p p' : Program} {position : Int} (hsize : p'.size = p.size)
    (h : Option.Rel (ofPrograms related).Instructions (p.get? position) (p'.get? position)) :
    (ofPrograms related).Places p p' position := by
  have hposition : position + (ofPrograms related).shift = position := Int.add_zero position
  constructor
  case within => rw [hposition, hsize]
  case instruction =>
    intro _
    rwa [hposition]

end Programs

end Coupling

end TapeLanguage
