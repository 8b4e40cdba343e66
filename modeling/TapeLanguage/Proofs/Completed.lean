import TapeLanguage.Program.Decode
import TapeLanguage.Proofs.Supply

/-!
# Completed instructions

A run completes instructions one after the other (`Run.completed`), and the last one may fail. An
instruction that is completed is counted and writes its byte, if it is for output
(`Machine.contents_apply`); one that fails changes nothing of the machine but the input that it has
asked, and takes no byte of that (`Machine.bytes_of_stopped`). So the count of a run is the number
of the completed instructions, and what it has written are their bytes (`Run.steps_completed`,
`Run.contents_completed`), however the run ends. A stretch of a run in which no instruction fails is
told by their operations and by the machines before and after it (`Executes`).

A run that has failed stands where it stood when all its instructions were completed, on the same
machine (`failure_changes_nothing`).
-/

set_option autoImplicit false

namespace TapeLanguage

/-! ## One instruction -/

namespace Machine

theorem move_output (m : Machine) (delta position : Int) :
    (m.move delta position).machine.output = m.output := by
  unfold move
  cases m.tape.move? delta <;> rfl

/-- An instruction that is not for output writes nothing. -/
theorem output_apply (m : Machine) {i : Instruction} (h : i.op ≠ .output) :
    (m.apply i).machine.output = m.output := by
  cases hop : i.op with
  | moveRight | moveLeft =>
    rw [apply, hop]
    exact m.move_output _ _
  | increment | decrement =>
    rw [apply, hop]
    rfl
  | output => exact absurd hop h
  | input =>
    rw [m.apply_of_input hop]
    obtain ⟨result, rest⟩ := m.supply.fetch
    cases result <;> rfl
  | openLoop | closeLoop =>
    obtain ⟨resume, bookmark, hframe⟩ := m.apply_bracket (by rw [hop]; rfl)
    rw [hframe]

end Machine

/-- An instruction and the machine that executes it. -/
structure Executed where
  /-- The machine before the instruction. -/
  machine : Machine
  /-- The instruction. -/
  instruction : Instruction

/-- The bytes that an instruction writes. -/
def Executed.written (e : Executed) : List UInt8 :=
  if e.instruction.op = .output then [e.machine.tape.read] else []

namespace Machine

/-- **What an instruction writes stands behind all that was written before.** -/
theorem contents_apply (m : Machine) (i : Instruction) :
    (m.apply i).machine.output.contents = m.output.contents ++ (Executed.mk m i).written := by
  by_cases hop : i.op = .output
  · rw [Executed.written, if_pos hop, apply, hop]
    show (m.output.write m.tape.read).flush.contents = _
    rw [Output.contents_flush, Output.contents_write]
  · rw [Executed.written, if_neg hop, m.output_apply hop, List.append_nil]

/-- An instruction that fails takes no byte. -/
theorem bytes_of_stopped {m m' : Machine} {i : Instruction} {fault : Fault}
    (h : m.apply i = .stopped fault m') : m'.supply.bytes = m.supply.bytes := by
  -- a byte counts as taken only by an instruction that goes on
  have htaken : m.taken i = [] := by
    rw [taken, h]
    split
    · next hmoved => exact Outcome.noConfusion hmoved
    · rfl
  rw [m.bytes_eq_taken i, htaken, h]
  rfl

end Machine

/-! ## One advance -/

namespace Run

/-- The instruction that a run completes next. -/
def completes? (p : Program) (r : Run) : Option Executed :=
  (r.next? p).bind fun i =>
    match r.machine.apply i with
    | .moved _ _ => some ⟨r.machine, i⟩
    | .stopped _ _ => none

/-- What becomes of the machine of a run when there is no instruction to execute. -/
theorem machine_of_no_next {p : Program} (traced : Bool) {r : Run} (h : r.next? p = none) :
    (advance p traced r).machine = r.machine ∨ (advance p traced r).machine = r.machine.flush := by
  obtain ⟨phase, position, m, trace⟩ := r
  cases phase with
  | finished | failed fault => exact Or.inl rfl
  | running =>
    rw [advance]
    split
    · next hlt =>
      have hnone : p.get? position = none := by
        simpa [next?, isRunning, hlt] using h
      rw [hnone]
      exact Or.inl rfl
    · exact Or.inr rfl

section Advance

variable {p : Program} {traced : Bool} {r : Run}

/-- A run that completes an instruction counts it and goes on. -/
theorem advance_of_completes {e : Executed} (traced : Bool) (h : r.completes? p = some e) :
    e.machine = r.machine ∧ (advance p traced r).isRunning = true ∧
      ∃ next m', r.machine.apply e.instruction = .moved next m' ∧
        (advance p traced r).machine = m'.count := by
  obtain ⟨i, hi, hexecuted⟩ := Option.bind_eq_some_iff.1 h
  obtain ⟨noted, hadvance⟩ := advance_of_next traced hi
  rw [hadvance]
  cases happly : r.machine.apply i with
  | moved next m' =>
    rw [happly] at hexecuted
    cases hexecuted
    exact ⟨rfl, rfl, next, m', happly, rfl⟩
  | stopped fault m' =>
    rw [happly] at hexecuted
    cases hexecuted

/-- **A run that completes no instruction comes to an end.** Its machine has asked the input at
most, and flushed the output. -/
theorem advance_of_not_completes (traced : Bool) (h : r.completes? p = none) :
    (advance p traced r).isRunning = false ∧ ∃ input output,
      (advance p traced r).machine = { r.machine with input := input, output := output } ∧
        output.contents = r.machine.output.contents := by
  cases hi : r.next? p with
  | none =>
    refine ⟨(advance_of_no_next traced hi).1, r.machine.input, ?_⟩
    rcases machine_of_no_next traced hi with hsame | hflush
    · exact ⟨r.machine.output, hsame, rfl⟩
    · exact ⟨r.machine.output.flush, hflush, Output.contents_flush _⟩
  | some i =>
    obtain ⟨noted, hadvance⟩ := advance_of_next traced hi
    rw [hadvance]
    cases happly : r.machine.apply i with
    | moved next m' => simp [completes?, hi, happly] at h
    | stopped fault m' =>
      exact ⟨rfl, m'.input, r.machine.output, Machine.apply_stopped happly, rfl⟩

/-- An advance counts what it completes. -/
theorem steps_completes (p : Program) (traced : Bool) (r : Run) :
    (advance p traced r).machine.steps =
      r.machine.steps + (r.completes? p).toList.length := by
  cases h : r.completes? p with
  | none =>
    obtain ⟨-, input, output, hmachine, -⟩ := advance_of_not_completes traced h
    rw [hmachine]
    rfl
  | some e =>
    obtain ⟨-, -, next, m', happly, hadvance⟩ := advance_of_completes traced h
    have hsteps := (r.machine.steps_program_apply e.instruction).1
    rw [happly] at hsteps
    rw [hadvance]
    exact congrArg (· + 1) hsteps

/-- An advance writes what it completes. -/
theorem contents_completes (p : Program) (traced : Bool) (r : Run) :
    (advance p traced r).machine.output.contents =
      r.machine.output.contents ++ (r.completes? p).toList.flatMap Executed.written := by
  cases h : r.completes? p with
  | none =>
    obtain ⟨-, input, output, hmachine, hcontents⟩ := advance_of_not_completes traced h
    rw [hmachine, hcontents, Option.toList_none, List.flatMap_nil, List.append_nil]
  | some e =>
    obtain ⟨hmachine, -, next, m', happly, hadvance⟩ := advance_of_completes traced h
    have hcontents := r.machine.contents_apply e.instruction
    rw [happly, ← hmachine] at hcontents
    rw [hadvance, Option.toList_some, List.flatMap_singleton, ← hmachine]
    exact hcontents

/-! ## A run -/

/-- The instructions that a run completes, in order. -/
def completed (p : Program) (traced : Bool) : Nat → Run → List Executed
  | 0, _ => []
  | n + 1, r => (r.completes? p).toList ++ completed p traced n (advance p traced r)

/-- **The count of a run is the number of the instructions that it has completed.** -/
theorem steps_completed (p : Program) (traced : Bool) (n : Nat) (r : Run) :
    (advanceFor p traced n r).machine.steps =
      r.machine.steps + (r.completed p traced n).length := by
  induction n generalizing r with
  | zero => rfl
  | succ n ih =>
    rw [advanceFor_succ, ih, steps_completes, completed, List.length_append, Nat.add_assoc]

/-- **What a run has written are the bytes of the instructions that it has completed.** -/
theorem contents_completed (p : Program) (traced : Bool) (n : Nat) (r : Run) :
    (advanceFor p traced n r).machine.output.contents =
      r.machine.output.contents ++ (r.completed p traced n).flatMap Executed.written := by
  induction n generalizing r with
  | zero => simp [advanceFor, completed]
  | succ n ih =>
    rw [advanceFor_succ, ih, contents_completes, completed, List.flatMap_append, List.append_assoc]

theorem completed_add (p : Program) (traced : Bool) (a b : Nat) (r : Run) :
    r.completed p traced (a + b) =
      r.completed p traced a ++ (advanceFor p traced a r).completed p traced b := by
  induction a generalizing r with
  | zero => simp [advanceFor, completed]
  | succ a ih =>
    rw [Nat.succ_add, completed, completed, ih, advanceFor_succ, List.append_assoc]

/-- A run that has ended completes nothing. -/
theorem completed_of_ended {n : Nat} (h : r.isRunning = false) : r.completed p traced n = [] := by
  induction n with
  | zero => rfl
  | succ n ih =>
    rw [completed, advance_of_ended p traced h, ih]
    simp [completes?, next?, h]

/-- A run that goes on has completed an instruction with every advance. -/
theorem length_completed_of_running {n : Nat} (h : (advanceFor p traced n r).isRunning = true) :
    (r.completed p traced n).length = n := by
  induction n with
  | zero => rfl
  | succ n ih =>
    rw [advanceFor_succ_last] at h
    cases hnext : (advanceFor p traced n r).completes? p with
    | none => exact absurd h (by simp [(advance_of_not_completes traced hnext).1])
    | some e =>
      -- the run was going on before, or it would not have completed an instruction
      have hrunning : (advanceFor p traced n r).isRunning = true := by
        cases hended : (advanceFor p traced n r).isRunning with
        | true => rfl
        | false => simp [completes?, next?, hended] at hnext
      rw [completed_add, List.length_append, ih hrunning, completed, hnext]
      rfl

/-! ## Failing -/

/-- A run that has failed was going on before its last advance. -/
theorem exists_last_of_failed {n : Nat} {fault : Fault} (hr : r.phase = .running)
    (h : (advanceFor p traced n r).phase = .failed fault) :
    ∃ k, k < n ∧ (advanceFor p traced k r).phase = .running ∧
      advanceFor p traced n r = advance p traced (advanceFor p traced k r) := by
  induction n with
  | zero => exact Phase.noConfusion (hr.symm.trans h)
  | succ n ih =>
    rw [advanceFor_succ_last] at h ⊢
    cases hphase : (advanceFor p traced n r).phase with
    | running => exact ⟨n, Nat.lt_succ_self n, hphase, rfl⟩
    | finished =>
      rw [advance_of_ended p traced (by rw [isRunning, hphase])] at h
      exact Phase.noConfusion (hphase.symm.trans h)
    | failed fault' =>
      rw [advance_of_ended p traced (by rw [isRunning, hphase])] at h ⊢
      obtain ⟨k, hk, hlast⟩ := ih h
      exact ⟨k, Nat.lt_succ_of_lt hk, hlast⟩

/-- The advance with which a run fails: an instruction cannot be executed, or there is none at the
position. -/
theorem advance_failed {fault : Fault} (hr : r.phase = .running)
    (h : (advance p traced r).phase = .failed fault) :
    (advance p traced r).position = r.position ∧
      ((∃ i, p.get? r.position = some i ∧
          r.machine.apply i = .stopped fault (advance p traced r).machine) ∨
        p.get? r.position = none ∧ fault = .noInstruction r.position ∧
          (advance p traced r).machine = r.machine) := by
  obtain ⟨phase, position, m, trace⟩ := r
  obtain rfl : phase = .running := hr
  rw [advance] at h ⊢
  split at h
  · next hlt =>
    rw [if_pos hlt]
    cases hi : p.get? position with
    | none =>
      rw [hi] at h
      cases h
      exact ⟨rfl, Or.inr ⟨rfl, rfl, rfl⟩⟩
    | some i =>
      rw [hi] at h
      simp only [] at h ⊢
      cases happly : m.apply i with
      | moved next m' =>
        rw [happly] at h
        exact Phase.noConfusion h
      | stopped fault' m' =>
        rw [happly] at h
        cases h
        exact ⟨rfl, Or.inl ⟨i, rfl, happly⟩⟩
  · exact Phase.noConfusion h

/-- The number of completed instructions of a run that fails with the advance after some others. -/
theorem length_completed_of_failed {n k : Nat} {fault : Fault}
    (hrunning : (advanceFor p traced k r).phase = .running)
    (hlast : advanceFor p traced n r = advance p traced (advanceFor p traced k r))
    (hfailed : (advanceFor p traced n r).phase = .failed fault) :
    (r.completed p traced n).length = k := by
  have hnothing : (advanceFor p traced k r).completes? p = none := by
    cases h : (advanceFor p traced k r).completes? p with
    | none => rfl
    | some e =>
      have hgoes := (advance_of_completes traced h).2.1
      rw [← hlast, isRunning, hfailed] at hgoes
      exact Bool.noConfusion hgoes
  have hbefore : (r.completed p traced k).length = k :=
    length_completed_of_running (by rw [isRunning, hrunning])
  -- both counts are the number of completed instructions, and the last advance counts none
  have hcount := steps_completed p traced n r
  rw [hlast, steps_completes, hnothing, steps_completed, hbefore] at hcount
  exact (Nat.add_left_cancel hcount).symm

end Advance

end Run

/-! ## Instructions in a row -/

/-- The next instruction of a run that goes on is the one at its position. -/
theorem Run.next?_natCast (p : Program) (n : Nat) (m : Machine) (trace : Trace) :
    Run.next? p ⟨.running, n, m, trace⟩ = p.instructions[n]? := by
  by_cases hlt : n < p.size
  · simp [Run.next?, Run.isRunning, hlt, Program.get?_natCast]
  · rw [Array.getElem?_eq_none (Nat.le_of_not_lt hlt)]
    simp [Run.next?, hlt]

/-- The run goes on at a position with a machine. -/
structure Run.Stands (r : Run) (position : Nat) (m : Machine) : Prop where
  running : r.phase = .running
  position : r.position = position
  machine : r.machine = m

/-- The operations of the instructions that a run completes, in order. -/
def Run.completedOps (p : Program) (traced : Bool) (n : Nat) (r : Run) : List Op :=
  (r.completed p traced n).map fun e => e.instruction.op

/-- From one position and machine to another, a run executes instructions with these operations. -/
def Executes (p : Program) (ops : List Op) (position : Nat) (m : Machine) (position' : Nat)
    (m' : Machine) : Prop :=
  ∀ (traced : Bool) (r : Run), r.Stands position m →
    (Run.advanceFor p traced ops.length r).Stands position' m' ∧
      r.completedOps p traced ops.length = ops

section Executes

variable {p : Program} {position position' position'' : Nat} {m m' m'' : Machine}

theorem Executes.nil : Executes p [] position m position m :=
  fun _ _ hr => ⟨hr, rfl⟩

/-- One instruction that does not fail. -/
theorem Executes.single {i : Instruction} (hi : p.instructions[position]? = some i)
    (h : m.apply i = .moved position' m') : Executes p [i.op] position m position' m'.count := by
  rintro traced ⟨phase, place, machine, trace⟩ hr
  obtain rfl : phase = .running := hr.running
  obtain rfl : place = position := hr.position
  obtain rfl : machine = m := hr.machine
  obtain ⟨noted, hadvance⟩ := Run.advance_of_instruction traced machine trace hi
  have hnext : Run.next? p ⟨.running, position, machine, trace⟩ = some i :=
    (Run.next?_natCast p position machine trace).trans hi
  rw [h] at hadvance
  constructor
  · rw [List.length_singleton, Run.advanceFor_succ, hadvance]
    exact ⟨rfl, rfl, rfl⟩
  · simp [Run.completedOps, Run.completed, Run.completes?, hnext, h]

/-- **One row of instructions after the other.** -/
theorem Executes.trans {ops ops' : List Op} (h : Executes p ops position m position' m')
    (h' : Executes p ops' position' m' position'' m'') :
    Executes p (ops ++ ops') position m position'' m'' := by
  intro traced r hr
  obtain ⟨hstands, hops⟩ := h traced r hr
  obtain ⟨hstands', hops'⟩ := h' traced _ hstands
  rw [Run.completedOps] at hops hops'
  rw [List.length_append, Run.advanceFor_add, Run.completedOps, Run.completed_add, List.map_append,
    hops, hops']
  exact ⟨hstands', rfl⟩

/-- A run that executes what it says, and completes nothing where that leads to, comes to an end
there. -/
theorem Executes.ends {fuel : Nat} {ops : List Op} (h : Executes p ops 0 (m.prepare p) position m')
    (hlast : ∀ noted, Run.completes? p ⟨.running, position, m', noted⟩ = none)
    (hfuel : ops.length < fuel) (traced : Bool) (trace : Trace) :
    (∃ noted, m.run p fuel traced trace = Run.advance p traced ⟨.running, position, m', noted⟩) ∧
      (Run.start m p trace).completedOps p traced fuel = ops := by
  obtain ⟨hstands, hops⟩ := h traced (.start m p trace) ⟨rfl, rfl, rfl⟩
  obtain ⟨d, rfl⟩ := Nat.exists_eq_add_of_lt hfuel
  rw [Machine.run, Run.completedOps, Nat.add_assoc, Run.advanceFor_add, Run.completed_add,
    List.map_append]
  change (Run.completed p traced ops.length _).map _ = ops at hops
  rw [hops]
  generalize Run.advanceFor p traced ops.length (.start m p trace) = r at hstands ⊢
  obtain ⟨phase, place, machine, noted⟩ := r
  obtain rfl : phase = .running := hstands.running
  obtain rfl : place = position := hstands.position
  obtain rfl : machine = m' := hstands.machine
  -- nothing is completed by the next advance, and nothing after it
  have hended := (Run.advance_of_not_completes traced (hlast noted)).1
  rw [Run.advanceFor_succ, Run.advanceFor_of_ended p traced d hended, Run.completed, hlast,
    Run.completed_of_ended hended]
  exact ⟨⟨noted, rfl⟩, List.append_nil ops⟩

/-- A run that comes to the end of the program finishes, and has executed what it says. -/
theorem Executes.finishes {ops : List Op} {fuel : Nat}
    (h : Executes p ops 0 (m.prepare p) p.size m') (hfuel : ops.length < fuel) (traced : Bool)
    (trace : Trace) :
    (m.run p fuel traced trace).phase = .finished ∧
      (m.run p fuel traced trace).machine = m'.flush ∧
      (Run.start m p trace).completedOps p traced fuel = ops := by
  have hlast : ∀ noted, Run.completes? p ⟨.running, p.size, m', noted⟩ = none := by
    intro noted
    simp [Run.completes?, Run.next?_natCast, Program.size]
  obtain ⟨⟨noted, hrun⟩, hops⟩ := h.ends hlast hfuel traced trace
  rw [hrun, Run.advance_at_end]
  exact ⟨rfl, rfl, hops⟩

/-- A run that comes to an instruction that fails has failed, and has executed what it says. -/
theorem Executes.fails {ops : List Op} {fuel : Nat} {i : Instruction} {fault : Fault}
    (h : Executes p ops 0 (m.prepare p) position m') (hi : p.instructions[position]? = some i)
    (hstopped : m'.apply i = .stopped fault m'') (hfuel : ops.length < fuel) (traced : Bool)
    (trace : Trace) :
    (m.run p fuel traced trace).phase = .failed fault ∧
      (m.run p fuel traced trace).machine = m'' ∧
      (Run.start m p trace).completedOps p traced fuel = ops := by
  have hlast : ∀ noted, Run.completes? p ⟨.running, position, m', noted⟩ = none := by
    intro noted
    simp [Run.completes?, Run.next?_natCast, hi, hstopped]
  obtain ⟨⟨noted, hrun⟩, hops⟩ := h.ends hlast hfuel traced trace
  obtain ⟨noted', hadvance⟩ := Run.advance_of_instruction traced m' noted hi
  rw [hrun, hadvance, hstopped]
  exact ⟨rfl, rfl, hops⟩

end Executes

/-! ## What a failure leaves -/

/-- A run has failed with a fault: since it last went on, it has stayed at its place, and it has the
same machine. It stands at an instruction that fails with the fault on this machine, or where there
is no instruction. -/
structure FailsAfter (p : Program) (fault : Fault) (last r : Run) : Prop where
  /-- The run went on. -/
  running : last.phase = .running
  /-- It has not gone to another place since. -/
  position : r.position = last.position
  /-- The machine is the same, except that the input has been asked. -/
  machine : r.machine = { last.machine with input := r.machine.input }
  /-- No byte has been taken from the input. -/
  bytes : r.machine.supply.bytes = last.machine.supply.bytes
  /-- The fault is that of the instruction at the position. -/
  fault : (∃ i, p.get? r.position = some i ∧ last.machine.apply i = .stopped fault r.machine) ∨
    p.get? r.position = none ∧ fault = .noInstruction r.position

/-- **A run that fails leaves the machine as the completed instructions have left it.** -/
theorem Run.failsAfter {p : Program} {traced : Bool} {r : Run} {n : Nat} {fault : Fault}
    (hr : r.phase = .running) (h : (advanceFor p traced n r).phase = .failed fault) :
    FailsAfter p fault (advanceFor p traced (r.completed p traced n).length r)
      (advanceFor p traced n r) := by
  obtain ⟨k, -, hrunning, hlast⟩ := exists_last_of_failed hr h
  -- all advances before the last one have completed an instruction
  rw [length_completed_of_failed hrunning hlast h]
  rw [hlast] at h ⊢
  obtain ⟨hposition, ⟨i, hi, hstopped⟩ | ⟨hi, hfault, hsame⟩⟩ := advance_failed hrunning h
  · refine ⟨hrunning, hposition, Machine.apply_stopped hstopped,
      Machine.bytes_of_stopped hstopped, Or.inl ⟨i, ?_, hstopped⟩⟩
    rw [hposition]
    exact hi
  · refine ⟨hrunning, hposition, by rw [hsame], by rw [hsame], Or.inr ?_⟩
    rw [hposition]
    exact ⟨hi, hfault⟩

/-- **An instruction that fails changes nothing**, decoded or not, on any machine: tape, pointer,
loops, bookmark, count, program, waiting bytes and output are as before, and of the input no byte is
taken. So a run that fails leaves the machine as the last completed instruction has left it. It has
counted the completed instructions, and it has written their bytes. -/
theorem failure_changes_nothing :
    (∀ (m m' : Machine) (i : Instruction) (fault : Fault), m.apply i = .stopped fault m' →
      m' = { m with input := m'.input } ∧ m'.supply.bytes = m.supply.bytes) ∧
    ∀ (m : Machine) (p : Program) (fuel : Nat) (traced : Bool) (trace : Trace) (fault : Fault),
      (m.run p fuel traced trace).phase = .failed fault →
        let done := (Run.start m p trace).completed p traced fuel
        let r := m.run p fuel traced trace
        FailsAfter p fault (m.run p done.length traced trace) r ∧
          r.machine.steps = done.length ∧
          r.machine.output.contents = m.output.contents ++ done.flatMap Executed.written := by
  refine ⟨fun m m' i fault h => ⟨Machine.apply_stopped h, Machine.bytes_of_stopped h⟩, ?_⟩
  intro m p fuel traced trace fault hfailed done r
  have hsteps : r.machine.steps = 0 + done.length :=
    Run.steps_completed p traced fuel (.start m p trace)
  rw [Nat.zero_add] at hsteps
  exact ⟨Run.failsAfter (r := .start m p trace) rfl hfailed, hsteps,
    Run.contents_completed p traced fuel (.start m p trace)⟩

/-- An instruction moves the pointer off the tape, and another one lacks its byte after a chunk that
is empty and one byte of output. -/
theorem failure_changes_nothing_output :
    let m : Machine := .new (.chunks [[]]) (.bytes #[] 0)
    (∃ m', m.apply ⟨.moveLeft, 7, 0, none, none, none⟩ =
        .stopped (.outsideTape 7 (-1) 65536) m' ∧ m' = { m with input := m'.input }) ∧
      ∃ p, (Program.decode (Token.ofText "+.,")).outcome = .ok p ∧
        (m.run p 4).phase = .failed (.inputExhausted 2) ∧
        FailsAfter p (.inputExhausted 2) (m.run p 2) (m.run p 4) ∧
        (m.run p 4).machine.steps = 2 ∧ (m.run p 4).machine.output.contents = [1] := by
  intro m
  have hstopped : ∃ m', m.apply ⟨.moveLeft, 7, 0, none, none, none⟩ =
      .stopped (.outsideTape 7 (-1) 65536) m' := ⟨_, rfl⟩
  have hdecoded : ∃ p, (Program.decode (Token.ofText "+.,")).outcome = .ok p ∧
      (m.run p 4).phase = .failed (.inputExhausted 2) ∧
      ((Run.start m p #[]).completed p false 4).length = 2 ∧
      ((Run.start m p #[]).completed p false 4).flatMap Executed.written = [1] :=
    ⟨_, rfl, rfl, rfl, rfl⟩
  obtain ⟨m', hm'⟩ := hstopped
  obtain ⟨p, hp, hfailed, hlength, hwritten⟩ := hdecoded
  obtain ⟨hfails, hsteps, hcontents⟩ := failure_changes_nothing.2 m p 4 false #[] _ hfailed
  rw [hlength] at hfails hsteps
  rw [hwritten] at hcontents
  exact ⟨⟨m', hm', (failure_changes_nothing.1 m m' _ _ hm').1⟩, p, hp, hfailed, hfails, hsteps,
    hcontents⟩

end TapeLanguage
