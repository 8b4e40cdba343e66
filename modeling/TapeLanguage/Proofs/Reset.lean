import TapeLanguage.Proofs.StreamKinds
import TapeLanguage.Proofs.UnreadInput

/-!
# Resetting a machine

Resetting clears all of a machine but its streams and the program whose jump table it uses. A new
machine over the same streams has no such program (`Machine.unloaded`), and that is all by which the
two differ, as a machine uses its streams directly from the beginning on (`Session.Direct`).

Only a bracket that names no partner looks into the jump table. So an instruction does the same with
and without a program, unless it is such a bracket and comes to the end that the program records for
it (`Machine.apply_unloaded`); and to run a program is to have no other one from then on. Hence a
machine that has been reset does what a new one does, up to a bracket that the last program before
the reset still pairs (`reset_as_new`).
-/

set_option autoImplicit false

namespace TapeLanguage

/-! ## A machine without its program -/

/-- The machine without a program. -/
def Machine.unloaded (m : Machine) : Machine :=
  { m with program := none }

/-- What becomes of the machine, without its program. -/
def Outcome.unloaded : Outcome → Outcome
  | moved next m => .moved next m.unloaded
  | stopped fault m => .stopped fault m.unloaded

namespace Machine

/-- A bracket that names no partner goes on behind the one in the jump table, and it fails without
the jump table. -/
structure FallsBack (m : Machine) (i : Instruction) (partner : Int) : Prop where
  unnamed : i.partner = none
  recorded : m.jump? i.index = some partner
  found : ∃ m', m.apply i = .moved (partner + 1) m'
  missed : m.unloaded.apply i = .stopped (.noPartner i.index) m.unloaded

variable (m : Machine)

theorem move_unloaded (delta position : Int) :
    m.unloaded.move delta position = (m.move delta position).unloaded := by
  have htape : m.unloaded.tape = m.tape := rfl
  rw [move, move, htape]
  cases m.tape.move? delta <;> rfl

theorem take_unloaded (position : Int) :
    m.unloaded.take position = (m.take position).unloaded := by
  have hsupply : m.unloaded.supply = m.supply := rfl
  rw [take_eq, take_eq, hsupply]
  obtain ⟨result, rest⟩ := m.supply.fetch
  cases result <;> rfl

/-- The partner of a bracket is the same without a program, unless the jump table tells it. -/
theorem partner?_unloaded (i : Instruction) :
    m.unloaded.partner? i = m.partner? i ∨
      i.partner = none ∧ m.unloaded.partner? i = none ∧
        ∃ partner, m.jump? i.index = some partner ∧ m.partner? i = some partner := by
  cases hi : i.partner with
  | some position =>
    simp only [partner?, hi, true_or]
  | none =>
    have hunloaded : m.unloaded.partner? i = none := by
      rw [partner?, hi]
      rfl
    have hloaded : m.partner? i = m.jump? i.index := by rw [partner?, hi]
    rw [hunloaded, hloaded]
    cases m.jump? i.index with
    | none => exact Or.inl rfl
    | some partner => exact Or.inr ⟨rfl, rfl, partner, rfl, rfl⟩

/-- The instruction asks for its partner: it begins a loop that is skipped, or it goes back into a
loop that has not been entered. -/
def AsksPartner (i : Instruction) : Prop :=
  i.op = .openLoop ∧ m.tape.read = 0 ∨ i.op = .closeLoop ∧ m.tape.read ≠ 0 ∧ m.resume = []

/-- The machine after a bracket that has gone on behind its partner. -/
def behind (i : Instruction) (partner : Int) : Machine :=
  if i.op = .openLoop then { m with bookmark := partner } else m

variable {m} {i : Instruction}

theorem apply_of_asksPartner (h : m.AsksPartner i) :
    m.apply i = (m.partner? i).elim (.stopped (.noPartner i.index) m) fun partner =>
      .moved (partner + 1) (m.behind i partner) := by
  rcases h with ⟨hop, hcell⟩ | ⟨hop, hcell, hresume⟩
  · simp only [apply, hop, enter, hcell, if_true, behind]
    cases m.partner? i <;> rfl
  · simp only [apply, hop, repeatOrLeave, hcell, hresume, if_false, behind, reduceCtorEq]
    cases m.partner? i <;> rfl

theorem behind_unloaded (i : Instruction) (partner : Int) :
    m.unloaded.behind i partner = (m.behind i partner).unloaded := by
  rw [behind, behind]
  split <;> rfl

/-- A bracket that asks for its partner does the same without a program, unless the jump table tells
the partner. -/
theorem apply_unloaded_of_asksPartner (h : m.AsksPartner i) :
    m.unloaded.apply i = (m.apply i).unloaded ∨ ∃ partner, m.FallsBack i partner := by
  have hunloaded : m.unloaded.AsksPartner i := h
  rcases m.partner?_unloaded i with hsame | ⟨hunnamed, hmissed, partner, hjump, hpartner⟩
  · -- the bracket names its partner, or there is none
    refine Or.inl ?_
    rw [apply_of_asksPartner h, apply_of_asksPartner hunloaded, hsame]
    cases m.partner? i with
    | none => rfl
    | some partner => exact congrArg (Outcome.moved (partner + 1)) (behind_unloaded i partner)
  · refine Or.inr ⟨partner, hunnamed, hjump, ⟨m.behind i partner, ?_⟩, ?_⟩
    · rw [apply_of_asksPartner h, hpartner]
      rfl
    · rw [apply_of_asksPartner hunloaded, hmissed]
      rfl

/-- **An instruction does the same without a program**, unless it is a bracket that comes to the
partner in the jump table. -/
theorem apply_unloaded (m : Machine) (i : Instruction) :
    m.unloaded.apply i = (m.apply i).unloaded ∨ ∃ partner, m.FallsBack i partner := by
  by_cases hasks : m.AsksPartner i
  · exact apply_unloaded_of_asksPartner hasks
  · refine Or.inl ?_
    cases hop : i.op with
    | moveRight | moveLeft =>
      rw [apply, apply, hop]
      exact m.move_unloaded _ i.index
    | increment | decrement | output =>
      rw [apply, apply, hop]
      rfl
    | input =>
      rw [apply, apply, hop]
      exact m.take_unloaded i.index
    | openLoop =>
      -- the loop is entered
      have hcell : m.tape.read ≠ 0 := fun hcell => hasks (Or.inl ⟨hop, hcell⟩)
      rw [apply_enter hop hcell, apply_enter (m := m.unloaded) hop hcell]
      rfl
    | closeLoop =>
      by_cases hcell : m.tape.read = 0
      · -- the loop is left
        rw [apply_leave hop hcell, apply_leave (m := m.unloaded) hop hcell]
        rfl
      · cases hresume : m.resume with
        | nil => exact absurd (Or.inr ⟨hop, hcell, hresume⟩) hasks
        | cons position outer =>
          -- the loop has been entered
          rw [apply_repeat hop hcell hresume, apply_repeat (m := m.unloaded) hop hcell hresume]
          rfl

end Machine

/-! ## Streams that are used directly -/

theorem Input.unwrapped_drop {input : Input} (h : input.unwrapped = input) (k : Nat) :
    (input.drop k).unwrapped = input.drop k := by
  cases input with
  | bytes rest | codePoints rest | chunks rest | interrupting rest => rfl
  | wrapped rest => exact Input.noConfusion h
  | closed => rfl

theorem Input.unwrapped_unwrapped (input : Input) :
    input.unwrapped.unwrapped = input.unwrapped := by
  cases input <;> rfl

namespace Output

variable {o : Output}

theorem unwrapped_unwrapped (o : Output) : o.unwrapped.unwrapped = o.unwrapped := by
  cases o <;> rfl

theorem unwrapped_flush (h : o.unwrapped = o) : o.flush.unwrapped = o.flush := by
  cases o with
  | bytes written flushes | unflushed written | text written => rfl
  | wrapped written flushes => exact Output.noConfusion h

theorem unwrapped_write (h : o.unwrapped = o) (byte : UInt8) :
    (o.write byte).unwrapped = o.write byte := by
  cases o with
  | bytes written flushes | unflushed written | text written => rfl
  | wrapped written flushes => exact Output.noConfusion h

end Output

/-- A machine uses its streams directly, and not through a text over a buffer. -/
structure Machine.Direct (m : Machine) : Prop where
  input : m.input.unwrapped = m.input
  output : m.output.unwrapped = m.output

namespace Machine.Direct

variable {m : Machine}

theorem new (input : Input) (output : Output) : (Machine.new input output).Direct :=
  ⟨input.unwrapped_unwrapped, output.unwrapped_unwrapped⟩

theorem apply (h : m.Direct) (i : Instruction) : (m.apply i).machine.Direct where
  input := by
    obtain ⟨k, hk⟩ := m.input_apply i
    rw [hk]
    exact Input.unwrapped_drop h.input k
  output := by
    by_cases hop : i.op = .output
    · rw [Machine.apply, hop]
      exact Output.unwrapped_flush (Output.unwrapped_write h.output m.tape.read)
    · rw [m.output_apply hop]
      exact h.output

theorem flush (h : m.Direct) : m.flush.Direct :=
  ⟨h.input, Output.unwrapped_flush h.output⟩

theorem run (h : m.Direct) (p : Program) (fuel : Nat) (traced : Bool) (trace : Trace) :
    (m.run p fuel traced trace).machine.Direct :=
  Run.machine_invariant (P := Machine.Direct) (fun _ i h => apply h i)
    (fun _ h => ⟨h.input, h.output⟩) (fun _ h => flush h) p traced fuel (r := .start m p trace)
    ⟨h.input, h.output⟩

end Machine.Direct

namespace Session

theorem direct_steps (count : Nat) {s : Session} (visited : List Visit) (h : s.machine.Direct) :
    (steps count s visited).2.machine.Direct := by
  induction count generalizing s visited with
  | zero => exact h
  | succ count ih =>
    rw [steps]
    split
    · split
      · next i hi =>
        have hafter := h.apply i
        cases happly : s.machine.apply i with
        | moved next m =>
          rw [happly] at hafter
          exact ih _ hafter
        | stopped fault m =>
          rw [happly] at hafter
          exact hafter
      · exact h
    · exact h

/-- Commands leave the streams as they are used. -/
theorem direct_perform (fuel : Nat) (traced : Bool) {s : Session} (h : s.machine.Direct)
    (command : Command) : (s.perform fuel traced command).session.machine.Direct := by
  cases command with
  | run program =>
    rw [perform]
    cases program.outcome with
    | ok p => exact h.run p fuel traced _
    | error e => exact h
  | load program =>
    rw [perform]
    cases program.outcome <;> exact h
  | attach | seek position | reset => exact ⟨h.input, h.output⟩
  | step count =>
    have hsteps := direct_steps count [] h
    rw [perform]
    generalize steps count s [] = reached at hsteps ⊢
    obtain ⟨result, next⟩ := reached
    cases result <;> exact hsteps
  | apply instruction =>
    have hafter := h.apply instruction
    rw [perform]
    cases happly : s.machine.apply instruction <;> rw [happly] at hafter <;> exact hafter
  | tape command =>
    rw [perform]
    generalize command.perform s.machine.tape = reached
    obtain ⟨result, tape⟩ := reached
    cases result <;> exact ⟨h.input, h.output⟩

/-- The session after commands. -/
def afterCommands (fuel : Nat) (traced : Bool) (s : Session) (commands : List Command) : Session :=
  commands.foldl (fun s command => (s.perform fuel traced command).session) s

theorem direct_afterCommands (fuel : Nat) (traced : Bool) (commands : List Command) {s : Session}
    (h : s.machine.Direct) : (s.afterCommands fuel traced commands).machine.Direct := by
  induction commands generalizing s with
  | nil => exact h
  | cons command commands ih => exact ih (direct_perform fuel traced h command)

/-! ## Calls -/

/-- What calls lead to: the answer to each of them, and the machine after it but for the program
whose jump table it uses. -/
def observed (fuel : Nat) (traced : Bool) :
    Session → List Call → List (Option (Except Error Answer) × Machine)
  | _, [] => []
  | s, call :: rest =>
    ((s.perform fuel traced call.command).result,
        (s.afterCall fuel traced call).machine.unloaded) ::
      observed fuel traced (s.afterCall fuel traced call) rest

/-- Calls depend on the machine alone. -/
theorem call_of_machine {s s' : Session} (h : s'.machine = s.machine) (fuel : Nat) (traced : Bool)
    (call : Call) :
    (s'.perform fuel traced call.command).result = (s.perform fuel traced call.command).result ∧
      (s'.afterCall fuel traced call).machine = (s.afterCall fuel traced call).machine := by
  cases call with
  | run program =>
    simp only [afterCall, Call.command, perform, h]
    cases program.outcome with
    | ok p => exact ⟨rfl, rfl⟩
    | error e => exact ⟨rfl, h⟩
  | apply i =>
    simp only [afterCall, Call.command, perform, h]
    cases s.machine.apply i <;> exact ⟨rfl, rfl⟩

theorem observed_of_machine (fuel : Nat) (traced : Bool) (calls : List Call) {s s' : Session}
    (h : s'.machine = s.machine) :
    s'.observed fuel traced calls = s.observed fuel traced calls := by
  induction calls generalizing s s' with
  | nil => rfl
  | cons call rest ih =>
    obtain ⟨hresult, hafter⟩ := call_of_machine h fuel traced call
    rw [observed, observed, hresult, hafter, ih hafter]

end Session

/-- A call that comes to run no program: it executes one instruction, or its text is no program. -/
def Call.RunsNothing : Call → Prop
  | run program => ∀ p, program.outcome ≠ .ok p
  | apply _ => True

/-- What a call does to a machine and to the same machine without its program. It may run a program,
so that they have the same one from then on. It may run nothing and do the same to both. Or it is a
bracket with its partner in the jump table alone. -/
inductive Session.Beside (fuel : Nat) (traced : Bool) (s s' : Session) : Call → Prop
  | joined {call : Call}
    (hresult : (s'.perform fuel traced call.command).result =
      (s.perform fuel traced call.command).result)
    (hafter : (s'.afterCall fuel traced call).machine = (s.afterCall fuel traced call).machine) :
    Beside fuel traced s s' call
  | kept {call : Call} (hquiet : call.RunsNothing)
    (hresult : (s'.perform fuel traced call.command).result =
      (s.perform fuel traced call.command).result)
    (hafter : (s'.afterCall fuel traced call).machine =
      (s.afterCall fuel traced call).machine.unloaded)
    (hprogram : (s.afterCall fuel traced call).machine.program = s.machine.program) :
    Beside fuel traced s s' call
  | parted {i : Instruction} {partner : Int} (hback : s.machine.FallsBack i partner) :
    Beside fuel traced s s' (.apply i)

namespace Session

variable {fuel : Nat} {traced : Bool} {s s' : Session}

theorem call_beside (fuel : Nat) (traced : Bool) (h : s'.machine = s.machine.unloaded)
    (call : Call) : Beside fuel traced s s' call := by
  cases call with
  | run program =>
    cases houtcome : program.outcome with
    | ok p =>
      -- to make ready for a program is to replace the one before
      have hprepare : s'.machine.prepare p = s.machine.prepare p := by rw [h]; rfl
      refine .joined ?_ ?_ <;>
        simp only [afterCall, Call.command, perform, houtcome, Machine.run, Run.start, hprepare]
    | error e =>
      have hquiet : (Call.run program).RunsNothing := by
        intro p hp
        rw [houtcome] at hp
        cases hp
      refine .kept hquiet ?_ ?_ ?_ <;> simp only [afterCall, Call.command, perform, houtcome, h]
  | apply i =>
    rcases s.machine.apply_unloaded i with hsame | ⟨partner, hback⟩
    · have hprogram := (s.machine.steps_program_apply i).2
      refine .kept trivial ?_ ?_ ?_ <;> simp only [afterCall, Call.command, perform, h, hsame]
      · cases s.machine.apply i <;> rfl
      · cases s.machine.apply i <;> rfl
      · cases happly : s.machine.apply i <;> rw [happly] at hprogram <;> exact hprogram
    · exact .parted hback

/-- Two sessions part at a bracket. Until then no program is run, and both are observed in the same
way. The bracket names no partner; the program of the first session records one, and this session
goes on behind it, while the second one fails for want of a partner. -/
structure PartAt (fuel : Nat) (traced : Bool) (s s' : Session) (before : List Call)
    (i : Instruction) (partner : Int) : Prop where
  quiet : ∀ call ∈ before, call.RunsNothing
  same : s'.observed fuel traced before = s.observed fuel traced before
  unnamed : i.partner = none
  recorded : s.machine.jump? i.index = some partner
  goes : ((s.afterCalls fuel traced before).perform fuel traced (.apply i)).result =
    some (.ok (.number (partner + 1)))
  fails : ((s'.afterCalls fuel traced before).perform fuel traced (.apply i)).result =
    some (.error (.fault (.noPartner i.index)))

theorem partAt_of_fallsBack (h : s'.machine = s.machine.unloaded) {i : Instruction} {partner : Int}
    (hback : s.machine.FallsBack i partner) : PartAt fuel traced s s' [] i partner := by
  refine ⟨?_, ?_, hback.unnamed, hback.recorded, ?_, ?_⟩
  · intro call hcall
    exact absurd hcall List.not_mem_nil
  · rw [observed, observed]
  · obtain ⟨m', hfound⟩ := hback.found
    rw [afterCalls, List.foldl_nil, perform, hfound]
    rfl
  · rw [afterCalls, List.foldl_nil, perform, h, hback.missed]
    rfl

/-- **Calls do the same without a program**, up to a bracket that comes to the partner in the jump
table. -/
theorem observed_unloaded (fuel : Nat) (traced : Bool) (calls : List Call) {s s' : Session}
    (h : s'.machine = s.machine.unloaded) :
    s'.observed fuel traced calls = s.observed fuel traced calls ∨
      ∃ before i behind partner, calls = before ++ .apply i :: behind ∧
        PartAt fuel traced s s' before i partner := by
  induction calls generalizing s s' with
  | nil => exact Or.inl rfl
  | cons call rest ih =>
    cases call_beside fuel traced h call with
    | joined hresult hafter =>
      -- from here on the machines are the same
      refine Or.inl ?_
      rw [observed, observed, hresult, hafter, observed_of_machine fuel traced rest hafter]
    | kept hquiet hresult hafter hprogram =>
      -- the machines still differ by the program, which is the same one
      have hunloaded : (s'.afterCall fuel traced call).machine.unloaded =
          (s.afterCall fuel traced call).machine.unloaded := by
        rw [hafter]
        rfl
      rcases ih hafter with hsame | ⟨before, i, behind, partner, rfl, hpart⟩
      · refine Or.inl ?_
        rw [observed, observed, hresult, hunloaded, hsame]
      · refine Or.inr ⟨call :: before, i, behind, partner, rfl, ?_, ?_, hpart.unnamed, ?_,
          hpart.goes, hpart.fails⟩
        · intro other hother
          rcases List.mem_cons.1 hother with rfl | hother
          · exact hquiet
          · exact hpart.quiet other hother
        · rw [observed, observed, hresult, hunloaded, hpart.same]
        · rw [Machine.jump?, ← hprogram]
          exact hpart.recorded
    | parted hback => exact Or.inr ⟨[], _, rest, _, rfl, partAt_of_fallsBack h hback⟩

end Session

/-! ## Resetting -/

/-- A new machine is one that has been reset, without its program. -/
theorem Machine.new_eq_reset {m : Machine} (h : m.Direct) :
    Machine.new m.input m.output = m.reset.unloaded := by
  rw [Machine.new, h.input, h.output]
  rfl

/-- **A machine that has been reset is as good as new, but for its program.** After any commands and
a reset, calls lead to the same answers, errors and states as on a new machine over the same
streams, or the two part at a bracket: it names no partner, no program has been run since the reset,
and the last program before the reset records a partner for its index. The machine that has been
reset goes on behind that partner, and the new one fails. -/
theorem reset_as_new (input : Input) (output : Output) (fuel : Nat) (traced : Bool)
    (history : List Command) (calls : List Call) :
    let s := (Session.over input output).afterCommands fuel traced history
    let cleared := (s.perform fuel traced .reset).session
    let fresh := Session.over s.machine.input s.machine.output
    fresh.observed fuel traced calls = cleared.observed fuel traced calls ∨
      ∃ before i behind partner, calls = before ++ .apply i :: behind ∧
        Session.PartAt fuel traced cleared fresh before i partner := by
  intro s cleared fresh
  have hdirect : s.machine.Direct :=
    Session.direct_afterCommands fuel traced history (.new input output)
  exact Session.observed_unloaded fuel traced calls (Machine.new_eq_reset hdirect)

/-- The program `[]` has been run, and the machine has been reset. It still goes on behind the end
of the loop when it is given a loop beginning that names no partner; a new machine fails. -/
theorem reset_keeps_program :
    let s := (Session.over .empty (.bytes #[] 0)).afterCommands 5 false
      [.run (Program.decode (Token.ofText "[]"))]
    let cleared := (s.perform 5 false .reset).session
    let fresh := Session.over s.machine.input s.machine.output
    let beginning : Call := .apply ⟨.openLoop, 0, 0, none, none, none⟩
    (cleared.perform 5 false beginning.command).result = some (.ok (.number 2)) ∧
      (fresh.perform 5 false beginning.command).result = some (.error (.fault (.noPartner 0))) ∧
      fresh.observed 5 false [beginning] ≠ cleared.observed 5 false [beginning] := by
  refine ⟨rfl, rfl, ?_⟩
  intro hsame
  exact absurd (congrArg (List.map Prod.fst) hsame) nofun

end TapeLanguage
