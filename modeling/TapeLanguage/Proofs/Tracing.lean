import TapeLanguage.Machine.Session
import TapeLanguage.Proofs.InTurn

/-!
# Tracing

Tracing tells what a program does, and it changes nothing of that. Runs that differ in their events
alone do the same with every advance, whether it is traced or not (`Run.silenced_advance`), so the
events are all that differs between a run that is traced and one that is not
(`Machine.silenced_run`).

The switch that asks for the events changes nothing else of what a command line asks for
(`CommandLine.readCommandLine_debug`), sources are loaded as without it, and the programs run as
without it. So a command line does with the switch in front what it does without it, and tells the
same besides the events (`tracing_changes_nothing`).
-/

set_option autoImplicit false

namespace TapeLanguage

/-! ## Runs -/

namespace Run

/-- The run without its events. -/
def silenced (r : Run) : Run :=
  { r with trace := #[] }

/-- Runs that are the same without their events. -/
theorem eq_of_silenced {r r' : Run} (h : r.silenced = r'.silenced) :
    r.phase = r'.phase ∧ r.position = r'.position ∧ r.machine = r'.machine := by
  obtain ⟨hphase, hposition, hmachine, -⟩ := Run.mk.inj h
  exact ⟨hphase, hposition, hmachine⟩

theorem silenced_ofOutcome (position : Int) (trace trace' : Trace) (outcome : Outcome) :
    (ofOutcome position trace outcome).silenced = (ofOutcome position trace' outcome).silenced := by
  cases outcome <;> rfl

section Advance

variable (p : Program) (traced traced' : Bool) {r r' : Run}

/-- **An advance does the same whether it is traced or not**, whatever has been traced before. -/
theorem silenced_advance (h : r.silenced = r'.silenced) :
    (advance p traced r).silenced = (advance p traced' r').silenced := by
  obtain ⟨phase, position, m, trace⟩ := r
  obtain ⟨phase', position', m', trace'⟩ := r'
  obtain ⟨rfl, rfl, rfl⟩ := eq_of_silenced h
  cases phase with
  | finished | failed fault => rfl
  | running =>
    rw [advance, advance]
    split
    · cases p.get? position with
      | none => rfl
      | some i => exact silenced_ofOutcome position _ _ (m.apply i)
    · rfl

theorem silenced_advanceFor (n : Nat) (h : r.silenced = r'.silenced) :
    (advanceFor p traced n r).silenced = (advanceFor p traced' n r').silenced := by
  induction n generalizing r r' with
  | zero => exact h
  | succ n ih =>
    rw [advanceFor_succ, advanceFor_succ]
    exact ih (silenced_advance p traced traced' h)

/-- A run that is not traced has no events but those before it. -/
theorem trace_advanceFor (n : Nat) (r : Run) : (advanceFor p false n r).trace = r.trace := by
  refine advanceFor_invariant (P := fun r' => r'.trace = r.trace) ?_ n rfl
  rintro ⟨phase, position, m, trace⟩ rfl
  cases phase with
  | finished | failed fault => rfl
  | running =>
    rw [advance]
    split
    · cases p.get? position with
      | none => rfl
      | some i =>
        dsimp only
        cases m.apply i <;> rfl
    · rfl

end Advance

end Run

/-- **A run is the same whether it is traced or not.** -/
theorem Machine.silenced_run (m : Machine) (p : Program) (fuel : Nat) (traced traced' : Bool)
    (trace trace' : Trace) :
    (m.run p fuel traced trace).silenced = (m.run p fuel traced' trace').silenced :=
  Run.silenced_advanceFor p traced traced' fuel rfl

/-- What a session answers, and what it is after a command, does not depend on tracing. -/
theorem Session.perform_traced (fuel : Nat) (traced traced' : Bool) (s : Session)
    (command : Command) :
    (s.perform fuel traced command).result = (s.perform fuel traced' command).result ∧
      (s.perform fuel traced command).session = (s.perform fuel traced' command).session := by
  cases command with
  | run program =>
    simp only [perform]
    cases program.outcome with
    | error e => exact ⟨rfl, rfl⟩
    | ok p =>
      have hrun := s.machine.silenced_run p fuel traced traced'
        (Trace.ofCreated traced program.created) (Trace.ofCreated traced' program.created)
      obtain ⟨hphase, -, hmachine⟩ := Run.eq_of_silenced hrun
      dsimp only
      rw [runAnswer, hphase, hmachine]
      exact ⟨rfl, rfl⟩
  | load program =>
    simp only [perform]
    cases program.outcome <;> exact ⟨rfl, rfl⟩
  | attach | seek _ | step _ | apply _ | reset | tape _ => exact ⟨rfl, rfl⟩

namespace CommandLine

/-! ## The switch -/

/-- The same is asked for, with the events. -/
def Options.debugging (o : Options) : Options :=
  { o with debug := true }

/-- The same has been read, with the switch. -/
def Progress.debugging (p : Progress) : Progress :=
  { p with options := p.options.debugging }

namespace Progress

variable (p : Progress)

theorem plain_debugging (texts : List String) :
    p.debugging.plain texts = (p.plain texts).debugging := by
  obtain ⟨o, run, extra⟩ := p
  cases run <;> rfl

theorem unknown_debugging (text : String) :
    p.debugging.unknown text = (p.unknown text).debugging := by
  obtain ⟨o, run, extra⟩ := p
  cases run <;> rfl

theorem set_debugging {f : Options → Options} (hf : ∀ o, f o.debugging = (f o).debugging) :
    p.debugging.set f = (p.set f).debugging := by
  obtain ⟨o, run, extra⟩ := p
  cases run <;> simp only [set, debugging, interrupted, hf]

theorem finish_debugging : p.debugging.finish = p.finish.map Options.debugging := by
  -- what is left over, the source and the files decide
  obtain ⟨⟨files, code, encoding, dump, debug⟩, run, extra⟩ := p
  cases extra <;> cases code <;> cases files <;> rfl

end Progress

theorem readAttached_debugging (p : Progress) (s : Switch) (short : Bool) (value : String) :
    readAttached p.debugging s short value =
      (readAttached p s short value).map Progress.debugging := by
  cases s with
  | help | dump | debug => rfl
  | code | encoding => exact congrArg Except.ok (p.set_debugging fun _ => rfl)

/-- **Arguments behind the switch are read as without it.** -/
theorem readArguments_debugging (p : Progress) (arguments : List Argument) :
    readArguments p.debugging arguments =
      (readArguments p arguments).map Progress.debugging := by
  fun_induction readArguments p arguments with
  | case1 p => rfl
  | case2 p text rest ih => rw [← ih, readArguments, p.plain_debugging]
  | case3 p text rest ih => rw [← ih, readArguments, p.unknown_debugging]
  | case4 p text rest => rfl
  | case5 p text rest ih | case6 p text rest ih | case8 p text value rest ih =>
    rw [← ih, readArguments]
    exact congrArg (readArguments · rest) (p.set_debugging fun _ => rfl)
  | case7 p text rest => exact congrArg Except.ok (p.set_debugging fun _ => rfl)
  | case9 p text rest hvalue =>
    rw [readArguments]
    · rfl
    · exact hvalue
  | case10 p text s short value rest next hread ih =>
    rw [← ih, readArguments, readAttached_debugging, hread]
    rfl
  | case11 p text s short value rest halt hread =>
    rw [readArguments, readAttached_debugging, hread]
    rfl

theorem readTail_debugging (p : Progress) (texts : List String) :
    readTail p.debugging texts = (readTail p texts).debugging := by
  obtain ⟨o, run, extra⟩ := p
  cases texts with
  | nil => rfl
  | cons mark texts => cases run <;> rfl

/-- **The switch in front changes nothing else of what is asked for.** -/
theorem readCommandLine_debug (arguments : List String) :
    readCommandLine ("--debug" :: arguments) =
      (readCommandLine arguments).map Options.debugging := by
  have hhead : ("--debug" :: arguments).takeWhile (· != separator) =
      "--debug" :: arguments.takeWhile (· != separator) := rfl
  have htail : ("--debug" :: arguments).dropWhile (· != separator) =
      arguments.dropWhile (· != separator) := rfl
  have hread : readArguments {} (("--debug" :: arguments.takeWhile (· != separator)).map
      Argument.ofText) = (readArguments {} ((arguments.takeWhile (· != separator)).map
        Argument.ofText)).map Progress.debugging := by
    rw [← readArguments_debugging]
    rfl
  rw [readCommandLine, readCommandLine, hhead, htail, hread]
  cases readArguments {} ((arguments.takeWhile (· != separator)).map Argument.ofText) with
  | error halt => rfl
  | ok p =>
    show (readTail p.debugging _).finish = _
    rw [readTail_debugging, Progress.finish_debugging]

/-! ## The programs -/

/-- The report without the events among its messages. -/
def Report.silenced (r : Report) : Report :=
  { r with messages := ((told r.messages).map Message.text).toArray }

/-- Reports that end in the same way on the same streams, and tell the same, differ in the events
alone. -/
theorem silenced_mk (status : Status) (input : Input) (output : Output)
    {messages messages' : Array Message} (h : told messages = told messages') :
    Report.silenced ⟨status, input, output, messages⟩ =
      Report.silenced ⟨status, input, output, messages'⟩ := by
  rw [Report.silenced, Report.silenced, h]

/-- **Programs run in turn as they do without events.** -/
theorem silenced_runAll (fuel : Nat) (debug debug' : Bool) (programs : List Loaded) (input : Input)
    (output : Output) {messages messages' : Array Message} (h : told messages = told messages') :
    (runAll fuel debug programs input output messages).silenced =
      (runAll fuel debug' programs input output messages').silenced := by
  induction programs generalizing input output messages messages' with
  | nil => exact silenced_mk _ _ _ h
  | cons l rest ih =>
    have hrun := (Machine.new input output).silenced_run l.program fuel debug debug'
      (Trace.note debug #[] (.running l.name)) (Trace.note debug' #[] (.running l.name))
    rw [runAll, runAll]
    dsimp only
    generalize (Machine.new input output).run l.program fuel debug _ = r at hrun ⊢
    generalize (Machine.new input output).run l.program fuel debug' _ = r' at hrun ⊢
    obtain ⟨hphase, -, hmachine⟩ := Run.eq_of_silenced hrun
    have htold : told (messages ++ r.trace.map .event) =
        told (messages' ++ r'.trace.map .event) := by
      simp only [told_append, told_trace, h]
    rw [hphase, hmachine]
    cases r'.phase with
    | finished => exact ih _ _ htold
    | running => exact silenced_mk _ _ _ htold
    | failed fault =>
      refine silenced_mk _ _ _ ?_
      rw [told_append, htold, ← told_append]

section CarryOut

variable (files : FileSource) (o : Options)

/-- The same sources are loaded, or the same one is no program. -/
theorem load_debugging : (load files o.debugging).1 = (load files o).1 := by
  have hsources : o.debugging.sources files = o.sources files := rfl
  rcases firstFailure_or_programs (o.sources files) with ⟨e, he⟩ | ⟨programs, hprograms⟩
  · rw [load_of_firstFailure he, load_of_firstFailure (hsources ▸ he)]
  · rw [load_of_programs hprograms, load_of_programs (hsources ▸ hprograms)]

/-- **What is asked for is carried out as without events.** -/
theorem silenced_carryOut (fuel : Nat) (input : Input) (output : Output) :
    (carryOut fuel files o.debugging input output).silenced =
      (carryOut fuel files o input output).silenced := by
  have hload := load_debugging files o
  cases hresult : (load files o).1 with
  | error e =>
    rw [carryOut_of_error output fuel hresult, carryOut_of_error output fuel (hload.trans hresult)]
    exact silenced_mk _ _ _ (by simp only [told_append, told_trace])
  | ok programs =>
    rw [carryOut_of_ok output fuel hresult, carryOut_of_ok output fuel (hload.trans hresult),
      show o.debugging.dump = o.dump from rfl]
    cases o.dump with
    | true => exact silenced_mk _ _ _ (by simp only [told_append, told_trace])
    | false => exact silenced_runAll fuel _ _ programs input output (by simp only [told_trace])

end CarryOut

/-! ## Without the switch -/

/-- There is no event among the messages. -/
def Silent (messages : Array Message) : Prop :=
  ((told messages).map Message.text).toArray = messages

theorem Silent.append {a b : Array Message} (ha : Silent a) (hb : Silent b) : Silent (a ++ b) := by
  rw [Silent] at ha hb ⊢
  rw [told_append, List.map_append, ← List.append_toArray, ha, hb]

/-- A report without events is all that is left of it without them. -/
theorem Silent.silenced_eq {r : Report} (h : Silent r.messages) : r.silenced = r := by
  rw [Report.silenced, show _ = r.messages from h]

theorem silent_failure (e : Error) : Silent (failure e).2 := by
  unfold failure
  split
  · rfl
  · split <;> rfl

theorem silent_listings (programs : List Loaded) :
    Silent (programs.map fun l => Message.text l.listing).toArray := by
  rw [Silent, told_listings, List.map_map]
  rfl

/-- Programs that run without events tell none. -/
theorem silent_runAll (fuel : Nat) (programs : List Loaded) (input : Input) (output : Output)
    {messages : Array Message} (h : Silent messages) :
    Silent (runAll fuel false programs input output messages).messages := by
  induction programs generalizing input output messages with
  | nil => exact h
  | cons l rest ih =>
    have htrace := Run.trace_advanceFor l.program fuel
      (.start (.new input output) l.program (Trace.note false #[] (.running l.name)))
    change (Machine.run _ l.program fuel false _).trace = #[] at htrace
    rw [runAll]
    dsimp only
    generalize (Machine.new input output).run l.program fuel false _ = r at htrace ⊢
    rw [htrace, Array.map_empty, Array.append_empty]
    cases r.phase with
    | finished => exact ih _ _ h
    | running => exact h
    | failed fault => exact h.append (silent_failure (.fault fault))

section Load

variable (files : FileSource)

theorem trace_loadFiles (encoding : Option String) (paths : List String) (loaded : Array Loaded) :
    (loadFiles files encoding false paths loaded #[]).2 = #[] := by
  induction paths generalizing loaded with
  | nil => rfl
  | cons path rest ih =>
    have hfile : (loadFile files encoding false path).2 = #[] := by
      rw [loadFile]
      cases readSource files path encoding <;> rfl
    rw [loadFiles]
    generalize loadFile files encoding false path = outcome at hfile ⊢
    obtain ⟨result, events⟩ := outcome
    obtain rfl : events = #[] := hfile
    cases result with
    | ok l => exact ih _
    | error e => rfl

/-- Sources that are loaded without events tell none. -/
theorem trace_load {o : Options} (h : o.debug = false) : (load files o).2 = #[] := by
  rw [load]
  cases o.code with
  | some parts =>
    rw [h]
    rfl
  | none =>
    rw [h]
    exact trace_loadFiles files o.encoding o.files #[]

end Load

/-- **A command line that does not ask for events tells none.** -/
theorem silent_respond (fuel : Nat) (files : FileSource) {arguments : List String}
    (h : ∀ o, readCommandLine arguments = .ok o → o.debug = false) (input : Input)
    (output : Output) : Silent (respond fuel files arguments input output).messages := by
  rw [respond]
  cases hread : readCommandLine arguments with
  | error halt => cases halt <;> rfl
  | ok o =>
    have htrace := trace_load files (h o hread)
    have hnone : Silent ((#[] : Trace).map .event) := by
      rw [Array.map_empty]
      rfl
    dsimp only
    cases hresult : (load files o).1 with
    | error e =>
      rw [carryOut_of_error output fuel hresult, htrace]
      exact hnone.append (silent_failure e)
    | ok programs =>
      rw [carryOut_of_ok output fuel hresult, htrace]
      split
      · exact hnone.append (silent_listings programs)
      · rw [h o hread]
        exact silent_runAll fuel programs input output hnone

end CommandLine

open CommandLine

/-- **Tracing changes nothing.** A run is answered in the same way and leaves the same machine at
the same place whether it is traced or not, whatever the program and the machine are, and so does
every command of a session. A command line ends in the same way with the switch for tracing in front
as without it, leaves the same streams, and tells the same besides the events; and if it does not
ask for the events otherwise, then there are none without the switch. -/
theorem tracing_changes_nothing :
    (∀ (m : Machine) (p : Program) (fuel : Nat) (trace trace' : Trace),
      let r := m.run p fuel true trace
      let r' := m.run p fuel false trace'
      Session.runAnswer r = Session.runAnswer r' ∧ r.phase = r'.phase ∧
        r.position = r'.position ∧ r.machine = r'.machine) ∧
    (∀ (fuel : Nat) (s : Session) (command : Command),
      (s.perform fuel true command).result = (s.perform fuel false command).result ∧
        (s.perform fuel true command).session = (s.perform fuel false command).session) ∧
    ∀ (fuel : Nat) (files : FileSource) (arguments : List String) (input : Input)
      (output : Output),
      let traced := respond fuel files ("--debug" :: arguments) input output
      let report := respond fuel files arguments input output
      traced.silenced = report.silenced ∧
        ((∀ o, readCommandLine arguments = .ok o → o.debug = false) →
          report.silenced = report) := by
  refine ⟨?_, fun fuel s command => s.perform_traced fuel true false command, ?_⟩
  · intro m p fuel trace trace' r r'
    obtain ⟨hphase, hposition, hmachine⟩ :=
      Run.eq_of_silenced (m.silenced_run p fuel true false trace trace')
    refine ⟨?_, hphase, hposition, hmachine⟩
    rw [Session.runAnswer, Session.runAnswer, hphase, hmachine]
  · intro fuel files arguments input output traced report
    constructor
    · simp only [traced, report, respond, readCommandLine_debug]
      cases readCommandLine arguments with
      | ok o => exact silenced_carryOut files o fuel input output
      | error halt => rfl
    · exact fun h => (silent_respond fuel files h input output).silenced_eq

/-- The events of a run: one for each instruction, and one for its end. -/
example : ∃ p, (Program.decode (Token.ofText ",.")).outcome = .ok p ∧
    (Machine.run (.new (.bytes [7]) (.bytes #[] 0)) p 3 true).trace.size = 3 ∧
    (Machine.run (.new (.bytes [7]) (.bytes #[] 0)) p 3 false).trace = #[] :=
  ⟨_, rfl, rfl, rfl⟩

end TapeLanguage
