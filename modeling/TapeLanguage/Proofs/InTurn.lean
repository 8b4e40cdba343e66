import TapeLanguage.Proofs.Coupling
import TapeLanguage.Proofs.Faults
import TapeLanguage.Proofs.Loading

/-!
# Programs in turn

A command line that runs programs runs each of them as if it were alone (`InTurn`): on a blank tape,
on the bytes of standard input that the programs before have not taken, and with an output that is
put behind theirs. The first program that does not finish is the last one. On streams of bytes a
machine keeps no byte waiting, so nothing is lost between two programs, and what was written before
does not change what a program does (`runAll_inTurn`). With the loading that comes first this is all
that a command line does to its streams and tells its user (`respond_in_order`).
-/

set_option autoImplicit false

namespace TapeLanguage

/-! ## Standard input -/

/-- The bytes of standard input; instead of its end there may be an interrupt by the user. -/
def Input.standard (interrupted : Bool) (rest : List UInt8) : Input :=
  if interrupted then .interrupting rest else .bytes rest

namespace Input

@[simp] theorem contents_standard (interrupted : Bool) (rest : List UInt8) :
    (standard interrupted rest).contents = rest := by
  cases interrupted <;> rfl

@[simp] theorem unwrapped_standard (interrupted : Bool) (rest : List UInt8) :
    (standard interrupted rest).unwrapped = standard interrupted rest := by
  cases interrupted <;> rfl

theorem contents_unwrapped (input : Input) : input.unwrapped.contents = input.contents := by
  cases input <;> rfl

end Input

theorem Output.contents_unwrapped (o : Output) : o.unwrapped.contents = o.contents := by
  cases o <;> rfl

/-- No byte of standard input waits: each is taken alone. -/
theorem Supply.fetch_standard (interrupted : Bool) (rest : List UInt8) :
    (fetch ⟨[], .standard interrupted rest⟩).2 = ⟨[], .standard interrupted rest.tail⟩ := by
  cases interrupted <;> cases rest <;> rfl

/-- Both machines read standard input from the same place, and the second one writes behind what has
been written before. -/
def StreamCoupling.appended (interrupted : Bool) (before : List UInt8) : StreamCoupling where
  supply s s' := s' = s ∧ ∃ rest, s = ⟨[], .standard interrupted rest⟩
  output o o' := o'.contents = before ++ o.contents
  fetch := by
    rintro s s' ⟨rfl, rest, rfl⟩
    exact ⟨rfl, rfl, rest.tail, Supply.fetch_standard interrupted rest⟩
  write := by
    intro o o' byte h
    rw [Output.contents_flush, Output.contents_flush, Output.contents_write, Output.contents_write,
      h, List.append_assoc]
  flush := by
    intro o o' h
    rw [Output.contents_flush, Output.contents_flush, h]

/-- A machine over standard input is in step with one that writes to an output of its own. -/
theorem new_appended {interrupted : Bool} {bytes : List UInt8} {input : Input}
    (hinput : input.unwrapped = .standard interrupted bytes) (output : Output) :
    (Coupling.ofStreams (.appended interrupted output.contents)).Machines
      (.new (.standard interrupted bytes) (.bytes #[] 0)) (.new input output) := by
  refine ⟨rfl, rfl, rfl, rfl, rfl, ⟨?_, bytes, ?_⟩, ?_⟩
  · simp only [Machine.supply, Machine.new, hinput, Input.unwrapped_standard]
  · simp only [Machine.supply, Machine.new, Input.unwrapped_standard]
  · show output.unwrapped.contents = output.contents ++ []
    rw [Output.contents_unwrapped, List.append_nil]

namespace CommandLine

open Program

/-! ## One program after the other -/

/-- A machine for a program that runs alone: a blank tape, bytes of standard input, and an output of
its own. -/
def machineAlone (interrupted : Bool) (bytes : List UInt8) : Machine :=
  .new (.standard interrupted bytes) (.bytes #[] 0)

/-- A program that runs alone. -/
def alone (fuel : Nat) (interrupted : Bool) (bytes : List UInt8) (p : Program) : Run :=
  (machineAlone interrupted bytes).run p fuel

/-- The bytes that are delivered to a program that runs alone. -/
def takenAlone (fuel : Nat) (interrupted : Bool) (bytes : List UInt8) (p : Program) : List UInt8 :=
  (Run.start (machineAlone interrupted bytes) p #[]).delivered p false fuel

/-- Programs run in turn on bytes of standard input. The last parts are the bytes that are left, the
bytes that are written, and how the last of the runs has ended. -/
inductive InTurn (fuel : Nat) (interrupted : Bool) :
    List UInt8 → List Loaded → List UInt8 → List UInt8 → Phase → Prop
  /-- No program is left. -/
  | over {bytes : List UInt8} : InTurn fuel interrupted bytes [] bytes [] .finished
  /-- A program finishes, and the others run on the bytes that it has not taken. -/
  | next {bytes more left written : List UInt8} {l : Loaded} {rest : List Loaded} {phase : Phase}
      (hbytes : bytes = takenAlone fuel interrupted bytes l.program ++ more)
      (hfinished : (alone fuel interrupted bytes l.program).phase = .finished)
      (hrest : InTurn fuel interrupted more rest left written phase) :
      InTurn fuel interrupted bytes (l :: rest) left
        ((alone fuel interrupted bytes l.program).machine.output.contents ++ written) phase
  /-- A program does not finish, and no other one runs. -/
  | last {bytes left : List UInt8} {l : Loaded} {rest : List Loaded}
      (hbytes : bytes = takenAlone fuel interrupted bytes l.program ++ left)
      (hstopped : (alone fuel interrupted bytes l.program).phase ≠ .finished) :
      InTurn fuel interrupted bytes (l :: rest) left
        (alone fuel interrupted bytes l.program).machine.output.contents
        (alone fuel interrupted bytes l.program).phase

/-- **A program does behind others what it does alone.** -/
theorem run_eq_alone {interrupted : Bool} {bytes : List UInt8} {input : Input}
    (hinput : input.unwrapped = .standard interrupted bytes) (output : Output) (p : Program)
    (fuel : Nat) (traced : Bool) (trace : Trace) :
    ((Machine.new input output).run p fuel traced trace).phase =
        (alone fuel interrupted bytes p).phase ∧
      ((Machine.new input output).run p fuel traced trace).machine.output.contents =
        output.contents ++ (alone fuel interrupted bytes p).machine.output.contents ∧
      ∃ more, bytes = takenAlone fuel interrupted bytes p ++ more ∧
        ((Machine.new input output).run p fuel traced trace).machine.input =
          .standard interrupted more := by
  obtain ⟨hphase, -, hm⟩ :=
    (new_appended hinput output).run p fuel false traced #[] trace
  obtain ⟨hsupply, more, hmore⟩ := hm.supply
  refine ⟨hphase.trans (Phase.shifted_zero _), hm.output, more, ?_, ?_⟩
  · have hbytes := Run.bytes_eq_delivered p false fuel
      (.start (machineAlone interrupted bytes) p #[])
    have hstart : (Run.start (machineAlone interrupted bytes) p #[]).machine.supply =
        ⟨[], .standard interrupted bytes⟩ :=
      congrArg (Supply.mk []) (Input.unwrapped_standard interrupted bytes)
    rw [hstart] at hbytes
    change (Supply.bytes ⟨[], .standard interrupted bytes⟩) =
      takenAlone fuel interrupted bytes p ++
        (alone fuel interrupted bytes p).machine.supply.bytes at hbytes
    change (alone fuel interrupted bytes p).machine.supply = _ at hmore
    rw [hmore] at hbytes
    simpa only [Supply.bytes, List.nil_append, Input.contents_standard] using hbytes
  · exact congrArg Supply.input (hsupply.trans hmore)

/-! ## What the user is told -/

/-- The texts among messages, without the events. -/
def told (messages : Array Message) : List String :=
  messages.toList.filterMap fun message =>
    match message with
    | .event _ => none
    | .text t => some t

@[simp] theorem told_append (a b : Array Message) : told (a ++ b) = told a ++ told b := by
  rw [told, Array.toList_append, List.filterMap_append]
  rfl

/-- Events tell nothing. -/
@[simp] theorem told_trace (trace : Trace) : told (trace.map .event) = [] := by
  rw [told, Array.toList_map, List.filterMap_map, List.filterMap_eq_nil_iff]
  intro _ _
  rfl

@[simp] theorem told_listings (programs : List Loaded) :
    told (programs.map fun l => .text l.listing).toArray = programs.map Loaded.listing := by
  rw [told, List.filterMap_map]
  exact congrFun List.filterMap_eq_map programs

/-- How a command line ends whose last run has ended in a phase, and what the user is told. -/
def conclusion : Phase → Status × List String
  | .finished => (.exited 0, [])
  | .running => (.unfinished, [])
  | .failed .interrupted => (.exited 130, [])
  | .failed fault => (.exited 1, [fault.message ++ "\n"])

/-- The failure of a program on standard input is reported, or it is an interrupt. -/
theorem failure_of_stopsWith {p : Program} {interrupted : Bool} {bytes : List UInt8} {tape : Tape}
    {position : Int} {fault : Fault}
    (h : StopsWith p (.standard interrupted bytes) tape position fault) :
    ((failure (.fault fault)).1, told (failure (.fault fault)).2) = conclusion (.failed fault) := by
  cases h with
  | lacking hi hop hlacks =>
    cases interrupted with
    | false =>
      obtain rfl : _ = Lack.ended := hlacks
      rfl
    | true =>
      obtain rfl : _ = Lack.interrupted := hlacks
      rfl
  | offLeft hi hop hpointer | offRight hi hop hpointer => rfl

/-! ## All programs -/

/-- **Programs run in turn** on standard input, behind what has been written and told before. -/
theorem runAll_inTurn {programs : List Loaded}
    (hdecoded : ∀ l ∈ programs, ∃ tokens, Decodes tokens l.program) (fuel : Nat) (debug : Bool)
    {interrupted : Bool} {bytes : List UInt8} {input : Input}
    (hinput : input.unwrapped = .standard interrupted bytes) (output : Output)
    (messages : Array Message) :
    ∃ left written phase, InTurn fuel interrupted bytes programs left written phase ∧
      (runAll fuel debug programs input output messages).input.contents = left ∧
      (runAll fuel debug programs input output messages).output.contents =
        output.contents ++ written ∧
      (runAll fuel debug programs input output messages).status = (conclusion phase).1 ∧
      told (runAll fuel debug programs input output messages).messages =
        told messages ++ (conclusion phase).2 := by
  induction programs generalizing bytes input output messages with
  | nil =>
    refine ⟨bytes, [], .finished, .over, ?_, ?_, rfl, ?_⟩
    · rw [runAll, ← input.contents_unwrapped, hinput, Input.contents_standard]
    · rw [runAll, List.append_nil]
    · rw [runAll, conclusion, List.append_nil]
  | cons l rest ih =>
    obtain ⟨tokens, hl⟩ := hdecoded l List.mem_cons_self
    obtain ⟨hphase, hwritten, more, hbytes, hmore⟩ :=
      run_eq_alone hinput output l.program fuel debug (Trace.note debug #[] (.running l.name))
    have hcases := (Machine.new input output).run_cases hl fuel debug
      (Trace.note debug #[] (.running l.name))
    rw [runAll]
    generalize (Machine.new input output).run l.program fuel debug
      (Trace.note debug #[] (.running l.name)) = r at hphase hwritten hmore hcases ⊢
    have hnext : r.machine.input.unwrapped = .standard interrupted more := by
      rw [hmore, Input.unwrapped_standard]
    have hleft : r.machine.input.contents = more := by
      rw [hmore, Input.contents_standard]
    rcases hcases with ⟨hrunning, -⟩ | hfinished | ⟨fault, hfailed, hstops⟩
    · -- the program has not come to an end, and nothing else runs
      refine ⟨more, _, _, .last hbytes ?_, ?_⟩
      · rw [← hphase, hrunning]
        exact nofun
      · rw [← hphase, hrunning]
        exact ⟨hleft, hwritten, rfl, by simp [conclusion]⟩
    · -- the next program goes on where this one has stopped reading
      have hrest : ∀ l ∈ rest, ∃ tokens, Decodes tokens l.program :=
        fun l hl => hdecoded l (List.mem_cons_of_mem _ hl)
      obtain ⟨left, written, phase, hturns, hinput', houtput, hstatus, htold⟩ :=
        ih hrest hnext r.machine.output (messages ++ r.trace.map .event)
      refine ⟨left, _, phase, .next hbytes (hphase ▸ hfinished) hturns, ?_⟩
      rw [hfinished]
      refine ⟨hinput', ?_, hstatus, ?_⟩
      · rw [houtput, hwritten, List.append_assoc]
      · rw [htold, told_append, told_trace, List.append_nil]
    · -- the program has failed, and nothing else runs
      have hstandard : (Machine.new input output).input = .standard interrupted bytes := hinput
      rw [hstandard] at hstops
      have hfailure := failure_of_stopsWith hstops
      refine ⟨more, _, _, .last hbytes ?_, ?_⟩
      · rw [← hphase, hfailed]
        exact nofun
      · rw [← hphase, hfailed, ← hfailure]
        refine ⟨hleft, hwritten, rfl, ?_⟩
        rw [told_append, told_append, told_trace, List.append_nil]

/-! ## A command line -/

/-- A command line that is accepted is carried out. -/
theorem respond_of_accepted {files : FileSource} {arguments : List String} {o : Options}
    (h : readCommandLine arguments = .ok o) (input : Input) (output : Output) (fuel : Nat) :
    respond fuel files arguments input output = carryOut fuel files o input output := by
  simp only [respond, h]

/-- A command line that is accepted names files or carries a source, and not both. -/
theorem code_iff_of_readCommandLine {arguments : List String} {o : Options}
    (h : readCommandLine arguments = .ok o) : o.code.isSome = true ↔ o.files = [] := by
  have hfinish : ∀ p : Progress, p.finish = .ok o → (o.code.isSome = true ↔ o.files = []) := by
    intro p hp
    rw [Progress.finish] at hp
    split at hp
    · exact absurd hp nofun
    · split at hp
      · exact absurd hp nofun
      · split at hp
        · exact absurd hp nofun
        · next hnone hboth =>
          obtain rfl := Except.ok.inj hp
          cases hcode : p.options.code <;> simp_all
  rw [readCommandLine] at h
  cases hread : readArguments {} ((arguments.takeWhile (· != separator)).map Argument.ofText) with
  | ok p =>
    simp only [hread] at h
    exact hfinish _ h
  | error halt =>
    simp only [hread] at h
    exact absurd h nofun

section CarryOut

variable {files : FileSource} {o : Options} {input : Input} (output : Output) (fuel : Nat)

/-- An error of loading ends everything, after the events of loading. -/
theorem carryOut_of_error {e : Error} (h : (load files o).1 = .error e) :
    carryOut fuel files o input output =
      ⟨(failure e).1, input, output, (load files o).2.map .event ++ (failure e).2⟩ := by
  rw [carryOut]
  generalize load files o = loaded at h ⊢
  obtain ⟨result, trace⟩ := loaded
  obtain rfl : result = .error e := h
  rfl

/-- The programs that are loaded are listed or run, after the events of loading. -/
theorem carryOut_of_ok {programs : List Loaded} (h : (load files o).1 = .ok programs) :
    carryOut fuel files o input output =
      if o.dump then
        ⟨.exited 0, input, output,
          (load files o).2.map .event ++ (programs.map fun l => Message.text l.listing).toArray⟩
      else runAll fuel o.debug programs input output ((load files o).2.map .event) := by
  rw [carryOut]
  generalize load files o = loaded at h ⊢
  obtain ⟨result, trace⟩ := loaded
  obtain rfl : result = .ok programs := h
  rfl

variable (input) in
/-- The first source that is no program is reported, and the streams are left alone. -/
theorem carryOut_of_reported {e : Error} (h : FirstFailure (o.sources files) e)
    (hreported : e.isReported = true) :
    let report := carryOut fuel files o input output
    report.status = .exited 1 ∧ told report.messages = [e.message ++ "\n"] ∧
      report.input = input ∧ report.output = output := by
  have hfailure : failure e = (.exited 1, #[.text (e.message ++ "\n")]) := if_pos hreported
  rw [carryOut_of_error output fuel (load_of_firstFailure h), hfailure]
  refine ⟨rfl, ?_, rfl, rfl⟩
  rw [told_append, told_trace]
  rfl

variable (input) in
/-- If reading the first source that is no program has failed without a path, nobody is told, and
the streams are left alone. -/
theorem carryOut_of_unreported {e : SourceError} (h : FirstFailure (o.sources files) (.source e))
    (hnone : e.path? = none) :
    let report := carryOut fuel files o input output
    report.status = .uncaught (.source e) ∧ told report.messages = [] ∧ report.input = input ∧
      report.output = output := by
  have hfailure : failure (.source e) = (.uncaught (.source e), #[]) := by
    simp [failure, isReported_source, hnone]
  rw [carryOut_of_error output fuel (load_of_firstFailure h), hfailure]
  exact ⟨rfl, by simp [told], rfl, rfl⟩

variable {programs : List Loaded} (hprograms : o.sources files = programs.map Loaded.source)

include hprograms

/-- The programs are listed, and the streams are left alone. -/
theorem carryOut_of_dump (hdump : o.dump = true) :
    let report := carryOut fuel files o input output
    report.status = .exited 0 ∧ told report.messages = programs.map Loaded.listing ∧
      report.input = input ∧ report.output = output := by
  rw [carryOut_of_ok output fuel (load_of_programs hprograms), if_pos hdump]
  refine ⟨rfl, ?_, rfl, rfl⟩
  rw [told_append, told_trace, told_listings, List.nil_append]

/-- After the events of loading, the programs run. -/
theorem carryOut_eq_runAll (input : Input) (hdump : o.dump = false) :
    ∃ events : Trace, carryOut fuel files o input output =
      runAll fuel o.debug programs input output (events.map .event) := by
  refine ⟨(load files o).2, ?_⟩
  rw [carryOut_of_ok output fuel (load_of_programs hprograms), if_neg (Bool.eq_false_iff.1 hdump)]

/-- The programs run in turn on standard input. -/
theorem carryOut_of_programs {interrupted : Bool} {bytes : List UInt8}
    (hinput : input.unwrapped = .standard interrupted bytes) (hdump : o.dump = false) :
    let report := carryOut fuel files o input output
    ∃ left written phase, InTurn fuel interrupted bytes programs left written phase ∧
      report.input.contents = left ∧ report.output.contents = output.contents ++ written ∧
      report.status = (conclusion phase).1 ∧ told report.messages = (conclusion phase).2 := by
  obtain ⟨events, hruns⟩ := carryOut_eq_runAll output fuel hprograms input hdump
  obtain ⟨left, written, phase, hturns, hrest⟩ := runAll_inTurn (exists_decodes hprograms) fuel
    o.debug hinput output (events.map .event)
  rw [told_trace, List.nil_append] at hrest
  rw [hruns]
  exact ⟨left, written, phase, hturns, hrest⟩

end CarryOut

/-- **A command line runs all its sources or none, in order and each for itself.** Let it be
accepted and its files be such as can be asked for, whatever the names of encodings stand for. If a
source is no program, neither stream is touched. The first such source is reported, unless it is a
file whose bytes its codec refuses: then the refusal is not caught, and the user is not told.
Otherwise the programs are listed without touching a stream, or they run in turn on standard input,
and what the user is told at the end is why the last of the runs has not finished. -/
theorem respond_in_order {files : FileSource} {arguments : List String} {o : Options}
    {input : Input} {interrupted : Bool} {bytes : List UInt8}
    (hread : readCommandLine arguments = .ok o) (husable : o.Usable files)
    (hinput : input.unwrapped = .standard interrupted bytes) (output : Output) (fuel : Nat) :
    let report := respond fuel files arguments input output
    (o.code.isSome = true ↔ o.files = []) ∧
      ((∃ e, FirstFailure (o.sources files) e ∧ report.input = input ∧ report.output = output ∧
          ((e.isReported = true ∧ report.status = .exited 1 ∧
              told report.messages = [e.message ++ "\n"]) ∨
            ∃ reason, o.Refused files reason ∧ e = .source (.refused reason) ∧
              report.status = .uncaught e ∧ told report.messages = [])) ∨
        ∃ programs, o.sources files = programs.map Loaded.source ∧
          (o.dump = true → report.status = .exited 0 ∧
            told report.messages = programs.map Loaded.listing ∧ report.input = input ∧
            report.output = output) ∧
          (o.dump = false → ∃ left written phase,
            InTurn fuel interrupted bytes programs left written phase ∧
              report.input.contents = left ∧
              report.output.contents = output.contents ++ written ∧
              report.status = (conclusion phase).1 ∧
              told report.messages = (conclusion phase).2)) := by
  intro report
  have hreport : report = carryOut fuel files o input output :=
    respond_of_accepted hread input output fuel
  rw [hreport]
  refine ⟨code_iff_of_readCommandLine hread, ?_⟩
  rcases firstFailure_or_programs (o.sources files) with ⟨e, he⟩ | ⟨programs, hprograms⟩
  · refine Or.inl ⟨e, he, ?_⟩
    rcases cases_of_firstFailure husable he with hreported | ⟨reason, hrefused, rfl⟩
    · obtain ⟨hstatus, htold, hin, hout⟩ :=
        carryOut_of_reported input output fuel he hreported
      exact ⟨hin, hout, Or.inl ⟨hreported, hstatus, htold⟩⟩
    · obtain ⟨hstatus, htold, hin, hout⟩ :=
        carryOut_of_unreported input output fuel he rfl
      exact ⟨hin, hout, Or.inr ⟨reason, hrefused, rfl, hstatus, htold⟩⟩
  · exact Or.inr ⟨programs, hprograms, carryOut_of_dump output fuel hprograms,
      carryOut_of_programs output fuel hprograms hinput⟩

/-- The second of two files runs out of input, after what both have written. -/
theorem respond_in_order_short : ∃ (files : FileSource) (o : Options),
    readCommandLine ["a", "b"] = .ok o ∧ o.Usable files ∧
    let report := respond 9 files ["a", "b"] (.bytes [7, 8]) (.bytes #[] 0)
    report.status = .exited 1 ∧ report.output.contents = [7, 8] ∧
      ∃ programs left phase, o.sources files = programs.map Loaded.source ∧
        InTurn 9 false [7, 8] programs left [7, 8] phase ∧
        told report.messages = (conclusion phase).2 := by
  have hfiles : ∃ (files : FileSource) (o : Options),
      readCommandLine ["a", "b"] = .ok o ∧ o.Usable files ∧ o.dump = false ∧
      let report := respond 9 files ["a", "b"] (.bytes [7, 8]) (.bytes #[] 0)
      report.status = .exited 1 ∧ report.output.contents = [7, 8] := by
    let contents (path : Path) : List UInt8 :=
      if path.text = "a" then [0x2C, 0x2E] else [0x2C, 0x2E, 0x2C]
    refine ⟨⟨fun path => .ok (.ok (contents path)), Encoding.ofName⟩, _, rfl, ?_, rfl, rfl, rfl⟩
    intro path hpath
    change path ∈ ["a", "b"] at hpath
    simp only [List.mem_cons, List.not_mem_nil, or_false] at hpath
    rcases hpath with rfl | rfl <;> exact ⟨rfl, "utf-8", Encoding.utf8, rfl, rfl, rfl⟩
  obtain ⟨files, o, hread, husable, hdump, hstatus, hcontents⟩ := hfiles
  refine ⟨files, o, hread, husable, hstatus, hcontents, ?_⟩
  have hinput : (Input.bytes [7, 8]).unwrapped = .standard false [7, 8] := rfl
  obtain ⟨-, ⟨e, -, -, houtput, -⟩ | ⟨programs, hprograms, -, hrun⟩⟩ :=
    respond_in_order hread husable hinput (.bytes #[] 0) 9
  · -- nothing would have been written
    rw [houtput] at hcontents
    exact absurd hcontents nofun
  · obtain ⟨left, written, phase, hturns, -, hwritten, -, htold⟩ := hrun hdump
    obtain rfl : [7, 8] = written := hcontents.symm.trans hwritten
    exact ⟨programs, left, phase, hprograms, hturns, htold⟩

/-- A file of UTF-16 without a byte order mark, which its codec refuses: there is no exit status,
and the user is told nothing. -/
theorem respond_refused : ∃ (files : FileSource) (o : Options) (e : Error),
    readCommandLine ["--encoding", "utf-16", "a"] = .ok o ∧ o.Usable files ∧
      FirstFailure (o.sources files) e ∧
      let report := respond 9 files ["--encoding", "utf-16", "a"] (.bytes []) (.bytes #[] 0)
      report.status = .uncaught e ∧ (∀ code, report.status ≠ .exited code) ∧
        told report.messages = [] := by
  have hfiles : ∃ (files : FileSource) (o : Options),
      readCommandLine ["--encoding", "utf-16", "a"] = .ok o ∧ o.Usable files ∧
        FirstFailure (o.sources files)
          (.source (.refused "UTF-16 stream does not start with BOM")) := by
    refine ⟨⟨fun _ => .ok (.ok [0x2B, 0x2E]), Encoding.ofName⟩, _, rfl, ?_, [], "a", [], rfl⟩
    intro path hpath
    obtain rfl : path = "a" := List.mem_singleton.1 hpath
    exact ⟨rfl, "utf-16", Encoding.utf16, rfl, rfl, rfl⟩
  obtain ⟨files, o, hread, husable, hfirst⟩ := hfiles
  obtain ⟨hstatus, htold, -⟩ :=
    carryOut_of_unreported (.bytes []) (.bytes #[] 0) 9 hfirst rfl
  refine ⟨files, o, _, hread, husable, hfirst, ?_⟩
  rw [respond_of_accepted hread]
  refine ⟨hstatus, fun code h => ?_, htold⟩
  exact Status.noConfusion (hstatus.symm.trans h)

end CommandLine

end TapeLanguage
