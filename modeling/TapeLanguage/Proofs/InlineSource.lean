import TapeLanguage.CommandLine.Report

/-!
# Source on the command line

A command line that carries a source does with it what is done with a source text anywhere
(`sourceReport`): it is decoded, and then listed or run. The source is all that stands behind its
switch, joined, whatever it looks like, as far as the first separator (`respond_inline`). The
separator itself is dropped, and what stands behind it is taken for files, which a command line with
a source must not have.

The switches before the source are read one after the other (`readArguments_settings`), and the
separator divides the arguments before any of them is looked at (`readCommandLine_append`).
-/

set_option autoImplicit false

namespace TapeLanguage.CommandLine

/-! ## What a source text does -/

/-- What a source text does: its error is told, or the program in it is listed or run. -/
def sourceReport (fuel : Nat) (dump debug : Bool) (text : String) (input : Input)
    (output : Output) : Report :=
  let decoding := Program.parse text
  let events := (Trace.ofCreated debug decoding.created).map Message.event
  match decoding.outcome with
  | .error e =>
    let (status, last) := failure (.decode e)
    ⟨status, input, output, events ++ last⟩
  | .ok p =>
    if dump then ⟨.exited 0, input, output, events ++ #[.text (Loaded.listing ⟨inlineName, p⟩)]⟩
    else
      let r := (Machine.new input output).run p fuel debug
        (Trace.note debug #[] (.running inlineName))
      let told := events ++ r.trace.map .event
      match r.phase with
      | .finished => ⟨.exited 0, r.machine.input, r.machine.output, told⟩
      | .failed fault =>
        let (status, last) := failure (.fault fault)
        ⟨status, r.machine.input, r.machine.output, told ++ last⟩
      | .running => ⟨.unfinished, r.machine.input, r.machine.output, told⟩

/-- A command line that carries a source does what the source does. -/
theorem carryOut_of_code {o : Options} {parts : List String} (h : o.code = some parts)
    (fuel : Nat) (files : FileSource) (input : Input) (output : Output) :
    carryOut fuel files o input output =
      sourceReport fuel o.dump o.debug (String.join parts) input output := by
  simp only [carryOut, load, h, loadText, sourceReport]
  cases (Program.parse (String.join parts)).outcome with
  | error e => rfl
  | ok p =>
    cases o.dump <;> rfl

/-! ## The switches before the source -/

/-- A switch that may stand before the source. -/
inductive Setting where
  /-- List the instructions and run nothing. -/
  | dump
  /-- Trace what happens. -/
  | debug
  /-- Set the encoding of source files. -/
  | encoding (name : String)
  deriving DecidableEq

namespace Setting

/-- The arguments that make a setting. -/
def arguments : Setting → List String
  | dump => ["--dump"]
  | debug => ["--debug"]
  | encoding name => ["--encoding", name]

/-- What a setting changes. -/
def apply : Setting → Options → Options
  | dump, o => { o with dump := true }
  | debug, o => { o with debug := true }
  | encoding name, o => { o with encoding := some name }

/-- What some settings change, one after the other. -/
def applyAll : List Setting → Options → Options
  | [], o => o
  | s :: settings, o => applyAll settings (s.apply o)

/-- The name of the encoding is no switch and not like one. -/
def Usable : Setting → Prop
  | dump | debug => True
  | encoding name => Kind.ofText name = .plain

end Setting

/-- The arguments of a command line that carries a source behind some settings. -/
def inlineArguments (settings : List Setting) (parts : List String) : List String :=
  settings.flatMap Setting.arguments ++ "-c" :: parts

/-- **Settings are read one after the other.** -/
theorem readArguments_settings {settings : List Setting} (h : ∀ s ∈ settings, s.Usable)
    (o : Options) (rest : List Argument) :
    readArguments ⟨o, .ahead, []⟩
        ((settings.flatMap Setting.arguments).map Argument.ofText ++ rest) =
      readArguments ⟨Setting.applyAll settings o, .ahead, []⟩ rest := by
  induction settings generalizing o with
  | nil => rfl
  | cons s settings ih =>
    have hs := h s List.mem_cons_self
    have hrest := ih (fun s hs => h s (List.mem_cons_of_mem _ hs)) (s.apply o)
    rw [Setting.applyAll, ← hrest, List.flatMap_cons, List.map_append, List.append_assoc]
    cases s with
    | dump => rfl
    | debug => rfl
    | encoding name =>
      have hname : Argument.ofText name = ⟨name, .plain⟩ := congrArg (Argument.mk name) hs
      have hswitch : Argument.ofText "--encoding" = ⟨"--encoding", .bare .encoding⟩ := rfl
      simp only [Setting.arguments, List.map_cons, List.map_nil, hname, hswitch, List.cons_append,
        List.nil_append]
      rfl

/-- What settings change, and what they leave alone. -/
theorem applyAll_eq (settings : List Setting) (o : Options) :
    let all := Setting.applyAll settings o
    all.files = o.files ∧ all.dump = (o.dump || decide (.dump ∈ settings)) ∧
      all.debug = (o.debug || decide (.debug ∈ settings)) := by
  induction settings generalizing o with
  | nil => simp [Setting.applyAll]
  | cons s settings ih =>
    obtain ⟨hfiles, hdump, hdebug⟩ := ih (s.apply o)
    simp only [Setting.applyAll, hfiles, hdump, hdebug]
    cases s <;> simp [Setting.apply]

theorem separator_not_mem_settings {settings : List Setting} (h : ∀ s ∈ settings, s.Usable) :
    separator ∉ settings.flatMap Setting.arguments := by
  rw [List.mem_flatMap]
  rintro ⟨s, hs, hseparator⟩
  have hkind : Kind.ofText separator ≠ .plain := by decide
  cases s with
  | dump | debug => exact absurd hseparator (by decide)
  | encoding name =>
    rcases List.mem_cons.1 hseparator with heq | hmem
    · exact absurd heq (by decide)
    · -- a name that is plain is not the separator
      rw [List.mem_singleton] at hmem
      exact hkind (hmem ▸ h _ hs)

/-! ## The separator -/

section Separator

variable {before tail : List String}

theorem ne_separator (h : separator ∉ before) : ∀ text ∈ before, (text != separator) = true := by
  intro text htext
  rw [bne_iff_ne]
  rintro rfl
  exact h htext

/-- **The separator divides the arguments** before any of them is looked at. -/
theorem readCommandLine_append {p : Progress} (hbefore : separator ∉ before)
    (htail : tail.takeWhile (· != separator) = [])
    (hread : readArguments {} (before.map Argument.ofText) = .ok p) :
    readCommandLine (before ++ tail) = (readTail p tail).finish := by
  have hpass := ne_separator hbefore
  have hrest := List.takeWhile_append_dropWhile (p := (· != separator)) (l := tail)
  rw [htail, List.nil_append] at hrest
  rw [readCommandLine, List.takeWhile_append_of_pos hpass, List.dropWhile_append_of_pos hpass,
    htail, hrest, List.append_nil, hread]

end Separator

section Source

variable {settings : List Setting} {parts : List String}

/-- A source behind some settings is all that is read as far as the separator. -/
theorem readArguments_inline (h : ∀ s ∈ settings, s.Usable) (parts : List String) :
    readArguments {} ((inlineArguments settings parts).map Argument.ofText) =
      .ok ⟨{ Setting.applyAll settings {} with code := some parts }, .ahead, []⟩ := by
  have hswitch : Argument.ofText "-c" = ⟨"-c", .bare .code⟩ := rfl
  have htexts : (parts.map Argument.ofText).map Argument.text = parts := by
    rw [List.map_map]
    exact List.map_id parts
  rw [inlineArguments, List.map_append, List.map_cons, hswitch]
  have hsettings := readArguments_settings h {} (⟨"-c", .bare .code⟩ :: parts.map Argument.ofText)
  rw [readArguments, htexts] at hsettings
  exact hsettings

theorem separator_not_mem_inline (h : ∀ s ∈ settings, s.Usable) (hparts : separator ∉ parts) :
    separator ∉ inlineArguments settings parts := by
  rw [inlineArguments, List.mem_append, List.mem_cons, not_or, not_or]
  exact ⟨separator_not_mem_settings h, by decide, hparts⟩

/-- What is asked for is the source, unless files stand behind the separator. -/
theorem readCommandLine_inline (h : ∀ s ∈ settings, s.Usable) (hparts : separator ∉ parts)
    {tail : List String} (htail : tail.takeWhile (· != separator) = []) :
    readCommandLine (inlineArguments settings parts ++ tail) =
      if tail.tail.isEmpty then
        .ok { Setting.applyAll settings {} with code := some parts }
      else .error (.wrong .sourceTwice) := by
  obtain ⟨hfiles, -, -⟩ := applyAll_eq settings {}
  have hread := readArguments_inline h parts
  rw [readCommandLine_append (separator_not_mem_inline h hparts) htail hread]
  cases tail with
  | nil => simp [readTail, Progress.finish, hfiles]
  | cons mark texts =>
    -- the run of files has not begun before the separator, so it begins behind it
    cases texts with
    | nil => simp [readTail, Progress.plain, Progress.finish, hfiles]
    | cons file more => simp [readTail, Progress.plain, Progress.finish]

/-- The switch for the encoding needs a value that is no switch and not like one. -/
theorem readArguments_missing (p : Progress) (text : String) {rest : List Argument}
    (h : ∀ a ∈ rest.head?, a.kind ≠ .plain) :
    readArguments p (⟨text, .bare .encoding⟩ :: rest) =
      .error (.wrong (.missingValue .encoding)) := by
  cases rest with
  | nil => rfl
  | cons a rest =>
    obtain ⟨value, kind⟩ := a
    cases kind with
    | plain => exact absurd rfl (h _ rfl)
    | bare s | attached s short value | unknown => rfl

/-- Without a usable name of an encoding nothing else of the command line counts. -/
theorem readCommandLine_missing (h : ∀ s ∈ settings, s.Usable) {name : String}
    (hname : Kind.ofText name ≠ .plain) (rest : List String) :
    readCommandLine (settings.flatMap Setting.arguments ++ "--encoding" :: name :: rest) =
      .error (.wrong (.missingValue .encoding)) := by
  have hswitch : Argument.ofText "--encoding" = ⟨"--encoding", .bare .encoding⟩ := rfl
  -- before the separator nothing plain stands behind the switch
  have hhead : ∀ a ∈ (((name :: rest).takeWhile (· != separator)).map Argument.ofText).head?,
      a.kind ≠ .plain := by
    intro a ha
    rw [List.takeWhile_cons] at ha
    split at ha
    · obtain rfl : Argument.ofText name = a := by simpa using ha
      exact hname
    · exact absurd ha (by simp)
  rw [readCommandLine,
    List.takeWhile_append_of_pos (ne_separator (separator_not_mem_settings h)),
    List.takeWhile_cons_of_pos (by decide), List.map_append, List.map_cons, hswitch,
    readArguments_settings h, readArguments_missing _ _ hhead]

end Source

/-! ## The source -/

/-- **All that stands behind the switch is source, as far as the first separator.** Behind any
settings, arguments among which there is no separator are joined, whatever they look like, and the
command line does what their text does. A separator behind them is dropped. Arguments behind the
separator are taken for files, and then nothing is done; neither is anything done if the name of an
encoding among the settings looks like a switch. -/
theorem respond_inline {settings : List Setting} (h : ∀ s ∈ settings, s.Usable)
    {parts : List String} (hparts : separator ∉ parts) (fuel : Nat) (files : FileSource)
    (input : Input) (output : Output) :
    let report := sourceReport fuel (decide (.dump ∈ settings)) (decide (.debug ∈ settings))
      (String.join parts) input output
    respond fuel files (inlineArguments settings parts) input output = report ∧
      respond fuel files (inlineArguments settings (parts ++ [separator])) input output = report ∧
      (∀ file more,
        respond fuel files (inlineArguments settings (parts ++ separator :: file :: more)) input
          output = ⟨.exited 2, input, output, #[.text UsageError.sourceTwice.report]⟩) ∧
      ∀ name, Kind.ofText name ≠ .plain → ∀ more,
        respond fuel files (settings.flatMap Setting.arguments ++ "--encoding" :: name :: more)
            input output =
          ⟨.exited 2, input, output, #[.text (UsageError.missingValue .encoding).report]⟩ := by
  intro report
  have hbehind : ∀ tail, inlineArguments settings (parts ++ tail) =
      inlineArguments settings parts ++ tail := by
    intro tail
    rw [inlineArguments, inlineArguments, List.append_assoc, List.cons_append]
  obtain ⟨-, hdump, hdebug⟩ := applyAll_eq settings {}
  rw [Bool.false_or] at hdump hdebug
  have haccepted : ∀ arguments, readCommandLine arguments =
      .ok { Setting.applyAll settings {} with code := some parts } →
      respond fuel files arguments input output = report := by
    intro arguments hread
    rw [respond, hread]
    dsimp only
    rw [carryOut_of_code rfl, hdump, hdebug]
  refine ⟨haccepted _ ?_, haccepted _ ?_, ?_, ?_⟩
  · have hnone : ([] : List String).takeWhile (· != separator) = [] := rfl
    have hread := readCommandLine_inline h hparts hnone
    rwa [List.append_nil] at hread
  · rw [hbehind]
    exact readCommandLine_inline h hparts (by decide)
  · intro file more
    have htail : (separator :: file :: more).takeWhile (· != separator) = [] := by simp
    rw [hbehind, respond, readCommandLine_inline h hparts htail]
    rfl
  · intro name hname more
    rw [respond, readCommandLine_missing h hname]

/-- Parts of a source that look like numbers, unknown switches and files. -/
theorem respond_inline_dashes :
    let report := respond 9 (Directory.source {})
      ["--debug", "--encoding", "-5", "-c", "+", "-", "--d", "+++."] (.bytes []) (.bytes #[] 0)
    report.status = .exited 0 ∧ report.output.contents = [1] := by
  have hsettings : ∀ s ∈ [Setting.debug, .encoding "-5"], s.Usable := by
    intro s hs
    rcases List.mem_cons.1 hs with rfl | hs
    · exact trivial
    · rw [List.mem_singleton.1 hs]
      rfl
  have hparts : separator ∉ ["+", "-", "--d", "+++."] := by decide
  obtain ⟨hreport, -⟩ := respond_inline hsettings hparts 9 (Directory.source {}) (.bytes [])
    (.bytes #[] 0)
  intro report
  have hsame : report = _ := hreport
  rw [hsame]
  exact ⟨rfl, rfl⟩

/-- A source with the separator in it is not what stands behind its switch. -/
theorem respond_inline_separator :
    let report := respond 9 (Directory.source {}) ["-c", "+", "--", "."] (.bytes [])
      (.bytes #[] 0)
    let joined := sourceReport 9 false false (String.join ["+", "--", "."]) (.bytes [])
      (.bytes #[] 0)
    (report.status = .exited 2 ∧ report.output.contents = []) ∧
      joined.status = .exited 0 ∧ joined.output.contents = [255] :=
  ⟨⟨rfl, rfl⟩, rfl, rfl⟩

end TapeLanguage.CommandLine
