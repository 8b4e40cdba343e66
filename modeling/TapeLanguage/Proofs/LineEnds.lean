import TapeLanguage.Proofs.Loading
import TapeLanguage.Proofs.RunAlike

/-!
# Ends of lines in source files

A text that is read from a file has its ends of lines written as line feeds, so it is not always the
text that the file holds. Both texts have the same instructions, since no end of line is one
(`filter_unifiedNewlines`). They are therefore the same program or give the same error, up to places
(`parse_unifiedNewlines`), and running them is the same (`seen_execute`).

Where each carriage return belongs to a line feed after it, the places are the same too: the
carriage return is the last character of its line, and nothing stands behind it
(`scan_unifiedNewlines`). Only the lines that are shown around a stray loop end may differ then, by
the carriage returns in them (`parse_of_scan_eq`).
-/

set_option autoImplicit false

namespace TapeLanguage

open Program

/-! ## The instructions of a text -/

/-- Every carriage return is followed by a line feed. -/
def Text.ReturnsPaired (cs : List Char) : Prop :=
  ∀ n, cs[n]? = some '\r' → cs[n + 1]? = some '\n'

theorem Text.ReturnsPaired.tail {c : Char} {cs : List Char} (h : ReturnsPaired (c :: cs)) :
    ReturnsPaired cs := by
  intro n hn
  exact h (n + 1) hn

namespace Source

theorem isSymbol_return : isSymbol '\r' = false := rfl

/-- Writing ends of lines in another way keeps the symbols. -/
theorem filter_unifyNewlines (cs : List Char) (done : Array Char) :
    (Text.unifyNewlines cs done).toList.filter isSymbol =
      done.toList.filter isSymbol ++ cs.filter isSymbol := by
  fun_induction Text.unifyNewlines cs done with
  | case1 rest done ih => simp [ih, isSymbol_lineFeed, isSymbol_return]
  | case2 rest done _ ih => simp [ih, isSymbol_lineFeed, isSymbol_return]
  | case3 c rest done _ _ ih => cases hc : isSymbol c <;> simp [ih, hc]
  | case4 done => simp

/-- A carriage return before a line feed does not change the place behind the line feed. -/
theorem Cursor.advance_return_lineFeed (s : Cursor) :
    (s.advance '\r').advance '\n' = s.advance '\n' := rfl

/-- A cursor that reads the text with unified ends of lines finds what it finds in the text, as long
as carriage returns are followed by line feeds. -/
theorem foldl_unifyNewlines {cs : List Char} (done : Array Char) (h : Text.ReturnsPaired cs)
    (s : Cursor) :
    (Text.unifyNewlines cs done).toList.foldl Cursor.advance s =
      cs.foldl Cursor.advance (done.toList.foldl Cursor.advance s) := by
  fun_induction Text.unifyNewlines cs done with
  | case1 rest done ih => simp [ih h.tail.tail, Cursor.advance_return_lineFeed]
  | case2 rest done hlone ih =>
    -- such a carriage return has its line feed
    obtain ⟨more, rfl⟩ := List.head?_eq_some_iff.1 (List.head?_eq_getElem?.trans (h 0 rfl))
    exact absurd rfl (hlone more)
  | case3 c rest done _ _ ih => simp [ih h.tail]
  | case4 done => rfl

/-- **Unified ends of lines keep the instructions of a text.** -/
theorem filter_unifiedNewlines (text : String) :
    filter (Text.unifiedNewlines text.toList) = filter text := by
  simp [filter, Text.unifiedNewlines, filter_unifyNewlines]

/-- **Unified ends of lines keep the places of the instructions**, as long as carriage returns are
followed by line feeds. -/
theorem scan_unifiedNewlines {text : String} (h : Text.ReturnsPaired text.toList) :
    scan (Text.unifiedNewlines text.toList) = scan text := by
  simp [scan, Text.unifiedNewlines, foldl_unifyNewlines #[] h]

end Source

/-! ## What decoding gives -/

/-- A place without the lines around it. -/
def Site.unshown (s : Site) : Site :=
  { s with excerpt := "" }

/-- A decode error that shows no lines of the source text. -/
def DecodeError.unshown : DecodeError → DecodeError
  | unmatchedClose position site => unmatchedClose position (site.map Site.unshown)
  | other => other

namespace Program

/-- The first pass looks at the source text only where it fails. -/
theorem Matching.steps_of_ok {source other : Option String} {tokens : List Token} {m m' : Matching}
    (h : steps source m tokens = .ok m') : steps other m tokens = .ok m' := by
  induction tokens generalizing m with
  | nil => exact h
  | cons t rest ih =>
    cases hstep : m.step source t with
    | error e => simp [steps, hstep] at h
    | ok next =>
      have hother : m.step other t = .ok next := by
        rw [step] at hstep ⊢
        split at hstep
        · next hopens => rw [if_pos hopens, hstep]
        · next hopens =>
          rw [if_neg hopens]
          split at hstep
          · next hcloses =>
            rw [if_pos hcloses]
            cases hback : m.openings.back? <;> simp_all
          · next hcloses => rw [if_neg hcloses, hstep]
      simp only [steps, hstep] at h
      simp only [steps, hother]
      exact ih h

/-- A program does not depend on the source text that is shown around errors. -/
theorem decode_of_ok {source other : Option String} {tokens : List Token} {p : Program}
    (h : (decode tokens source).outcome = .ok p) : (decode tokens other).outcome = .ok p := by
  cases hsteps : Matching.steps source {} tokens with
  | error e => simp [decode, hsteps] at h
  | ok m =>
    simp only [decode, hsteps] at h
    simp only [decode, Matching.steps_of_ok hsteps, h]

/-- **Texts whose instructions stand at the same places** are the same program, or give the same
error up to the lines that are shown. -/
theorem parse_of_scan_eq {text other : String} (h : Source.scan other = Source.scan text) :
    (parse other).outcome.mapError DecodeError.unshown =
      (parse text).outcome.mapError DecodeError.unshown := by
  have htext : parse text = decode ((Source.scan text).map Token.ofLexeme) (some text) := rfl
  have hother : parse other = decode ((Source.scan text).map Token.ofLexeme) (some other) := by
    rw [parse, h]
  rcases decode_cases ((Source.scan text).map Token.ofLexeme) (some text) with
    ⟨n, t, hstray, ht, hr⟩ | ⟨u, us, hopen, hr⟩ | ⟨n, t, -, hfirst, -, -⟩ | ⟨p, -, hr⟩
  · -- both texts report the same loop end at the same place
    obtain ⟨l, hl, rfl⟩ := List.mem_map.1 (List.mem_of_getElem? ht)
    rw [htext, hr, hother, decode_of_strayEnd (some other) hstray ht]
    simp only [Token.ofLexeme, ofClose_of_mem_scan hl, ofClose_of_mem_scan (h ▸ hl)]
    rfl
  · rw [htext, hr, hother, decode_of_unfinished (some other) hopen]
  · exact absurd hfirst.1 (not_foreign_of_lexemes _ n)
  · rw [htext, hr, hother, decode_of_ok hr]

/-- **Unified ends of lines keep the program or the error**, up to places. -/
theorem parse_unifiedNewlines (text : String) :
    ((parse (Text.unifiedNewlines text.toList)).outcome.map unplaced).mapError
        DecodeError.unplaced =
      ((parse text).outcome.map unplaced).mapError DecodeError.unplaced := by
  rw [← decode_filter, ← decode_filter, Source.filter_unifiedNewlines]

end Program

/-! ## Executing -/

/-- What is seen of an execution: the error, without its place, or how the run has ended. -/
def Execution.seen : Execution → Except Error Ending
  | rejected (.decode e) _ => .error (.decode e.unplaced)
  | rejected e _ => .error e
  | ran _ r => .ok r.ending

/-- Texts that are the same program up to places are executed in the same way. -/
theorem seen_execute {text other : String} (setting : Setting) (before before' : Trace)
    (h : ((parse other).outcome.map Program.unplaced).mapError DecodeError.unplaced =
      ((parse text).outcome.map Program.unplaced).mapError DecodeError.unplaced) :
    (execute setting other before').seen = (execute setting text before).seen := by
  rw [execute, execute]
  cases htext : (parse text).outcome with
  | error e =>
    cases hother : (parse other).outcome with
    | error e' =>
      rw [htext, hother] at h
      have herror : e'.unplaced = e.unplaced := Except.error.inj h
      simp only [Execution.seen, herror]
    | ok p' =>
      rw [htext, hother] at h
      exact absurd h nofun
  | ok p =>
    cases hother : (parse other).outcome with
    | error e' =>
      rw [htext, hother] at h
      exact absurd h nofun
    | ok p' =>
      rw [htext, hother] at h
      exact congrArg Except.ok (ending_of_unplaced (Except.ok.inj h) _ _ _ _ _ _)

/-! ## Source files -/

/-- **A program in a file is the program that the text of the file is.** Decoding a file that holds
a text gives the program or the error that decoding the text gives, up to places. If every carriage
return of the text is followed by a line feed, the places are the same too, and an error differs at
most in the lines that it shows. Executing the file is executing the text, on all streams. -/
theorem parseFile_eq_parse {files : FileSource} {path name text : String}
    (h : Holds files (.ofText path) name text) :
    ∃ outcome : Except DecodeError Program,
      parseFile files path (some name) = outcome.mapError .decode ∧
      (outcome.map unplaced).mapError DecodeError.unplaced =
        ((parse text).outcome.map unplaced).mapError DecodeError.unplaced ∧
      (Text.ReturnsPaired text.toList →
        outcome.mapError DecodeError.unshown = (parse text).outcome.mapError DecodeError.unshown) ∧
      ∀ setting,
        (executeFile setting files path (some name)).seen = (execute setting text).seen := by
  have hread := readSource_of_holds h
  refine ⟨(parse (Text.unifiedNewlines text.toList)).outcome, ?_, parse_unifiedNewlines text, ?_,
    ?_⟩
  · rw [CommandLine.parseFile_eq, hread]
  · intro hpaired
    exact parse_of_scan_eq (Source.scan_unifiedNewlines hpaired)
  · intro setting
    simp only [executeFile, hread]
    exact seen_execute setting _ _ (parse_unifiedNewlines text)

/-- A loop end without a beginning, on the second of two lines that a carriage return and a line
feed divide. -/
theorem parseFile_eq_parse_stray : ∃ (files : FileSource) (outcome : Except DecodeError Program),
    Holds files (.ofText "a") "utf-8" "+\r\n]" ∧ Text.ReturnsPaired "+\r\n]".toList ∧
      parseFile files "a" (some "utf-8") = outcome.mapError .decode ∧
      outcome.mapError DecodeError.unshown =
        .error (.unmatchedClose 1 (some ⟨2, some 1, ""⟩)) := by
  have hholds : Holds ⟨fun _ => .ok (.ok [0x2B, 0x0D, 0x0A, 0x5D]), Encoding.ofName⟩ (.ofText "a")
      "utf-8" "+\r\n]" := ⟨rfl, rfl, _, Encoding.utf8, rfl, rfl, rfl⟩
  have hpaired : Text.ReturnsPaired "+\r\n]".toList := by
    intro n hn
    match n with
    | 0 | 2 | 3 => exact absurd hn (by decide)
    | 1 => rfl
    | n + 4 => exact absurd hn nofun
  obtain ⟨outcome, hfile, -, hplaces, -⟩ := parseFile_eq_parse hholds
  exact ⟨_, outcome, hholds, hpaired, hfile, (hplaces hpaired).trans rfl⟩

end TapeLanguage
