import TapeLanguage.Proofs.Excerpts

/-!
# Where a diagnostic cannot be drawn

An excerpt shows no line that the text does not have (`exists_line_of_shown`): the window is moved
into the text, whatever line is sought. What keeps an excerpt from being drawn is its caret alone
(`text_eq_error_iff`). Without a column, below a character of the marked line and in every column up
to the greatest one it can be drawn. It cannot be drawn in a column that is no index word, even to
the left of the line, where there are no blanks to draw, nor in one so far to the right that its
line would be longer than a text can be (`NoCaret`).

So decoding fails without naming what is wrong with the tokens only for a stray loop end whose line
is known in a known text and whose column is such a column (`decode_eq_undrawable_iff_noCaret`).
-/

set_option autoImplicit false

namespace TapeLanguage

namespace Excerpt

/-! ## Carets -/

/-- A caret cannot be drawn in a column of a line with `width` characters: below no character of
the line, and either the number of blanks before it is no index word, or its line would be longer
than a text can be. -/
inductive NoCaret (width : Nat) (column : Int) : ExcerptError → Prop
  | overflow (hout : ¬ (1 ≤ column ∧ column ≤ width)) (hword : Word.fits (column - 1) = false) :
      NoCaret width column .columnOverflow
  | tooLong (hout : ¬ (1 ≤ column ∧ column ≤ width)) (hword : Word.fits (column - 1) = true)
      (hlong : Word.maxLength < (caretLine column).length) : NoCaret width column .tooLong

theorem caretFault?_eq_some_iff {width : Nat} {column : Int} {e : ExcerptError} :
    caretFault? width column = some e ↔ NoCaret width column e := by
  constructor
  · intro h
    rw [caretFault?] at h
    split at h
    · cases h
    · next hout =>
      cases hword : Word.fits (column - 1) with
      | false =>
        rw [hword] at h
        cases h
        exact .overflow hout hword
      | true =>
        rw [hword] at h
        simp only [Bool.not_true, Bool.false_eq_true, if_false] at h
        split at h
        · next hlong =>
          cases h
          exact .tooLong hout hword (maxColumn_lt_iff.1 hlong)
        · cases h
  · rintro (⟨hout, hword⟩ | ⟨hout, hword, hlong⟩)
    · simp [caretFault?, hout, hword]
    · simp [caretFault?, hout, hword, maxColumn_lt_iff.2 hlong]

/-- A caret can be drawn in a column that is an index word, up to the greatest one. -/
theorem NoCaret.not_within {width : Nat} {column : Int} {e : ExcerptError}
    (h : NoCaret width column e) : ¬ (-Word.bound < column ∧ column ≤ maxColumn) := by
  rintro ⟨hlow, hhigh⟩
  cases h with
  | overflow hout hword =>
    have hfits : Word.fits (column - 1) = true := by
      rw [Word.fits_iff, Word.bound]
      rw [Word.bound] at hlow
      rw [maxColumn, Word.maxLength, Word.bound] at hhigh
      omega
    exact Bool.noConfusion (hword.symm.trans hfits)
  | tooLong hout hword hlong => exact Int.not_lt.2 hhigh (maxColumn_lt_iff.2 hlong)

/-! ## Excerpts -/

theorem showsMarked_iff {w : Window} :
    w.showsMarked = true ↔ w.first ≤ w.marked ∧ w.marked ≤ w.last := by
  rw [Window.showsMarked, Bool.and_eq_true, decide_eq_true_iff, decide_eq_true_iff]

/-- The marked line is shown if the text has a line and the margin is not negative. -/
theorem showsMarked_around_iff {count : Nat} {line margin : Int} :
    (Window.around count line margin).showsMarked = true ↔ 0 < count ∧ 0 ≤ margin := by
  rw [showsMarked_iff]
  simp only [Window.around]
  omega

/-- **An excerpt shows only lines that the text has.** -/
theorem exists_line_of_shown {lines : Array String} {line margin number : Int}
    (h : number ∈ (Window.around lines.size line margin).numbers) :
    ∃ shown, lineAt? lines number = some shown := by
  obtain ⟨hfirst, hlast⟩ := Window.mem_numbers_iff.1 h
  simp only [Window.around] at hfirst hlast
  have hlt : (number - 1).toNat < lines.size := by omega
  rw [lineAt?, if_pos (by omega)]
  exact ⟨_, Array.getElem?_eq_getElem hlt⟩

/-- The caret cannot be drawn in a column of the line sought, which is moved into the text. -/
def NoCaretAt (lines : Array String) (line : Int) (column : Option Int) (e : ExcerptError) : Prop :=
  ∃ c shown, column = some c ∧ lineAt? lines (max 1 (min line lines.size)) = some shown ∧
    NoCaret shown.length c e

/-- **An excerpt cannot be drawn exactly if it shows the marked line and its caret cannot be
drawn.** -/
theorem text_eq_error_iff {lines : Array String} {line margin : Int} {column : Option Int}
    {e : ExcerptError} :
    text lines line column margin = .error e ↔
      0 < lines.size ∧ 0 ≤ margin ∧ NoCaretAt lines line column e := by
  have hfault : text lines line column margin = .error e ↔
      fault? lines (.around lines.size line margin) column = some e := by
    rw [text]
    cases fault? lines (.around lines.size line margin) column <;> simp
  rw [hfault, fault?]
  by_cases hshown : (Window.around lines.size line margin).showsMarked = true
  · obtain ⟨hsize, hmargin⟩ := showsMarked_around_iff.1 hshown
    -- the marked line is a line of the text
    obtain ⟨shown, hat⟩ : ∃ shown,
        lineAt? lines (Window.around lines.size line margin).marked = some shown :=
      exists_line_of_shown (Window.mem_numbers_iff.2 (showsMarked_iff.1 hshown))
    rw [if_pos hshown, markedWidth, hat, Option.getD_some, Option.bind_eq_some_iff]
    constructor
    · rintro ⟨c, hc, hcaret⟩
      exact ⟨hsize, hmargin, c, shown, hc, hat, caretFault?_eq_some_iff.1 hcaret⟩
    · rintro ⟨-, -, c, shown', hc, hat', hno⟩
      obtain rfl : shown' = shown := Option.some.inj (hat'.symm.trans hat)
      exact ⟨c, hc, caretFault?_eq_some_iff.2 hno⟩
  · rw [if_neg hshown]
    constructor
    · intro h
      cases h
    · rintro ⟨hsize, hmargin, -⟩
      exact absurd (showsMarked_around_iff.2 ⟨hsize, hmargin⟩) hshown

/-- An excerpt that can be drawn is what is drawn. -/
theorem eq_drawn_of_text {lines : Array String} {line margin : Int} {column : Option Int}
    {output : String} (h : text lines line column margin = .ok output) :
    output = drawn lines (.around lines.size line margin) column := by
  rw [text] at h
  cases hfault : fault? lines (.around lines.size line margin) column with
  | none =>
    rw [hfault] at h
    exact (Except.ok.inj h).symm
  | some e =>
    rw [hfault] at h
    cases h

/-- **An excerpt shows lines in a row, and marks the line sought.** -/
theorem exists_block_of_text {lines : Array String} {line margin : Int} {column : Option Int}
    {output : String} (hne : lines ≠ #[]) (hmargin : 0 ≤ margin)
    (h : text lines line column margin = .ok output) :
    ∃ b : Block lines, (b.row : Int) + 1 = max 1 (min line lines.size) ∧ b.Spans margin ∧
      output = Text.joined (b.shown column) ∧
      ((∀ l ∈ lines, Text.OneLine l) → Text.lines output = b.shown column) ∧
      ∀ n l, (b.shown column)[n]? = some l → (IsMarked l ↔ n = b.before.length) := by
  have hsize : 0 < lines.size := Array.size_pos_iff.2 hne
  obtain ⟨b, hspans, hrow, hwindow⟩ := Block.exists_spans hsize line hmargin
  have houtput := eq_drawn_of_text h
  rw [hwindow] at houtput
  refine ⟨b, hrow, hspans, ?_, ?_, fun n l hl => b.isMarked_iff hl⟩
  · rw [houtput, b.drawn_eq hspans]
  · intro hlines
    rw [houtput, b.lines_drawn hlines hspans]

end Excerpt

/-! ## Decoding -/

/-- **A place cannot be shown exactly if the caret cannot be drawn** in the line of a known text. -/
theorem Site.find?_eq_error_iff {source : Option String} {line column : Option Int}
    {e : ExcerptError} :
    find? source line column = .error e ↔ ∃ text number, source = some text ∧
      line = some number ∧ Excerpt.NoCaretAt (Text.lines text).toArray number column e := by
  cases source with
  | none => simp [find?]
  | some text =>
    cases line with
    | none => simp [find?]
    | some number =>
      have hsize : 0 < (Text.lines text).toArray.size := by
        rw [List.size_toArray, List.length_pos_iff]
        exact Text.lines_ne_nil text
      have hexcerpt : Excerpt.text (Text.lines text).toArray number column 1 = .error e ↔
          Excerpt.NoCaretAt (Text.lines text).toArray number column e := by
        rw [Excerpt.text_eq_error_iff]
        exact ⟨fun h => h.2.2, fun h => ⟨hsize, by decide, h⟩⟩
      have hfind : find? (some text) (some number) column = .error e ↔
          Excerpt.text (Text.lines text).toArray number column 1 = .error e := by
        rw [find?]
        cases Excerpt.text (Text.lines text).toArray number column 1 <;> simp
      simp [hfind, hexcerpt]

namespace Program

open Brackets

/-- **Decoding cannot name what is wrong exactly if** there is a stray loop end whose line is known
in a known text, and the caret cannot be drawn in its column. -/
theorem decode_eq_undrawable_iff_noCaret (tokens : List Token) (source : Option String)
    (e : ExcerptError) :
    (decode tokens source).outcome = .error (.undrawable e) ↔
      ∃ (n : Nat) (t : Token) (text : String) (line : Int), StrayEnd tokens n ∧
        tokens[n]? = some t ∧ source = some text ∧ t.line = some line ∧
        Excerpt.NoCaretAt (Text.lines text).toArray line t.column e := by
  rw [decode_eq_undrawable_iff]
  constructor
  · rintro ⟨n, t, hstray, ht, hsite⟩
    obtain ⟨text, line, hsource, hline, hno⟩ := Site.find?_eq_error_iff.1 hsite
    exact ⟨n, t, text, line, hstray, ht, hsource, hline, hno⟩
  · rintro ⟨n, t, text, line, hstray, ht, hsource, hline, hno⟩
    exact ⟨n, t, hstray, ht, Site.find?_eq_error_iff.2 ⟨text, line, hsource, hline, hno⟩⟩

end Program

/-- **Where building a diagnostic fails.** An excerpt of any lines, around any line and with any
margin, shows only lines that there are. It cannot be drawn exactly if the marked line is shown and
a caret cannot be drawn in the column given. If there is a line and the margin is not negative, what
is drawn is a block of lines in a row, and exactly the line sought, moved into the text, is marked.

Decoding names a stray loop end, unclosed loops or a token that is no instruction, or it gives a
program, except exactly for a stray loop end with a line in a known text and a column in which a
caret cannot be drawn. So it does so if the columns are index words up to the greatest column. -/
theorem diagnostics_drawn (lines : Array String) (line margin : Int) (column : Option Int)
    (tokens : List Token) (source : Option String) :
    (∀ number ∈ (Window.around lines.size line margin).numbers,
      ∃ shown, Excerpt.lineAt? lines number = some shown) ∧
    (∀ e, Excerpt.text lines line column margin = .error e ↔
      0 < lines.size ∧ 0 ≤ margin ∧ Excerpt.NoCaretAt lines line column e) ∧
    (lines ≠ #[] → 0 ≤ margin → ∀ output, Excerpt.text lines line column margin = .ok output →
      ∃ b : Excerpt.Block lines, (b.row : Int) + 1 = max 1 (min line lines.size) ∧
        b.Spans margin ∧ output = Text.joined (b.shown column) ∧
        ((∀ l ∈ lines, Text.OneLine l) → Text.lines output = b.shown column) ∧
        ∀ n l, (b.shown column)[n]? = some l → (Excerpt.IsMarked l ↔ n = b.before.length)) ∧
    (∀ e, (Program.decode tokens source).outcome = .error (.undrawable e) ↔
      ∃ (n : Nat) (t : Token) (text : String) (number : Int), Brackets.StrayEnd tokens n ∧
        tokens[n]? = some t ∧ source = some text ∧ t.line = some number ∧
        Excerpt.NoCaretAt (Text.lines text).toArray number t.column e) ∧
    ((∀ t ∈ tokens, ∀ c, t.column = some c → -Word.bound < c ∧ c ≤ Excerpt.maxColumn) →
      ∀ e, (Program.decode tokens source).outcome ≠ .error (.undrawable e)) := by
  refine ⟨fun number => Excerpt.exists_line_of_shown, fun e => Excerpt.text_eq_error_iff,
    fun hne hmargin output => Excerpt.exists_block_of_text hne hmargin,
    Program.decode_eq_undrawable_iff_noCaret tokens source, ?_⟩
  intro hcolumns e h
  obtain ⟨n, t, text, number, -, ht, -, -, c, shown, hc, -, hno⟩ :=
    (Program.decode_eq_undrawable_iff_noCaret tokens source e).1 h
  exact hno.not_within (hcolumns t (List.mem_of_getElem? ht) c hc)

/-- A line sought behind the text and a column before it, for an excerpt and for a loop end. -/
theorem diagnostics_drawn_outside :
    (∃ b : Excerpt.Block #["a", "b", "c"], b.row = 2 ∧ b.Spans 1 ∧
      Text.joined (b.shown (some (-4))) = "     2 | b\n>    3 | c\n       | ^") ∧
    ∀ e, (Program.decode [⟨"]", some 9, some (-4)⟩] (some "+\n]")).outcome ≠
      .error (.undrawable e) := by
  have htext : Excerpt.text #["a", "b", "c"] 9 (some (-4)) 1 =
      .ok "     2 | b\n>    3 | c\n       | ^" := rfl
  obtain ⟨-, -, hblock, -, hdecode⟩ := diagnostics_drawn #["a", "b", "c"] 9 1 (some (-4))
    [⟨"]", some 9, some (-4)⟩] (some "+\n]")
  constructor
  case left =>
    obtain ⟨b, hrow, hspans, houtput, -, -⟩ := hblock (by decide) (by decide) _ htext
    refine ⟨b, ?_, hspans, houtput.symm⟩
    simp only [List.size_toArray, List.length_cons, List.length_nil] at hrow
    omega
  case right =>
    apply hdecode
    intro t ht c hc
    obtain rfl := List.mem_singleton.1 ht
    obtain rfl := Option.some.inj hc
    decide

/-- A loop end whose column is no index word. -/
theorem caret_beyond_word :
    (Program.decode [⟨"]", some 1, some (-1000000000000000000000000000000)⟩] (some "]")).outcome =
      .error (.undrawable .columnOverflow) := rfl

end TapeLanguage
