import TapeLanguage.Proofs.Excerpts
import TapeLanguage.Proofs.Refinement

/-!
# Stray loop ends in a source text

A `LoopEnd` is an occurrence of a loop end in a source text, with the characters around it and the
lines around its line. Its `site` is what the scan knows of it: the loop ends of a text are the
instructions that the scan finds for this symbol (`getElem?_scan`, `exists_lexeme_eq`). It is stray
if the instructions before it are balanced, and a text is refused for a loop end exactly if it has a
stray one (`parse_eq_unmatchedClose_iff`).

So the error of a stray loop end tells where the text has it, and shows its line between the lines
around it (`parse_locates_loopEnd`). The caret below this line leaves room for four digits, and the
line number takes as much as it needs (`offset_eq`): the caret points at the loop end in the first
9999 lines, and from line 10000 on it stands to the left of it (`parse_points_at_loopEnd`).
-/

set_option autoImplicit false

namespace TapeLanguage

open Brackets Program

/-- A loop end in a source text, with the characters before it and after it, and with the line that
it stands in between the lines above and below. -/
structure LoopEnd (text : String) where
  /-- The characters before the loop end. -/
  before : List Char
  /-- The characters after it. -/
  after : List Char
  /-- The lines above its line. -/
  above : List String
  /-- Its line. -/
  line : String
  /-- The lines below its line. -/
  below : List String
  /-- The number of characters before it in its line. -/
  column : Nat
  text_eq : text.toList = before ++ ']' :: after
  lines_eq : Text.lines text = above ++ line :: below
  stands : line.toList[column]? = some ']'
  reaches : Source.Reaches before above.length column

namespace LoopEnd

variable {text : String}

/-- The number of instructions before the loop end. -/
def index (b : LoopEnd text) : Nat :=
  (b.before.filter Source.isSymbol).length

/-- The instruction at the loop end. -/
def lexeme (b : LoopEnd text) : Source.Lexeme :=
  ⟨.closeLoop, b.index, b.above.length + 1, b.column + 1⟩

/-- The place of the loop end. -/
def site (b : LoopEnd text) : Site :=
  b.lexeme.site text

/-- The instructions before the loop end are balanced, so that it ends no loop. -/
def IsStray (b : LoopEnd text) : Prop :=
  Balanced (Token.ofText (Source.filter (String.ofList b.before)))

/-- The scan finds the loop ends of a text. -/
theorem getElem?_scan (b : LoopEnd text) : (Source.scan text)[b.index]? = some b.lexeme :=
  (Source.getElem?_scan_iff text _ _).2
    ⟨rfl, b.before, b.after, b.text_eq, rfl, _, _, b.reaches, rfl, rfl⟩

/-- The scan finds no other loop ends than those of the text. -/
theorem exists_lexeme_eq {l : Source.Lexeme} (hl : l ∈ Source.scan text)
    (hop : l.op = .closeLoop) : ∃ b : LoopEnd text, b.lexeme = l := by
  obtain ⟨n, hn⟩ := List.mem_iff_getElem?.1 hl
  obtain ⟨-, before, after, htext, hindex, row, column, hreaches, hline, hcolumn⟩ :=
    (Source.getElem?_scan_iff text n l).1 hn
  obtain ⟨op, index, lineNumber, columnNumber⟩ := l
  simp only at hop hindex hline hcolumn htext
  subst hop hindex hline hcolumn
  -- the line that the characters before the loop end have reached
  obtain ⟨line, hrow, hstands⟩ := (Source.exists_line_iff text row column ']').2
    ((Source.standsIn_iff (by decide)).2 ⟨before, after, htext, hreaches⟩)
  obtain ⟨hlt, hget⟩ := List.getElem?_eq_some_iff.1 hrow
  have hlines : Text.lines text =
      (Text.lines text).take row ++ line :: (Text.lines text).drop (row + 1) := by
    rw [← hget, ← List.drop_eq_getElem_cons hlt, List.take_append_drop]
  have hlength : ((Text.lines text).take row).length = row :=
    List.length_take_of_le (Nat.le_of_lt hlt)
  refine ⟨⟨before, after, (Text.lines text).take row, line, (Text.lines text).drop (row + 1),
    column, htext, hlines, hstands, ?_⟩, ?_⟩
  · rw [hlength]
    exact hreaches
  · simp [lexeme, LoopEnd.index, hlength]

/-- The instructions before a loop end are those of the text before it. -/
theorem map_symbol_take_scan (b : LoopEnd text) :
    ((Source.scan text).take b.index).map (fun l => l.op.symbol) =
      b.before.filter Source.isSymbol := by
  rw [List.map_take, Source.map_symbol_scan, b.text_eq, List.filter_append, index,
    List.take_left]

/-- A loop end is stray in the text exactly if it is stray among the tokens. -/
theorem isStray_iff (b : LoopEnd text) :
    b.IsStray ↔ StrayEnd ((Source.scan text).map Token.ofLexeme) b.index := by
  have hcloses : ClosesAt ((Source.scan text).map Token.ofLexeme) b.index :=
    ⟨.ofLexeme b.lexeme, by rw [List.getElem?_map, b.getElem?_scan]; rfl, rfl⟩
  -- both token lists spell the instructions before the loop end
  have htokens : Spells (((Source.scan text).map Token.ofLexeme).take b.index)
      (((Source.scan text).take b.index).map fun l => l.op) := by
    rw [← List.map_take]
    exact spells_lexemes _
  have hchars : Spells (Token.ofText (Source.filter (String.ofList b.before)))
      (((Source.scan text).take b.index).map fun l => l.op) := by
    rw [Source.filter, String.toList_ofList, ← b.map_symbol_take_scan, Spells, Token.ofText,
      String.toList_ofList, List.map_map, List.map_map, List.map_map]
    rfl
  rw [StrayEnd, and_iff_right hcloses, IsStray]
  exact balanced_iff_of_spells hchars htokens

end LoopEnd

/-- **A source text is refused for a loop end exactly if the text has a stray one**, and the error
shows its place. -/
theorem Program.parse_eq_unmatchedClose_iff (text : String) (k : Int) (site : Option Site) :
    (parse text).outcome = .error (.unmatchedClose k site) ↔
      ∃ b : LoopEnd text, b.IsStray ∧ k = b.index ∧ site = some b.site := by
  rw [parse, decode_eq_unmatchedClose_iff]
  constructor
  · rintro ⟨n, t, rfl, hstray, ht, hsite⟩
    rw [List.getElem?_map, Option.map_eq_some_iff] at ht
    obtain ⟨l, hl, rfl⟩ := ht
    have hcloses := (standsAt_iff_of_getElem? (by rw [List.getElem?_map, hl]; rfl)).1 hstray.1
    obtain ⟨b, rfl⟩ := LoopEnd.exists_lexeme_eq (List.mem_of_getElem? hl)
      ((Token.closes_iff rfl).1 hcloses)
    obtain rfl : b.index = n := ((Source.getElem?_scan_iff text n _).1 hl).1
    refine ⟨b, b.isStray_iff.2 hstray, rfl, ?_⟩
    have hfound := find?_of_mem_scan (List.mem_of_getElem? hl)
    exact Except.ok.inj (hsite.symm.trans hfound)
  · rintro ⟨b, hstray, rfl, rfl⟩
    have hscan := b.getElem?_scan
    refine ⟨b.index, .ofLexeme b.lexeme, rfl, b.isStray_iff.1 hstray, ?_, ?_⟩
    · rw [List.getElem?_map, hscan]
      rfl
    · exact find?_of_mem_scan (List.mem_of_getElem? hscan)

/-! ## Showing a stray loop end -/

namespace LoopEnd

variable {text : String} (b : LoopEnd text)

theorem excerpt_eq : b.site.excerpt = Excerpt.drawn (Text.lines text).toArray
    (.around (Text.lines text).toArray.size (b.above.length + 1) 1) (some (b.column + 1)) := by
  rw [site, lexeme, Source.Lexeme.site, Int.natCast_succ, Int.natCast_succ]

theorem oneLine_of_mem : ∀ l ∈ (Text.lines text).toArray, Text.OneLine l := by
  intro l hl
  exact Text.oneLine_of_mem_lines (List.mem_toArray.1 hl)

/-- **The lines around a loop end.** The line above and the line below are shown if there are such
lines, and the caret is directly below the line of the loop end. -/
theorem lines_excerpt : Text.lines b.site.excerpt =
    b.above.getLast?.toList.map (Excerpt.numberedLine false b.above.length) ++
      Excerpt.numberedLine true (b.above.length + 1) b.line :: Excerpt.caretLine (b.column + 1) ::
        b.below.head?.toList.map (Excerpt.numberedLine false (b.above.length + 2)) := by
  rw [b.excerpt_eq]
  exact Excerpt.lines_drawn_around oneLine_of_mem b.lines_eq _

theorem getElem?_marked : (Text.lines b.site.excerpt)[b.above.getLast?.toList.length]? =
    some (Excerpt.numberedLine true (b.above.length + 1) b.line) := by
  rw [lines_excerpt, List.getElem?_append_right (by simp)]
  simp

theorem getElem?_caret : (Text.lines b.site.excerpt)[b.above.getLast?.toList.length + 1]? =
    some (Excerpt.caretLine (b.column + 1)) := by
  rw [lines_excerpt, List.getElem?_append_right (by simp)]
  simp

theorem isMarked_iff {n : Nat} {l : String} (hl : (Text.lines b.site.excerpt)[n]? = some l) :
    Excerpt.IsMarked l ↔ n = b.above.getLast?.toList.length := by
  rw [b.excerpt_eq] at hl
  exact Excerpt.isMarked_iff_of_around oneLine_of_mem b.lines_eq hl

/-- The number of characters before the loop end in the marked line. -/
def offset : Nat :=
  (Excerpt.gutter true (b.above.length + 1)).length + b.column

/-- The number of characters before the caret in its line. -/
def caretOffset : Nat :=
  Excerpt.caretGutterWidth + b.column

theorem stands_in_marked :
    (Excerpt.numberedLine true (b.above.length + 1) b.line).toList[b.offset]? = some ']' := by
  rw [Excerpt.numberedLine_eq, String.toList_append, offset, ← String.length_toList,
    List.getElem?_append_right (Nat.le_add_right _ _), Nat.add_sub_cancel_left]
  exact b.stands

/-- The digits of the line number beyond the fourth push the loop end to the right of the caret. -/
theorem offset_eq :
    b.offset = b.caretOffset + ((Nat.repr (b.above.length + 1)).length - 4) := by
  have hnumber : toString ((b.above.length : Int) + 1) = Nat.repr (b.above.length + 1) := rfl
  rw [offset, caretOffset, Excerpt.length_gutter, hnumber, Excerpt.caretGutterWidth]
  omega

/-- The caret points at the loop end in the first 9999 lines, and in no other. -/
theorem offset_eq_caretOffset_iff : b.offset = b.caretOffset ↔ b.above.length + 1 < 10000 := by
  have hdigits := Nat.length_repr_le_iff (n := b.above.length + 1) (k := 4) (by omega)
  rw [b.offset_eq]
  omega

theorem caret_stands_iff (offset : Nat) :
    (Excerpt.caretLine (b.column + 1)).toList[offset]? = some '^' ↔ offset = b.caretOffset := by
  rw [Excerpt.caret_stands_iff, Int.add_sub_cancel, Int.toNat_natCast, caretOffset]

end LoopEnd

namespace Program

/-- **The error of a stray loop end shows its place.** It names the number of instructions before
the loop end, and these are balanced, and the line and the column of the loop end in the text. It
shows the line with its number between its neighbours with theirs, if there are such lines, with the
caret below it, and only this line is marked. -/
theorem parse_locates_loopEnd {text : String} {k : Int} {site : Option Site}
    (h : (parse text).outcome = .error (.unmatchedClose k site)) :
    let e := DecodeError.unmatchedClose k site
    ∃ b : LoopEnd text, k = b.index ∧ b.IsStray ∧
      (Text.lines text)[b.above.length]? = some b.line ∧ b.line.toList[b.column]? = some ']' ∧
      e.message = Hint.append
        ("DecodeError: unmatched closing bracket at instruction " ++ toString b.index ++
          (", line " ++ toString (b.above.length + 1) ++ ", column " ++ toString (b.column + 1) ++
            "\n" ++ e.context))
        (some .unmatchedClose) ∧
      Text.lines e.context =
        b.above.getLast?.toList.map (Excerpt.numberedLine false b.above.length) ++
          Excerpt.numberedLine true (b.above.length + 1) b.line ::
            Excerpt.caretLine (b.column + 1) ::
              b.below.head?.toList.map (Excerpt.numberedLine false (b.above.length + 2)) ∧
      ∀ n l, (Text.lines e.context)[n]? = some l →
        (Excerpt.IsMarked l ↔ n = b.above.getLast?.toList.length) := by
  obtain ⟨b, hstray, rfl, rfl⟩ := (parse_eq_unmatchedClose_iff text k site).1 h
  have hline : (Text.lines text)[b.above.length]? = some b.line := by simp [b.lines_eq]
  exact ⟨b, rfl, hstray, hline, b.stands, rfl, b.lines_excerpt, fun n l hl => b.isMarked_iff hl⟩

/-- A loop end in the second of three lines. -/
theorem parse_locates_loopEnd_second : ∃ site : Option Site,
    (parse "+\n ]\n").outcome = .error (.unmatchedClose 1 site) ∧
      ∃ b : LoopEnd "+\n ]\n", b.index = 1 ∧ b.IsStray ∧ b.line.toList[b.column]? = some ']' ∧
        Text.lines (DecodeError.unmatchedClose 1 site).context =
          ["     1 | +", ">    2 |  ]", "       |  ^", "     3 | "] := by
  have h : (parse "+\n ]\n").outcome = .error (.unmatchedClose 1
      (some ⟨2, some 2, "     1 | +\n>    2 |  ]\n       |  ^\n     3 | "⟩)) := rfl
  obtain ⟨b, hindex, hstray, -, hin, -⟩ := parse_locates_loopEnd h
  exact ⟨_, h, b, (Int.ofNat_inj.1 hindex).symm, hstray, hin, rfl⟩

/-- **The caret of a stray loop end stands in the line below the marked one**, which shows the line
of the loop end. It stands as many characters to the left of the loop end as the number of this line
has digits beyond the fourth: it points at the loop end in the first 9999 lines, and in no other. -/
theorem parse_points_at_loopEnd {text : String} {k : Int} {site : Option Site}
    (h : (parse text).outcome = .error (.unmatchedClose k site)) :
    let shown := Text.lines (DecodeError.unmatchedClose k site).context
    ∃ (b : LoopEnd text) (n : Nat) (marked caret : String), k = b.index ∧ b.IsStray ∧
      (∀ m l, shown[m]? = some l → (Excerpt.IsMarked l ↔ m = n)) ∧
      shown[n]? = some marked ∧ shown[n + 1]? = some caret ∧
      marked = Excerpt.gutter true (b.above.length + 1) ++ b.line ∧
      marked.toList[b.offset]? = some ']' ∧
      (∀ offset, caret.toList[offset]? = some '^' ↔ offset = b.caretOffset) ∧
      b.offset = b.caretOffset + ((Nat.repr (b.above.length + 1)).length - 4) ∧
      (b.offset = b.caretOffset ↔ b.above.length + 1 < 10000) := by
  obtain ⟨b, hstray, rfl, rfl⟩ := (parse_eq_unmatchedClose_iff text k site).1 h
  exact ⟨b, b.above.getLast?.toList.length, _, _, rfl, hstray, fun m l hl => b.isMarked_iff hl,
    b.getElem?_marked, b.getElem?_caret, rfl, b.stands_in_marked, b.caret_stands_iff, b.offset_eq,
    b.offset_eq_caretOffset_iff⟩

/-- A loop end behind a line and two instructions. -/
theorem parse_points_at_loopEnd_second : ∃ site : Option Site,
    (parse "\n+-]").outcome = .error (.unmatchedClose 2 site) ∧
      Text.lines (DecodeError.unmatchedClose 2 site).context =
        ["     1 | ", ">    2 | +-]", "       |   ^"] ∧
      ∃ (b : LoopEnd "\n+-]") (n : Nat) (marked caret : String), b.index = 2 ∧ b.IsStray ∧
        (Text.lines (DecodeError.unmatchedClose 2 site).context)[n]? = some marked ∧
        (Text.lines (DecodeError.unmatchedClose 2 site).context)[n + 1]? = some caret ∧
        marked.toList[b.offset]? = some ']' ∧
        (∀ offset, caret.toList[offset]? = some '^' ↔ offset = b.caretOffset) ∧
        (b.offset = b.caretOffset ↔ b.above.length + 1 < 10000) := by
  have h : (parse "\n+-]").outcome = .error (.unmatchedClose 2
      (some ⟨2, some 3, "     1 | \n>    2 | +-]\n       |   ^"⟩)) := rfl
  obtain ⟨b, n, marked, caret, hindex, hstray, -, hmarked, hcaret, -, hin, hat, -, haligned⟩ :=
    parse_points_at_loopEnd h
  exact ⟨_, h, rfl, b, n, marked, caret, (Int.ofNat_inj.1 hindex).symm, hstray, hmarked, hcaret,
    hin, hat, haligned⟩

end Program

/-! ## A loop end behind empty lines -/

theorem Source.reaches_lineFeeds (n : Nat) : Reaches (List.replicate n '\n') n 0 := by
  induction n with
  | zero => exact reaches_nil
  | succ n ih => exact ih.cons_lineFeed

theorem Text.cut_lineFeeds (n : Nat) :
    cut '\n' (List.replicate n '\n' ++ [']']) = List.replicate n [] ++ [[']']] := by
  induction n with
  | zero => rfl
  | succ n ih =>
    rw [List.replicate_succ, List.cons_append, cut_separator, ih]
    rfl

/-- A loop end behind empty lines. -/
def LoopEnd.behindLines (n : Nat) :
    LoopEnd (String.ofList (List.replicate n '\n' ++ [']'])) where
  before := List.replicate n '\n'
  after := []
  above := List.replicate n ""
  line := "]"
  below := []
  column := 0
  text_eq := by rw [String.toList_ofList]
  lines_eq := by
    rw [Text.lines, Text.pieces, String.toList_ofList, Text.cut_lineFeeds]
    simp
  stands := rfl
  reaches := by
    rw [List.length_replicate]
    exact Source.reaches_lineFeeds n

/-- A loop end behind empty lines is stray, and the last of them is shown. -/
theorem Program.parse_behindLines (n : Nat) : ∃ site : Option Site,
    (parse (String.ofList (List.replicate (n + 1) '\n' ++ [']']))).outcome =
        .error (.unmatchedClose 0 site) ∧
      Text.lines (DecodeError.unmatchedClose 0 site).context =
        [Excerpt.numberedLine false (n + 1) "", Excerpt.numberedLine true (n + 2) "]",
          Excerpt.caretLine 1] := by
  have hbefore : (List.replicate (n + 1) '\n').filter Source.isSymbol = [] := by
    simp [Source.isSymbol_lineFeed]
  have hindex : (LoopEnd.behindLines (n + 1)).index = 0 := congrArg List.length hbefore
  have hstray : (LoopEnd.behindLines (n + 1)).IsStray := by
    have hfilter : Source.filter (String.ofList (List.replicate (n + 1) '\n')) = "" := by
      rw [Source.filter, String.toList_ofList, hbefore]
    rw [LoopEnd.IsStray, LoopEnd.behindLines, hfilter]
    exact .nil
  refine ⟨some (LoopEnd.behindLines (n + 1)).site, ?_, ?_⟩
  · exact (parse_eq_unmatchedClose_iff _ _ _).2 ⟨_, hstray, by rw [hindex]; rfl, rfl⟩
  · have hnumber : (n : Int) + 1 + 1 = n + 2 := by omega
    refine (LoopEnd.lines_excerpt _).trans ?_
    simp [LoopEnd.behindLines, List.getLast?_replicate, hnumber]

/-- The caret stands to the left of a loop end in line 10000. -/
theorem Program.caret_left_of_loopEnd :
    let text := String.ofList (List.replicate 9999 '\n' ++ [']'])
    ∃ site : Option Site, (parse text).outcome = .error (.unmatchedClose 0 site) ∧
      Text.lines (DecodeError.unmatchedClose 0 site).context =
        ["  9999 | ", "> 10000 | ]", "       | ^"] ∧
      "> 10000 | ]".toList.idxOf ']' = 10 ∧ "       | ^".toList.idxOf '^' = 9 := by
  obtain ⟨site, hparse, hlines⟩ := parse_behindLines 9998
  exact ⟨site, hparse, hlines, by decide, by decide⟩

end TapeLanguage
