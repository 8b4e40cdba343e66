import TapeLanguage.Proofs.Decoding
import TapeLanguage.Source
import TapeLanguage.Text

/-!
# Places of instructions in a source text

The scan of a text counts lines and columns while it reads. What it counts can be told without
reading: an instruction is the character behind some others (`Occurs`), its line is the number of
lines that these fill or begin, its column the number of characters that they leave on the last of
these lines, and its index the number of symbols among them. The scan keeps to this with every
character (`HasRead.advance`), so the instructions found are the occurrences of symbols, each of
them at its index (`getElem?_scan_iff`).

Cutting a text in two cuts one of its lines (`Text.cut_append`), so the occurrences of a character
are the places in the lines of the text where it stands (`standsIn_iff`). Hence the places of the
instructions are exact (`scan_exact`).

Each instruction of a source text stands in the text at the line and the column that are kept with
it (`scan_stands`). So the place of a stray loop end can always be shown (`find?_of_mem_scan`), and
a source text that is no program has a bracket too many or too few, and nothing else is wrong with
it (`parse_error`).
-/

set_option autoImplicit false

namespace TapeLanguage

/-! ## Cutting a text in two -/

theorem Text.cut_cons_of_eq {separator c : Char} {cs piece : List Char} {more : List (List Char)}
    (hc : c ≠ separator) (h : cut separator cs = piece :: more) :
    cut separator (c :: cs) = (c :: piece) :: more := by
  obtain ⟨first, others, hcs, hcut⟩ := cut_cons (r := cs) hc
  obtain ⟨rfl, rfl⟩ := List.cons.inj (h.symm.trans hcs)
  exact hcut

/-- The last piece of what is in front and the first one of what is behind are one piece. -/
theorem Text.cut_append {separator : Char} {front behind : List Char}
    {pieces more : List (List Char)} {last first : List Char}
    (hfront : cut separator front = pieces ++ [last])
    (hbehind : cut separator behind = first :: more) :
    cut separator (front ++ behind) = pieces ++ (last ++ first) :: more := by
  induction front generalizing pieces last with
  | nil =>
    have hpieces : [] ++ [[]] = pieces ++ [last] := hfront
    obtain ⟨rfl, hlast⟩ := List.append_inj' hpieces rfl
    obtain rfl := (List.cons.inj hlast).1
    exact hbehind
  | cons c front ih =>
    by_cases hc : c = separator
    · -- the first piece is empty, and it is not the last
      subst hc
      rw [cut_separator] at hfront
      cases pieces with
      | nil => exact absurd (List.cons.inj hfront).2 (cut_ne_nil c front)
      | cons piece pieces =>
        obtain ⟨rfl, hrest⟩ := List.cons.inj hfront
        rw [List.cons_append, cut_separator, ih hrest]
        rfl
    · -- the character extends the first piece, which may be the last
      obtain ⟨piece, others, hothers, hcut⟩ := cut_cons (r := front) hc
      rw [hcut] at hfront
      cases pieces with
      | nil =>
        obtain ⟨rfl, rfl⟩ := List.cons.inj hfront
        exact cut_cons_of_eq hc (@ih [] _ hothers)
      | cons extended pieces =>
        obtain ⟨rfl, rfl⟩ := List.cons.inj hfront
        exact cut_cons_of_eq hc (@ih (piece :: pieces) _ hothers)

namespace Source

/-! ## Places -/

/-- A place is reached behind some characters: they fill the lines before it, and they leave on its
line the characters before its column. -/
def Reaches (before : List Char) (row column : Nat) : Prop :=
  ∃ rows last, Text.cut '\n' before = rows ++ [last] ∧ row = rows.length ∧ column = last.length

theorem reaches_nil : Reaches [] 0 0 :=
  ⟨[], [], rfl, rfl, rfl⟩

variable {before : List Char} {row column : Nat}

/-- Some characters reach one place. -/
theorem Reaches.unique (h : Reaches before row column) {row' column' : Nat}
    (h' : Reaches before row' column') : row' = row ∧ column' = column := by
  obtain ⟨rows, last, hcut, rfl, rfl⟩ := h
  obtain ⟨rows', last', hcut', rfl, rfl⟩ := h'
  obtain ⟨rfl, hlast⟩ := List.append_inj' (hcut.symm.trans hcut') rfl
  obtain rfl := (List.cons.inj hlast).1
  exact ⟨rfl, rfl⟩

/-- A line feed leads to the beginning of the next line. -/
theorem Reaches.concat_lineFeed (h : Reaches before row column) :
    Reaches (before ++ ['\n']) (row + 1) 0 := by
  obtain ⟨rows, last, hcut, rfl, rfl⟩ := h
  refine ⟨rows ++ [last], [], ?_, by rw [List.length_append]; rfl, rfl⟩
  rw [Text.cut_append hcut (Text.cut_separator '\n' []), List.append_nil, List.append_assoc]
  rfl

/-- Any other character leads to the next column. -/
theorem Reaches.concat_other (h : Reaches before row column) {c : Char} (hc : c ≠ '\n') :
    Reaches (before ++ [c]) row (column + 1) := by
  obtain ⟨rows, last, hcut, rfl, rfl⟩ := h
  obtain ⟨piece, more, hnil, hsingle⟩ := Text.cut_cons (r := []) hc
  obtain ⟨rfl, rfl⟩ := List.cons.inj hnil
  refine ⟨rows, last ++ [c], Text.cut_append hcut hsingle, rfl, ?_⟩
  rw [List.length_append]
  rfl

/-- A line feed in front is one more line. -/
theorem Reaches.cons_lineFeed (h : Reaches before row column) :
    Reaches ('\n' :: before) (row + 1) column := by
  obtain ⟨rows, last, hcut, rfl, rfl⟩ := h
  refine ⟨[] :: rows, last, ?_, rfl, rfl⟩
  rw [Text.cut_separator, hcut]
  rfl

/-- Any other character in front is one more of the first line. -/
theorem Reaches.cons_other (h : Reaches before row column) {c : Char} (hc : c ≠ '\n') :
    Reaches (c :: before) row (if row = 0 then column + 1 else column) := by
  obtain ⟨rows, last, hcut, rfl, rfl⟩ := h
  cases rows with
  | nil => exact ⟨[], c :: last, Text.cut_cons_of_eq hc hcut, rfl, rfl⟩
  | cons first rows => exact ⟨(c :: first) :: rows, last, Text.cut_cons_of_eq hc hcut, rfl, rfl⟩

/-- A character stands in a row of characters, both counted from zero. -/
def StandsIn (rows : List (List Char)) (row column : Nat) (c : Char) : Prop :=
  ∃ cs, rows[row]? = some cs ∧ cs[column]? = some c

theorem StandsIn.cons_succ {rows : List (List Char)} {cs : List Char} {c : Char} :
    StandsIn (cs :: rows) (row + 1) column c ↔ StandsIn rows row column c :=
  Iff.rfl

/-- A character that stands somewhere in the lines occurs in the text, and its occurrence reaches
that place. -/
theorem StandsIn.exists_before {cs : List Char} {c : Char}
    (h : StandsIn (Text.cut '\n' cs) row column c) :
    ∃ before after, cs = before ++ c :: after ∧ Reaches before row column := by
  induction cs generalizing row column with
  | nil =>
    obtain ⟨line, hline, hin⟩ := h
    rw [Text.cut, List.foldr_nil, List.getElem?_singleton] at hline
    obtain ⟨-, rfl⟩ := Option.ite_some_none_eq_some.1 hline
    exact absurd hin (by simp)
  | cons first cs ih =>
    by_cases hfirst : first = '\n'
    · -- the line feed ends the first row
      subst hfirst
      rw [Text.cut_separator] at h
      cases row with
      | zero =>
        obtain ⟨line, hline, hin⟩ := h
        obtain rfl := Option.some.inj hline
        exact absurd hin (by simp)
      | succ row =>
        obtain ⟨before, after, rfl, hreaches⟩ := ih (StandsIn.cons_succ.1 h)
        exact ⟨'\n' :: before, after, rfl, hreaches.cons_lineFeed⟩
    · -- the character extends the first row
      obtain ⟨piece, more, hpiece, hcut⟩ := Text.cut_cons (r := cs) hfirst
      rw [hcut] at h
      rw [hpiece] at ih
      cases row with
      | zero =>
        obtain ⟨line, hline, hin⟩ := h
        obtain rfl := Option.some.inj hline
        cases column with
        | zero =>
          obtain rfl := Option.some.inj hin
          exact ⟨[], cs, rfl, reaches_nil⟩
        | succ column =>
          obtain ⟨before, after, rfl, hreaches⟩ := @ih 0 column ⟨piece, rfl, hin⟩
          exact ⟨first :: before, after, rfl, hreaches.cons_other hfirst⟩
      | succ row =>
        obtain ⟨before, after, rfl, hreaches⟩ := @ih (row + 1) column h
        exact ⟨first :: before, after, rfl, hreaches.cons_other hfirst⟩

/-- **The places at which a character stands in the lines of a text are those that its occurrences
reach.** -/
theorem standsIn_iff {cs : List Char} {c : Char} (hc : c ≠ '\n') :
    StandsIn (Text.cut '\n' cs) row column c ↔
      ∃ before after, cs = before ++ c :: after ∧ Reaches before row column := by
  constructor
  · exact StandsIn.exists_before
  · rintro ⟨before, after, rfl, rows, last, hcut, rfl, rfl⟩
    obtain ⟨piece, more, -, hbehind⟩ := Text.cut_cons (r := after) hc
    rw [Text.cut_append hcut hbehind]
    exact ⟨last ++ c :: piece, by simp, by simp⟩

/-- A character stands in a line of the text, with the lines as texts. -/
theorem exists_line_iff (text : String) (row column : Nat) (c : Char) :
    (∃ line, (Text.lines text)[row]? = some line ∧ line.toList[column]? = some c) ↔
      StandsIn (Text.cut '\n' text.toList) row column c := by
  rw [Text.lines, Text.pieces, List.getElem?_map, StandsIn]
  cases (Text.cut '\n' text.toList)[row]? with
  | none => simp only [Option.map_none, reduceCtorEq, false_and, exists_false]
  | some cs => simp only [Option.map_some, Option.some.injEq, exists_eq_left', String.toList_ofList]

/-! ## Occurrences -/

/-- An instruction is the character behind some others: it stands at the place that they reach, and
its index is the number of symbols among them. -/
structure Behind (before : List Char) (l : Lexeme) : Prop where
  index : l.index = (before.filter isSymbol).length
  place : ∃ row column, Reaches before row column ∧ l.line = row + 1 ∧ l.column = column + 1

/-- An instruction occurs in a text. -/
def Occurs (cs : List Char) (l : Lexeme) : Prop :=
  ∃ before after, cs = before ++ l.op.symbol :: after ∧ Behind before l

/-- What occurs in a text with one more character occurred before or is that character. -/
theorem occurs_concat {cs : List Char} {c : Char} {l : Lexeme} :
    Occurs (cs ++ [c]) l ↔ Occurs cs l ∨ l.op.symbol = c ∧ Behind cs l := by
  constructor
  · rintro ⟨before, after, hcs, hl⟩
    -- the occurrence is the new character if nothing stands behind it
    rcases List.eq_nil_or_concat after with rfl | ⟨after, last, rfl⟩
    · obtain ⟨rfl, hc⟩ := List.append_inj' hcs rfl
      exact Or.inr ⟨(List.cons.inj hc).1.symm, hl⟩
    · rw [List.concat_eq_append, ← List.cons_append, ← List.append_assoc] at hcs
      obtain ⟨rfl, -⟩ := List.append_inj' hcs rfl
      exact Or.inl ⟨before, after, rfl, hl⟩
  · rintro (⟨before, after, rfl, hl⟩ | ⟨rfl, hl⟩)
    · exact ⟨before, after ++ [c], by rw [List.append_assoc, List.cons_append], hl⟩
    · exact ⟨cs, [], rfl, hl⟩

theorem isSymbol_lineFeed : isSymbol '\n' = false := rfl

theorem symbol_ne_lineFeed (op : Op) : op.symbol ≠ '\n' := by
  cases op <;> decide

theorem isSymbol_symbol (op : Op) : isSymbol op.symbol = true :=
  isSymbol_iff.2 ⟨op, rfl⟩

/-! ## The cursor -/

/-- What a cursor holds that has read some characters. -/
structure HasRead (cs : List Char) (s : Cursor) : Prop where
  place : ∃ row, Reaches cs row s.column ∧ s.line = row + 1
  size : s.found.size = (cs.filter isSymbol).length
  found : ∀ n l, s.found[n]? = some l ↔ l.index = n ∧ Occurs cs l

namespace HasRead

variable {cs : List Char} {s : Cursor} {c : Char}

theorem start : HasRead [] {} where
  place := ⟨0, reaches_nil, rfl⟩
  size := rfl
  found := by
    intro n l
    constructor
    · exact nofun
    · rintro ⟨-, before, after, hnil, -⟩
      exact absurd hnil.symm (List.append_ne_nil_of_right_ne_nil before (List.cons_ne_nil _ after))

/-- The instruction behind the characters that have been read is at the cursor. -/
theorem behind_iff (h : HasRead cs s) {l : Lexeme} :
    Behind cs l ↔ l = ⟨l.op, s.found.size, s.line, s.column + 1⟩ := by
  obtain ⟨row, hreaches, hline⟩ := h.place
  constructor
  · rintro ⟨hindex, row', column', hreaches', hrow, hcolumn⟩
    obtain ⟨rfl, rfl⟩ := hreaches.unique hreaches'
    rw [h.size, hline, ← hindex, ← hrow, ← hcolumn]
  · intro hl
    rw [hl]
    exact ⟨h.size, row, s.column, hreaches, hline, rfl⟩

/-- A comment is no instruction. -/
theorem found_of_comment (h : HasRead cs s) (hc : isSymbol c = false) (n : Nat) (l : Lexeme) :
    s.found[n]? = some l ↔ l.index = n ∧ Occurs (cs ++ [c]) l := by
  have hother : l.op.symbol ≠ c := by
    rintro rfl
    exact Bool.false_ne_true (hc.symm.trans (isSymbol_symbol l.op))
  rw [h.found, occurs_concat, or_iff_left fun hbehind => hother hbehind.1]

/-- A symbol is one more instruction. -/
theorem found_of_symbol (h : HasRead cs s) (op : Op) (n : Nat) (l : Lexeme) :
    (s.found.push ⟨op, s.found.size, s.line, s.column + 1⟩)[n]? = some l ↔
      l.index = n ∧ Occurs (cs ++ [op.symbol]) l := by
  rw [occurs_concat, and_or_left, ← h.found, h.behind_iff, Array.getElem?_push]
  constructor
  · intro hl
    split at hl
    · next hn =>
      obtain rfl := Option.some.inj hl
      exact Or.inr ⟨hn.symm, rfl, rfl⟩
    · exact Or.inl hl
  · rintro (hl | ⟨hindex, hop, hl⟩)
    · rw [if_neg (Nat.ne_of_lt (Array.getElem?_eq_some_iff.1 hl).1), hl]
    · rw [Op.symbol_injective hop] at hl
      rw [hl] at hindex
      rw [if_pos hindex.symm, hl]

theorem size_of_comment (h : HasRead cs s) (hc : isSymbol c = false) :
    s.found.size = ((cs ++ [c]).filter isSymbol).length := by
  rw [h.size, List.filter_append, List.filter_cons_of_neg (by rw [hc]; nofun), List.filter_nil,
    List.append_nil]

/-- **A cursor that reads one more character has read one more character.** -/
theorem advance (h : HasRead cs s) (c : Char) : HasRead (cs ++ [c]) (s.advance c) := by
  obtain ⟨row, hreaches, hline⟩ := h.place
  rw [Cursor.advance]
  by_cases hfeed : c = '\n'
  · -- a line feed begins the next line
    have hcomment : isSymbol c = false := by rw [hfeed, isSymbol_lineFeed]
    rw [if_pos hfeed]
    refine ⟨⟨row + 1, ?_, congrArg (· + 1) hline⟩, h.size_of_comment hcomment,
      h.found_of_comment hcomment⟩
    rw [hfeed]
    exact hreaches.concat_lineFeed
  · rw [if_neg hfeed]
    have hplace : ∃ row, Reaches (cs ++ [c]) row (s.column + 1) ∧ s.line = row + 1 :=
      ⟨row, hreaches.concat_other hfeed, hline⟩
    cases hop : Op.ofChar? c with
    | none =>
      -- a comment takes a column and nothing else
      have hcomment : isSymbol c = false := by rw [isSymbol, hop]; rfl
      exact ⟨hplace, h.size_of_comment hcomment, h.found_of_comment hcomment⟩
    | some op =>
      -- a symbol is found at the place that has been reached
      obtain rfl := Op.ofChar?_eq_some_iff.1 hop
      refine ⟨hplace, ?_, h.found_of_symbol op⟩
      rw [Array.size_push, h.size, List.filter_append, List.filter_cons_of_pos (isSymbol_symbol op),
        List.length_append]
      rfl

/-- A cursor that reads on has read the characters one after the other. -/
theorem foldl (h : HasRead cs s) (more : List Char) :
    HasRead (cs ++ more) (more.foldl Cursor.advance s) := by
  induction more generalizing cs s with
  | nil =>
    rw [List.append_nil]
    exact h
  | cons c more ih =>
    rw [List.foldl_cons, List.append_cons]
    exact ih (h.advance c)

end HasRead

/-- **The instructions of a text are the occurrences of symbols**, each of them at its index. -/
theorem getElem?_scan_iff (text : String) (n : Nat) (l : Lexeme) :
    (scan text)[n]? = some l ↔ l.index = n ∧ Occurs text.toList l := by
  rw [scan, Array.getElem?_toList]
  exact (HasRead.start.foldl text.toList).found n l

/-- **The instructions of a text are where symbols stand in its lines.** -/
theorem exists_mem_scan_iff (text : String) (c : Char) (line column : Nat) :
    (∃ l ∈ scan text, l.op.symbol = c ∧ l.line = line ∧ l.column = column) ↔
      isSymbol c = true ∧ 1 ≤ line ∧ 1 ≤ column ∧
        ∃ row, (Text.lines text)[line - 1]? = some row ∧ row.toList[column - 1]? = some c := by
  rw [exists_line_iff]
  constructor
  · rintro ⟨l, hl, rfl, rfl, rfl⟩
    obtain ⟨n, hn⟩ := List.mem_iff_getElem?.1 hl
    obtain ⟨-, before, after, hcs, -, row, column, hreaches, hrow, hcolumn⟩ :=
      (getElem?_scan_iff text n l).1 hn
    rw [hrow, hcolumn]
    refine ⟨isSymbol_symbol l.op, Nat.le_add_left 1 row, Nat.le_add_left 1 column, ?_⟩
    exact (standsIn_iff (symbol_ne_lineFeed l.op)).2 ⟨before, after, hcs, hreaches⟩
  · rintro ⟨hsymbol, hline, hcolumn, hstands⟩
    obtain ⟨op, rfl⟩ := isSymbol_iff.1 hsymbol
    obtain ⟨before, after, hcs, hreaches⟩ := (standsIn_iff (symbol_ne_lineFeed op)).1 hstands
    have hbehind : Behind before ⟨op, (before.filter isSymbol).length, line, column⟩ :=
      ⟨rfl, _, _, hreaches, (Nat.sub_add_cancel hline).symm, (Nat.sub_add_cancel hcolumn).symm⟩
    have hat := (getElem?_scan_iff text _ _).2 ⟨rfl, before, after, hcs, hbehind⟩
    exact ⟨_, List.mem_of_getElem? hat, rfl, rfl, rfl⟩

/-! ## Reading order -/

/-- An instruction stands before another one. -/
def Lexeme.Precedes (l l' : Lexeme) : Prop :=
  l.line < l'.line ∨ l.line = l'.line ∧ l.column < l'.column

/-- The instructions of a cursor stand in reading order, and none of them behind the cursor. -/
def Cursor.InOrder (s : Cursor) : Prop :=
  s.found.toList.Pairwise Lexeme.Precedes ∧
    ∀ l ∈ s.found.toList, l.line < s.line ∨ l.line = s.line ∧ l.column ≤ s.column

theorem Cursor.inOrder_advance {s : Cursor} (h : s.InOrder) (c : Char) : (s.advance c).InOrder := by
  obtain ⟨hordered, hlast⟩ := h
  have hnext : ∀ l ∈ s.found.toList,
      l.line < s.line ∨ l.line = s.line ∧ l.column < s.column + 1 := by
    intro l hl
    exact (hlast l hl).imp_right fun hcolumn => ⟨hcolumn.1, Nat.lt_succ_of_le hcolumn.2⟩
  rw [advance]
  split
  · refine ⟨hordered, ?_⟩
    intro l hl
    refine Or.inl ?_
    show l.line < s.line + 1
    rcases hlast l hl with hline | ⟨hline, -⟩ <;> omega
  · split
    · constructor
      · rw [Array.toList_push, List.pairwise_append]
        refine ⟨hordered, List.pairwise_singleton _ _, ?_⟩
        intro l hl l' hl'
        obtain rfl := List.mem_singleton.1 hl'
        exact hnext l hl
      · intro l hl
        rw [Array.toList_push, List.mem_append, List.mem_singleton] at hl
        rcases hl with hl | rfl
        · exact (hnext l hl).imp_right fun hcolumn => ⟨hcolumn.1, Nat.le_of_lt hcolumn.2⟩
        · exact Or.inr ⟨rfl, Nat.le_refl _⟩
    · exact ⟨hordered, fun l hl => (hnext l hl).imp_right fun h => ⟨h.1, Nat.le_of_lt h.2⟩⟩

theorem Cursor.inOrder_foldl (cs : List Char) {s : Cursor} (h : s.InOrder) :
    (cs.foldl advance s).InOrder := by
  induction cs generalizing s with
  | nil => exact h
  | cons c cs ih => exact ih (inOrder_advance h c)

/-- The instructions of a text are listed in reading order. -/
theorem pairwise_scan (text : String) : (scan text).Pairwise Lexeme.Precedes :=
  (Cursor.inOrder_foldl text.toList (s := {}) ⟨List.Pairwise.nil, nofun⟩).1

/-- **The places of the instructions are exact.** The instruction with the index `n` is the symbol
in the text that has `n` symbols before it, and it stands behind the lines and the characters of its
line that are before it. Where a symbol stands in the lines of the text, and only there, is an
instruction. The instructions are listed in reading order, and their symbols are the text without
its comments. -/
theorem scan_exact (text : String) :
    (∀ n l, (scan text)[n]? = some l ↔ l.index = n ∧ Occurs text.toList l) ∧
      (∀ c line column,
        (∃ l ∈ scan text, l.op.symbol = c ∧ l.line = line ∧ l.column = column) ↔
          isSymbol c = true ∧ 1 ≤ line ∧ 1 ≤ column ∧
            ∃ row, (Text.lines text)[line - 1]? = some row ∧ row.toList[column - 1]? = some c) ∧
      (scan text).Pairwise Lexeme.Precedes ∧
      String.ofList ((scan text).map fun l => l.op.symbol) = filter text := by
  refine ⟨getElem?_scan_iff text, exists_mem_scan_iff text, pairwise_scan text, ?_⟩
  rw [map_symbol_scan, filter]

example : scan "é\r+\n\n [\n" = [⟨.increment, 0, 1, 3⟩, ⟨.openLoop, 1, 3, 2⟩] := by
  decide

end Source

/-! ## Places in a source text -/

namespace Source

/-- **An instruction stands in its line at its column.** -/
theorem scan_stands {text : String} {l : Lexeme} (hl : l ∈ scan text) :
    ∃ row column line, l.line = row + 1 ∧ l.column = column + 1 ∧
      (Text.lines text)[row]? = some line ∧ line.toList[column]? = some l.op.symbol := by
  obtain ⟨-, hline, hcolumn, line, hrow, hin⟩ :=
    (exists_mem_scan_iff text _ _ _).1 ⟨l, hl, rfl, rfl, rfl⟩
  exact ⟨l.line - 1, l.column - 1, line, (Nat.sub_add_cancel hline).symm,
    (Nat.sub_add_cancel hcolumn).symm, hrow, hin⟩

end Source

/-! ## Showing the place -/

namespace Excerpt

/-- A line of the text keeps its number in a window. -/
theorem marked_around {count line margin : Int} (h₁ : 1 ≤ line) (h₂ : line ≤ count) :
    (Window.around count line margin).marked = line := by
  simp only [Window.around]
  omega

/-- The excerpt around a place in the text is drawn. -/
theorem text_eq_drawn (lines : Array String) {row column : Nat} {line : String}
    (hrow : lines[row]? = some line) (hwide : column < line.length) (margin : Int) :
    text lines ((row : Int) + 1) (some ((column : Int) + 1)) margin =
      .ok (drawn lines (.around lines.size ((row : Int) + 1) margin)
        (some ((column : Int) + 1))) := by
  have hlt : row < lines.size := (Array.getElem?_eq_some_iff.1 hrow).1
  -- the marked line is the one sought, and it is wide enough for the caret
  have hmarked : (Window.around lines.size ((row : Int) + 1) margin).marked = (row : Int) + 1 :=
    marked_around (by omega) (by omega)
  have hwidth : markedWidth lines (Window.around lines.size ((row : Int) + 1) margin) =
      line.length := by
    rw [markedWidth, hmarked, lineAt?, if_pos (by omega), Int.add_sub_cancel, Int.toNat_natCast,
      hrow]
    rfl
  have hcaret : caretFault? line.length ((column : Int) + 1) = none :=
    caretFault?_of_le_width (by omega) (by omega)
  have hfault : fault? lines (Window.around lines.size ((row : Int) + 1) margin)
      (some ((column : Int) + 1)) = none := by
    rw [fault?, hwidth, Option.bind_some, hcaret, ite_self]
  rw [text, hfault]

end Excerpt

/-- The place of an instruction in a source text, with the lines around it. -/
def Source.Lexeme.site (text : String) (l : Lexeme) : Site :=
  ⟨l.line, some l.column, Excerpt.drawn (Text.lines text).toArray
    (.around (Text.lines text).toArray.size l.line 1) (some l.column)⟩

/-- **The place of an instruction of a source text can be shown.** -/
theorem find?_of_mem_scan {text : String} {l : Source.Lexeme} (hl : l ∈ Source.scan text) :
    Site.find? (some text) (some (l.line : Int)) (some (l.column : Int)) =
      .ok (some (l.site text)) := by
  obtain ⟨row, column, line, hline, hcolumn, hrow, hin⟩ := Source.scan_stands hl
  have hwide : column < line.length := by
    have := (List.getElem?_eq_some_iff.1 hin).1
    rwa [String.length_toList] at this
  have hdrawn := Excerpt.text_eq_drawn (Text.lines text).toArray
    (by rwa [List.getElem?_toArray]) hwide 1
  rw [Source.Lexeme.site, hline, hcolumn, Site.find?, Int.natCast_succ, Int.natCast_succ, hdrawn]

/-- A loop end of a source text that has no beginning is reported with its place. -/
theorem ofClose_of_mem_scan {text : String} {l : Source.Lexeme} (hl : l ∈ Source.scan text)
    (position : Int) :
    DecodeError.ofClose position (some text) (some (l.line : Int)) (some (l.column : Int)) =
      .unmatchedClose position (some (l.site text)) := by
  rw [DecodeError.ofClose, find?_of_mem_scan hl]

namespace Program

open Brackets

/-- **A source text that is no program has a loop end too many or a loop end too few.** -/
theorem parse_error {text : String} {e : DecodeError} (h : (parse text).outcome = .error e) :
    (∃ position site, e = .unmatchedClose position (some site)) ∨
      ∃ position unclosed, e = .unmatchedOpen position unclosed := by
  rcases decode_cases ((Source.scan text).map Token.ofLexeme) (some text) with
    ⟨n, t, -, ht, hr⟩ | ⟨u, us, -, hr⟩ | ⟨n, t, -, hfirst, -, -⟩ | ⟨p, -, hr⟩
  · obtain ⟨l, hl, rfl⟩ := List.mem_map.1 (List.mem_of_getElem? ht)
    rw [parse, hr, Except.error.injEq] at h
    exact Or.inl ⟨n, l.site text, h.symm.trans (ofClose_of_mem_scan hl n)⟩
  · rw [parse, hr, Except.error.injEq] at h
    exact Or.inr ⟨_, _, h.symm⟩
  · exact absurd hfirst.1 (not_foreign_of_lexemes _ n)
  · rw [parse, hr] at h
    exact absurd h nofun

end Program

end TapeLanguage
