import TapeLanguage.Proofs.Places

/-!
# The lines of an excerpt

An excerpt is cut at line feeds into the lines it was drawn from (`lines_drawn`): no line of a text
holds a line feed (`oneLine_of_mem_lines`), nor does what is put in front of it, and texts without
line feeds are the lines of what they are joined to (`Text.lines_joined`).

An excerpt with a margin shows a `Block` of lines that stand in a row in the text: the marked line
with the caret below it, and on either side as many lines as the margin allows and the text has
(`Block.drawn_eq`). No other line is marked (`Block.isMarked_iff`). With a margin of one these are
the neighbours of the line, as far as it has any (`lines_drawn_around`).

Each numbered line stands behind a `gutter`, which is as wide as the number needs and holds four
digits at the least (`length_gutter`). The caret stands behind a gutter of fixed width
(`caret_stands_iff`).
-/

set_option autoImplicit false

namespace TapeLanguage

/-! ## Lines and joined texts -/

namespace Text

/-- Cutting at a separator is splitting there. -/
theorem cut_eq_splitOn (separator : Char) (cs : List Char) :
    cut separator cs = cs.splitOn separator := by
  induction cs with
  | nil => simp [cut]
  | cons c cs ih =>
    rw [List.splitOn_cons_eq_if_modifyHead]
    by_cases hc : c = separator
    · simp [hc, ih]
    · obtain ⟨piece, more, hpieces, hcut⟩ := cut_cons (r := cs) hc
      rw [hcut, ← ih, hpieces]
      simp [hc]

/-- The text holds no line feed. -/
def OneLine (text : String) : Prop :=
  '\n' ∉ text.toList

/-- A piece holds no separator. -/
theorem not_mem_of_mem_cut {separator : Char} {cs piece : List Char}
    (h : piece ∈ cut separator cs) : separator ∉ piece := by
  induction cs generalizing piece with
  | nil =>
    obtain rfl := List.mem_singleton.1 h
    simp
  | cons c cs ih =>
    by_cases hc : c = separator
    · subst hc
      rw [cut_separator, List.mem_cons] at h
      rcases h with rfl | h
      · simp
      · exact ih h
    · obtain ⟨first, more, hpieces, hcut⟩ := cut_cons (r := cs) hc
      rw [hpieces] at ih
      rw [hcut, List.mem_cons] at h
      rcases h with rfl | h
      · -- the first piece has got one more character, which is no separator
        have hfirst : separator ∉ first := ih List.mem_cons_self
        simp [hfirst, Ne.symm hc]
      · exact ih (List.mem_cons_of_mem _ h)

/-- A line of a text holds no line feed. -/
theorem oneLine_of_mem_lines {text line : String} (h : line ∈ lines text) : OneLine line := by
  obtain ⟨piece, hpiece, rfl⟩ := List.mem_map.1 h
  rw [OneLine, String.toList_ofList]
  exact not_mem_of_mem_cut hpiece

/-- **Texts without line feeds are the lines of what they are joined to.** -/
theorem lines_joined {texts : List String} (hne : texts ≠ []) (hone : ∀ t ∈ texts, OneLine t) :
    lines (joined texts) = texts := by
  have hpieces : ∀ cs ∈ texts.map String.toList, '\n' ∉ cs := by
    intro cs hcs
    obtain ⟨t, ht, rfl⟩ := List.mem_map.1 hcs
    exact hone t ht
  have hcut : cut '\n' (joined texts).toList = texts.map String.toList := by
    rw [cut_eq_splitOn, joined, String.toList_intercalate]
    exact List.splitOn_intercalate '\n' hpieces (by simpa using hne)
  rw [lines, pieces, hcut, List.map_map]
  simp

@[simp] theorem oneLine_append {a b : String} : OneLine (a ++ b) ↔ OneLine a ∧ OneLine b := by
  simp [OneLine]

/-- A number is written in digits and signs only. -/
theorem not_mem_toString {c : Char} (hdigit : c.isDigit = false) (hsign : c ≠ '-')
    (number : Int) : c ∉ (toString number).toList := by
  have hdigits : ∀ n : Nat, c ∉ n.repr.toList := by
    intro n hmem
    rw [Nat.toList_repr] at hmem
    have hc : c.isDigit = true := Nat.isDigit_of_mem_toDigits (by omega) (by omega) hmem
    exact Bool.noConfusion (hdigit.symm.trans hc)
  cases number with
  | ofNat n => exact hdigits n
  | negSucc n =>
    show c ∉ ("-" ++ (n + 1).repr).toList
    rw [String.toList_append, List.mem_append, not_or]
    exact ⟨by simpa using hsign, hdigits (n + 1)⟩

/-- A number holds no line feed. -/
theorem oneLine_toString (number : Int) : OneLine (toString number) :=
  not_mem_toString rfl (by decide) number

theorem oneLine_alignedRight {text : String} (h : OneLine text) (width : Nat) :
    OneLine (alignedRight width text) := by
  rw [OneLine] at h
  simp [OneLine, alignedRight, List.leftpad, h]

end Text

namespace Excerpt

/-! ## Gutters -/

/-- What stands in front of a numbered line. -/
def gutter (marked : Bool) (number : Int) : String :=
  (if marked then ">" else " ") ++ " " ++ Text.alignedRight 4 (toString number) ++ " | "

theorem numberedLine_eq (marked : Bool) (number : Int) (text : String) :
    numberedLine marked number text = gutter marked number ++ text := rfl

/-- A gutter is as wide as its number needs, and it holds four digits at the least. -/
theorem length_gutter (marked : Bool) (number : Int) :
    (gutter marked number).length = max 4 (toString number).length + 5 := by
  have hmark : (if marked then ">" else " ").length = 1 := by cases marked <;> rfl
  have hblank : " ".length = 1 := rfl
  have hbar : " | ".length = 3 := rfl
  simp only [gutter, Text.alignedRight, String.length_append, String.length_ofList,
    List.length_leftpad, String.length_toList, hmark, hblank, hbar]
  omega

/-- The width of what stands in front of the blanks before a caret. -/
def caretGutterWidth : Nat := 9

/-- A character behind others that differ from it stands where these end and nowhere else. -/
theorem getElem?_concat_eq_some_iff {front : List Char} {c : Char} (h : c ∉ front) (n : Nat) :
    (front ++ [c])[n]? = some c ↔ n = front.length := by
  constructor
  · intro hn
    rw [List.getElem?_append] at hn
    split at hn
    · exact absurd (List.mem_of_getElem? hn) h
    · have hlt := (List.getElem?_eq_some_iff.1 hn).1
      rw [List.length_singleton] at hlt
      omega
  · rintro rfl
    simp

/-- A caret stands behind as many blanks as there are characters before its column. -/
theorem caret_stands_iff (column : Int) (offset : Nat) :
    (caretLine column).toList[offset]? = some '^' ↔
      offset = caretGutterWidth + (column - 1).toNat := by
  have hline : (caretLine column).toList =
      ("       | ".toList ++ List.replicate (column - 1).toNat ' ') ++ ['^'] := by
    simp [caretLine]
  have hwidth : ("       | ".toList ++ List.replicate (column - 1).toNat ' ').length =
      caretGutterWidth + (column - 1).toNat := by
    rw [List.length_append, List.length_replicate]
    rfl
  rw [hline, getElem?_concat_eq_some_iff (by simp), hwidth]

/-! ## The lines shown -/

/-- The line is marked. -/
def IsMarked (line : String) : Prop :=
  line.toList.head? = some '>'

theorem isMarked_numberedLine {marked : Bool} {number : Int} {text : String} :
    IsMarked (numberedLine marked number text) ↔ marked = true := by
  cases marked <;> simp [IsMarked, numberedLine]

theorem not_isMarked_caretLine (column : Int) : ¬ IsMarked (caretLine column) := by
  simp [IsMarked, caretLine]

theorem oneLine_numberedLine {text : String} (h : Text.OneLine text) (marked : Bool)
    (number : Int) : Text.OneLine (numberedLine marked number text) := by
  have hnumber := Text.oneLine_alignedRight (Text.oneLine_toString number) 4
  simp only [numberedLine, Text.oneLine_append]
  refine ⟨⟨⟨⟨?_, ?_⟩, hnumber⟩, ?_⟩, h⟩
  · cases marked <;> simp [Text.OneLine]
  · simp [Text.OneLine]
  · simp [Text.OneLine]

theorem oneLine_caretLine (column : Int) : Text.OneLine (caretLine column) := by
  simp [Text.OneLine, caretLine]

/-- The lines of an excerpt hold no line feed if the lines of the text hold none. -/
theorem oneLine_of_mem_shown {lines : Array String} (hlines : ∀ l ∈ lines, Text.OneLine l)
    {marked number : Int} {column : Option Int} {l : String}
    (h : l ∈ shown lines marked column number) : Text.OneLine l := by
  have hline : Text.OneLine ((lineAt? lines number).getD "") := by
    cases hat : lineAt? lines number with
    | none => simp [Text.OneLine]
    | some line =>
      rw [lineAt?] at hat
      split at hat
      · exact hlines line (Array.mem_of_getElem? hat)
      · cases hat
  rcases List.mem_cons.1 h with rfl | h
  · exact oneLine_numberedLine hline _ number
  · cases column with
    | none => exact absurd h List.not_mem_nil
    | some c =>
      simp only [List.mem_ite_nil_right, List.mem_singleton] at h
      obtain ⟨-, rfl⟩ := h
      exact oneLine_caretLine c

/-- **The lines of an excerpt are the lines that it was drawn from.** -/
theorem lines_drawn {lines : Array String} (hlines : ∀ l ∈ lines, Text.OneLine l)
    {window : Window} (hne : window.numbers ≠ []) (column : Option Int) :
    Text.lines (drawn lines window column) =
      window.numbers.flatMap (shown lines window.marked column) := by
  rw [drawn]
  apply Text.lines_joined
  · -- something is shown of each line
    intro hnil
    obtain ⟨number, hnumber⟩ := List.exists_mem_of_ne_nil _ hne
    exact List.cons_ne_nil _ _ (List.flatMap_eq_nil_iff.1 hnil number hnumber)
  · intro l hl
    obtain ⟨number, -, hshown⟩ := List.mem_flatMap.1 hl
    exact oneLine_of_mem_shown hlines hshown

end Excerpt

/-! ## Blocks of lines -/

namespace Window

/-- The lines shown are those from the first one to the last one. -/
theorem mem_numbers_iff {w : Window} {number : Int} :
    number ∈ w.numbers ↔ w.first ≤ number ∧ number ≤ w.last := by
  simp only [numbers, List.mem_map, List.mem_range]
  constructor
  · rintro ⟨k, hk, rfl⟩
    omega
  · rintro ⟨hfirst, hlast⟩
    exact ⟨(number - w.first).toNat, by omega, by omega⟩

/-- Numbers in a row. -/
def numbersFrom (first : Int) (count : Nat) : List Int :=
  (List.range count).map fun k : Nat => first + (k : Int)

theorem numbersFrom_add (first : Int) (m n : Nat) :
    numbersFrom first (m + n) = numbersFrom first m ++ numbersFrom (first + m) n := by
  simp [numbersFrom, List.range_add, Int.add_assoc]

theorem numbersFrom_succ (first : Int) (n : Nat) :
    numbersFrom first (n + 1) = first :: numbersFrom (first + 1) n := by
  rw [Nat.add_comm, numbersFrom_add]
  simp [numbersFrom]

/-- The numbers of the lines shown, from the first one on. -/
theorem numbers_eq {w : Window} {first : Int} {count : Nat} (hfirst : w.first = first)
    (hlast : w.last + 1 = first + count) : w.numbers = numbersFrom first count := by
  have hcount : (w.last + 1 - w.first).toNat = count := by omega
  rw [numbers, hcount, hfirst, numbersFrom]

end Window

namespace Excerpt

/-- The lines of a text have the numbers from one on. -/
theorem lineAt?_succ (lines : Array String) (row : Nat) :
    lineAt? lines ((row : Int) + 1) = lines[row]? := by
  rw [lineAt?, if_pos (by omega), Int.add_sub_cancel, Int.toNat_natCast]

/-- A line of the text that is not marked is shown alone. -/
theorem shown_of_ne {lines : Array String} {row : Nat} {line : String}
    (hrow : lines[row]? = some line) {marked : Int} (hne : (row : Int) + 1 ≠ marked)
    (column : Option Int) :
    shown lines marked column (row + 1) = [numberedLine false (row + 1) line] := by
  have hother : ((row : Int) + 1 == marked) = false := beq_eq_false_iff_ne.2 hne
  cases column <;> simp [shown, lineAt?_succ, hrow, hne, hother]

/-- The marked line is shown with the caret below it. -/
theorem shown_marked {lines : Array String} {row : Nat} {line : String}
    (hrow : lines[row]? = some line) (column : Option Int) :
    shown lines (row + 1) column (row + 1) =
      numberedLine true (row + 1) line :: column.toList.map caretLine := by
  cases column <;> simp [shown, lineAt?_succ, hrow]

/-- Lines that are not marked, behind `before` other lines of the text. -/
def numbered : Nat → List String → List String
  | _, [] => []
  | before, text :: rest => numberedLine false (before + 1) text :: numbered (before + 1) rest

theorem length_numbered (before : Nat) (texts : List String) :
    (numbered before texts).length = texts.length := by
  induction texts generalizing before with
  | nil => rfl
  | cons text rest ih => rw [numbered, List.length_cons, List.length_cons, ih]

theorem not_isMarked_of_mem_numbered {before : Nat} {texts : List String} {l : String}
    (h : l ∈ numbered before texts) : ¬ IsMarked l := by
  induction texts generalizing before with
  | nil => cases h
  | cons text rest ih =>
    rcases List.mem_cons.1 h with rfl | h
    · simp [isMarked_numberedLine]
    · exact ih h

/-- Lines in a row are shown in a row, if the marked line is not among them. -/
theorem flatMap_shown {lines : Array String} {start : Nat} {texts : List String}
    (hlines : ∀ k text, texts[k]? = some text → lines[start + k]? = some text) {marked : Int}
    (hout : marked ≤ start ∨ start + texts.length < marked) (column : Option Int) :
    (Window.numbersFrom ((start : Int) + 1) texts.length).flatMap (shown lines marked column) =
      numbered start texts := by
  induction texts generalizing start with
  | nil => rfl
  | cons text rest ih =>
    rw [List.length_cons] at hout ⊢
    have hne : (start : Int) + 1 ≠ marked := by omega
    have hfirst := shown_of_ne (hlines 0 text rfl) hne column
    have hrest : ∀ k text', rest[k]? = some text' → lines[start + 1 + k]? = some text' := by
      intro k text' hk
      rw [Nat.add_assoc, Nat.add_comm 1 k]
      exact hlines (k + 1) text' hk
    rw [numbered, Window.numbersFrom_succ, List.flatMap_cons, ← ih hrest (by omega)]
    exact congrArg (· ++ _) hfirst

/-- A line of a text, the lines shown before it and after it, and the other lines of the text. -/
structure Block (lines : Array String) where
  /-- The lines above those shown. -/
  above : List String
  /-- The lines shown before the marked one. -/
  before : List String
  /-- The marked line. -/
  line : String
  /-- The lines shown after the marked one. -/
  after : List String
  /-- The lines below those shown. -/
  below : List String
  /-- They are the lines of the text. -/
  lines_eq : lines.toList = above ++ (before ++ line :: (after ++ below))

namespace Block

variable {lines : Array String} (b : Block lines)

/-- The number of lines above the marked one. -/
def row : Nat :=
  b.above.length + b.before.length

/-- The lines of the excerpt. -/
def shown (column : Option Int) : List String :=
  numbered b.above.length b.before ++
    (numberedLine true (b.row + 1) b.line :: column.toList.map caretLine) ++
      numbered (b.row + 1) b.after

/-- On either side as many lines are shown as the margin allows and the text has. -/
structure Spans (margin : Int) : Prop where
  before : (b.before.length : Int) = min margin b.row
  after : (b.after.length : Int) = min margin (b.after.length + b.below.length)

theorem size_eq : lines.size = b.row + 1 + (b.after.length + b.below.length) := by
  rw [← Array.length_toList, b.lines_eq, row]
  simp only [List.length_append, List.length_cons]
  omega

theorem getElem?_before {k : Nat} {text : String} (h : b.before[k]? = some text) :
    lines[b.above.length + k]? = some text := by
  have hlt := (List.getElem?_eq_some_iff.1 h).1
  rw [← Array.getElem?_toList, b.lines_eq, List.getElem?_append_right (Nat.le_add_right _ _),
    Nat.add_sub_cancel_left, List.getElem?_append_left hlt, h]

theorem getElem?_line : lines[b.row]? = some b.line := by
  rw [← Array.getElem?_toList, b.lines_eq, row]
  simp

theorem getElem?_after {k : Nat} {text : String} (h : b.after[k]? = some text) :
    lines[b.row + 1 + k]? = some text := by
  have hlt := (List.getElem?_eq_some_iff.1 h).1
  have hplace : b.row + 1 + k = b.above.length + (b.before.length + (k + 1)) := by
    rw [row]
    omega
  rw [hplace, ← Array.getElem?_toList, b.lines_eq,
    List.getElem?_append_right (Nat.le_add_right _ _), Nat.add_sub_cancel_left,
    List.getElem?_append_right (Nat.le_add_right _ _),
    Nat.add_sub_cancel_left, List.getElem?_cons_succ, List.getElem?_append_left hlt, h]

/-- **The window around the marked line shows the block.** -/
theorem flatMap_numbers {margin : Int} (hspans : b.Spans margin) (column : Option Int) :
    (Window.around lines.size (b.row + 1) margin).numbers.flatMap
        (Excerpt.shown lines (b.row + 1) column) = b.shown column := by
  obtain ⟨hbefore, hafter⟩ := hspans
  have hsize := b.size_eq
  have hrow : b.row = b.above.length + b.before.length := rfl
  have hnumbers : (Window.around lines.size (b.row + 1) margin).numbers =
      Window.numbersFrom (b.above.length + 1) (b.before.length + (1 + b.after.length)) := by
    apply Window.numbers_eq
    · simp only [Window.around]
      omega
    · simp only [Window.around]
      omega
  have hfirst : (b.above.length : Int) + 1 + b.before.length = (b.row : Int) + 1 := by omega
  have hout : (b.row : Int) + 1 ≤ (b.row + 1 : Nat) := by omega
  have hbelow := flatMap_shown (fun k text h => b.getElem?_after h) (Or.inl hout) column
  rw [Int.natCast_succ] at hbelow
  rw [hnumbers, Window.numbersFrom_add, hfirst, Nat.add_comm 1, Window.numbersFrom_succ,
    List.flatMap_append, List.flatMap_cons, shown_marked b.getElem?_line, hbelow,
    flatMap_shown (fun k text h => b.getElem?_before h) (by omega), shown, List.append_assoc]

/-- The marked line keeps its number in a window around it. -/
theorem marked_around (margin : Int) :
    (Window.around lines.size (b.row + 1) margin).marked = (b.row : Int) + 1 := by
  have hsize := b.size_eq
  exact Excerpt.marked_around (by omega) (by omega)

/-- **The excerpt around the marked line shows the block.** -/
theorem drawn_eq {margin : Int} (hspans : b.Spans margin) (column : Option Int) :
    drawn lines (.around lines.size (b.row + 1) margin) column = Text.joined (b.shown column) := by
  rw [drawn, b.marked_around, b.flatMap_numbers hspans]

/-- The lines of the excerpt are those of the block if the lines of the text hold no line feed. -/
theorem lines_drawn (hlines : ∀ l ∈ lines, Text.OneLine l) {margin : Int}
    (hspans : b.Spans margin) (column : Option Int) :
    Text.lines (drawn lines (.around lines.size (b.row + 1) margin) column) = b.shown column := by
  have hshown := b.flatMap_numbers hspans column
  have hne : (Window.around lines.size (b.row + 1) margin).numbers ≠ [] := by
    intro hnil
    rw [hnil] at hshown
    simp [shown] at hshown
  rw [Excerpt.lines_drawn hlines hne, b.marked_around, hshown]

/-- **Exactly one line of a block is marked.** -/
theorem isMarked_iff {column : Option Int} {n : Nat} {l : String}
    (h : (b.shown column)[n]? = some l) : IsMarked l ↔ n = b.before.length := by
  have hfront : (numbered b.above.length b.before).length = b.before.length := length_numbered _ _
  rw [shown, List.append_assoc, List.cons_append] at h
  rcases Nat.lt_trichotomy n b.before.length with hlt | rfl | hgt
  · -- a line before
    rw [List.getElem?_append_left (by omega)] at h
    exact iff_of_false (not_isMarked_of_mem_numbered (List.mem_of_getElem? h)) (Nat.ne_of_lt hlt)
  · -- the line itself
    rw [List.getElem?_append_right (by omega), hfront, Nat.sub_self, List.getElem?_cons_zero,
      Option.some.injEq] at h
    rw [← h]
    exact iff_of_true (isMarked_numberedLine.2 rfl) rfl
  · -- the caret or a line after
    obtain ⟨k, rfl⟩ := Nat.exists_eq_add_of_lt hgt
    rw [Nat.add_assoc, List.getElem?_append_right (by omega), hfront, Nat.add_sub_cancel_left,
      List.getElem?_cons_succ] at h
    refine iff_of_false ?_ (Nat.ne_of_gt hgt)
    rcases List.mem_append.1 (List.mem_of_getElem? h) with hcaret | hafter
    · obtain ⟨c, -, rfl⟩ := List.mem_map.1 hcaret
      exact not_isMarked_caretLine c
    · exact not_isMarked_of_mem_numbered hafter

/-- The block that shows `margin` lines on either side of a line, as far as the text has them. -/
def ofLine {above below : List String} {line : String} (margin : Nat)
    (htext : lines.toList = above ++ line :: below) : Block lines where
  above := above.take (above.length - margin)
  before := above.drop (above.length - margin)
  line := line
  after := below.take margin
  below := below.drop margin
  lines_eq := by
    rw [List.take_append_drop, ← List.append_assoc, List.take_append_drop, htext]

section OfLine

variable {above below : List String} {line : String} (margin : Nat)
  (htext : lines.toList = above ++ line :: below)

theorem row_ofLine : (ofLine margin htext).row = above.length := by
  simp only [row, ofLine, List.length_take, List.length_drop]
  omega

theorem spans_ofLine : (ofLine margin htext).Spans margin := by
  constructor
  · rw [row_ofLine]
    simp only [ofLine, List.length_drop]
    omega
  · simp only [ofLine, List.length_take, List.length_drop]
    omega

end OfLine

/-- **There is a block around every line**: around the nearest line of the text, if the line sought
is outside. -/
theorem exists_spans (hne : 0 < lines.size) (line : Int) {margin : Int} (hmargin : 0 ≤ margin) :
    ∃ b : Block lines, b.Spans margin ∧ (b.row : Int) + 1 = max 1 (min line lines.size) ∧
      Window.around lines.size line margin = .around lines.size (b.row + 1) margin := by
  obtain ⟨row, hrow⟩ : ∃ row : Nat, (row : Int) + 1 = max 1 (min line lines.size) :=
    ⟨(max 1 (min line lines.size) - 1).toNat, by omega⟩
  have hlt : row < lines.toList.length := by
    rw [Array.length_toList]
    omega
  obtain ⟨m, rfl⟩ := Int.eq_ofNat_of_zero_le hmargin
  have htext : lines.toList =
      lines.toList.take row ++ lines.toList[row] :: lines.toList.drop (row + 1) := by
    rw [← List.drop_eq_getElem_cons hlt, List.take_append_drop]
  have hb : (ofLine m htext).row = row := by
    rw [row_ofLine, List.length_take_of_le (Nat.le_of_lt hlt)]
  refine ⟨ofLine m htext, spans_ofLine m htext, by rw [hb, hrow], ?_⟩
  rw [hb, hrow, Window.around, Window.around]
  -- a line that has been moved into the text stays there
  have hclamp : max 1 (min (max 1 (min line lines.size)) (lines.size : Int)) =
      max 1 (min line lines.size) := by omega
  rw [hclamp]

end Block

/-! ## Around a line of the text -/

section Around

variable {lines : Array String} {above below : List String} {line : String}

/-- A block with a margin of one line shows the line before, if there is one, and the line after,
if there is one. -/
theorem shown_ofLine_one (htext : lines.toList = above ++ line :: below) (column : Option Int) :
    (Block.ofLine 1 htext).shown column =
      above.getLast?.toList.map (numberedLine false above.length) ++
        (numberedLine true (above.length + 1) line :: column.toList.map caretLine) ++
          below.head?.toList.map (numberedLine false (above.length + 2)) := by
  have habove : numbered (above.take (above.length - 1)).length (above.drop (above.length - 1)) =
      above.getLast?.toList.map (numberedLine false above.length) := by
    rcases List.eq_nil_or_concat above with rfl | ⟨front, last, rfl⟩
    · rfl
    · simp [numbered]
  have hbelow : numbered (above.length + 1) (below.take 1) =
      below.head?.toList.map (numberedLine false (above.length + 2)) := by
    cases below with
    | nil => rfl
    | cons next rest => simp [numbered, Int.add_assoc]
  rw [Block.shown, Block.row_ofLine, ← habove, ← hbelow]
  rfl

theorem lines_drawn_ofLine_one (hlines : ∀ l ∈ lines, Text.OneLine l)
    (htext : lines.toList = above ++ line :: below) (column : Option Int) :
    Text.lines (drawn lines (.around lines.size (above.length + 1) 1) column) =
      (Block.ofLine 1 htext).shown column := by
  have h := (Block.ofLine 1 htext).lines_drawn hlines (Block.spans_ofLine 1 htext) column
  rwa [Block.row_ofLine, Int.natCast_one] at h

/-- **An excerpt around a line of the text shows it between its neighbours**, as far as it has any,
with the caret directly below it. -/
theorem lines_drawn_around (hlines : ∀ l ∈ lines, Text.OneLine l)
    (htext : lines.toList = above ++ line :: below) (column : Int) :
    Text.lines (drawn lines (.around lines.size (above.length + 1) 1) (some column)) =
      above.getLast?.toList.map (numberedLine false above.length) ++
        numberedLine true (above.length + 1) line :: caretLine column ::
          below.head?.toList.map (numberedLine false (above.length + 2)) := by
  rw [lines_drawn_ofLine_one hlines htext, shown_ofLine_one]
  simp

/-- **Only the line sought is marked in an excerpt around it.** -/
theorem isMarked_iff_of_around (hlines : ∀ l ∈ lines, Text.OneLine l)
    (htext : lines.toList = above ++ line :: below) {column : Int} {n : Nat} {l : String}
    (hl : (Text.lines (drawn lines (.around lines.size (above.length + 1) 1) (some column)))[n]? =
      some l) :
    IsMarked l ↔ n = above.getLast?.toList.length := by
  rw [lines_drawn_ofLine_one hlines htext] at hl
  have hbefore : (Block.ofLine 1 htext).before.length = above.getLast?.toList.length := by
    rcases List.eq_nil_or_concat above with rfl | ⟨front, last, rfl⟩
    · rfl
    · simp [Block.ofLine]
  rw [← hbefore]
  exact (Block.ofLine 1 htext).isMarked_iff hl

end Around

end Excerpt

end TapeLanguage
