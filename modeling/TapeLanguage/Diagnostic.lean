import TapeLanguage.Text

/-!
# Diagnostics

What messages are made of. A hint tells how to mend the cause of a message, on a line after the
message (`Hint.append`).

An excerpt shows a line of a text with the lines around it. Each line follows its number in four
columns; the line sought is marked, and a caret on a line of its own points at a column. A line
number outside the text is moved to the nearest line. A caret can be drawn below every character of
the marked line. Outside of it, the caret cannot be drawn in a column that is no index word, or so
far to the right that its line would be longer than a text can be (`Excerpt.text`).
-/

set_option autoImplicit false

namespace TapeLanguage.Word

/-! ## Index words -/

/-- One more than the greatest number that fits. -/
def bound : Int := 9223372036854775808

/-- The numbers that fit. -/
def fits (n : Int) : Bool :=
  -bound ≤ n && n < bound

/-- The greatest number of characters of a text. With the 48 bytes in front of them and the null
byte behind them, they take as many bytes as an index word can count. -/
def maxLength : Int := bound - 50

/-- The text for a number that does not fit. -/
def overflowText : String :=
  "cannot fit 'int' into an index-sized integer"

/-- The numbers that fit, as a pair of bounds. -/
theorem fits_iff {n : Int} : fits n = true ↔ -bound ≤ n ∧ n < bound := by
  simp [fits]

end TapeLanguage.Word

namespace TapeLanguage

/-! ## Hints -/

/-- The causes for which there is advice. -/
inductive Hint where
  /-- A loop end without a beginning. -/
  | unmatchedClose
  /-- A loop beginning without an end. -/
  | unmatchedOpen
  /-- Input that ran out. -/
  | input
  /-- A pointer outside the tape. -/
  | bounds
  deriving DecidableEq, Repr

namespace Hint

/-- The advice. -/
def text : Hint → String
  | unmatchedClose =>
    "Every \"]\" needs an earlier \"[\" at the same nesting level. " ++
      "Remove the extra \"]\" or add the missing \"[\"."
  | unmatchedOpen => "Add the missing \"]\" or remove the extra \"[\"."
  | input => "The program asked for more input than was supplied. Pipe or type more input."
  | bounds => "Check \"<\" and \">\" balance; the pointer must stay within the tape."

/-- The cause with a given name. -/
def named? : String → Option Hint
  | "unmatched_close" => some unmatchedClose
  | "unmatched_open" => some unmatchedOpen
  | "input" => some input
  | "bounds" => some bounds
  | _ => none

/-- A message followed by the advice, if there is any. -/
def append (message : String) : Option Hint → String
  | some hint => message ++ "\nHint: " ++ hint.text
  | none => message

end Hint

/-! ## Excerpts -/

/-- The lines around a place that an excerpt shows. -/
structure Window where
  /-- The marked line. -/
  marked : Int
  /-- The first line shown. -/
  first : Int
  /-- The last line shown; nothing is shown if it comes before the first. -/
  last : Int
  deriving DecidableEq, Repr

namespace Window

/-- The window of a text of `count` lines: the line sought, moved into the text, and `margin` lines
on either side as far as they exist. -/
def around (count line margin : Int) : Window :=
  let marked := max 1 (min line count)
  ⟨marked, max 1 (marked - margin), min count (marked + margin)⟩

/-- The numbers of the lines shown. -/
def numbers (w : Window) : List Int :=
  (List.range (w.last + 1 - w.first).toNat).map fun k : Nat => w.first + (k : Int)

/-- Whether the marked line is among the lines shown. -/
def showsMarked (w : Window) : Bool :=
  w.first ≤ w.marked && w.marked ≤ w.last

end Window

/-- Why an excerpt cannot be drawn. -/
inductive ExcerptError where
  /-- The column is no index word. -/
  | columnOverflow
  /-- The line of the caret would be longer than a text can be. -/
  | tooLong
  deriving DecidableEq, Repr

/-- The text shown to the reader. -/
def ExcerptError.message : ExcerptError → String
  | columnOverflow => Word.overflowText
  | tooLong => ""

namespace Excerpt

/-- The line of the caret. -/
def caretLine (column : Int) : String :=
  "       | " ++ String.ofList (List.replicate (column - 1).toNat ' ') ++ "^"

/-- A numbered line. -/
def numberedLine (marked : Bool) (number : Int) (text : String) : String :=
  (if marked then ">" else " ") ++ " " ++ Text.alignedRight 4 (toString number) ++ " | " ++ text

/-- The line with a number, counted from one; there is no line outside the text. -/
def lineAt? (lines : Array String) (number : Int) : Option String :=
  if 1 ≤ number then lines[(number - 1).toNat]? else none

/-- The lines that show one numbered line, the caret included. -/
def shown (lines : Array String) (marked : Int) (column : Option Int) (number : Int) :
    List String :=
  numberedLine (number == marked) number ((lineAt? lines number).getD "") ::
    match column with
    | some c => if number = marked then [caretLine c] else []
    | none => []

/-- The excerpt of a text around a line, if the caret can be drawn. -/
def drawn (lines : Array String) (window : Window) (column : Option Int) : String :=
  Text.joined (window.numbers.flatMap (shown lines window.marked column))

/-- The greatest column of a caret, in which its line is as long as a text can be. -/
def maxColumn : Int := Word.maxLength - 9

/-- Why a caret cannot be drawn in a column of a line with `width` characters. The blanks below a
character take no more room than the line itself. -/
def caretFault? (width : Nat) (column : Int) : Option ExcerptError :=
  if 1 ≤ column ∧ column ≤ width then none
  else if !Word.fits (column - 1) then some .columnOverflow
  else if maxColumn < column then some .tooLong
  else none

/-- The number of characters of the marked line. -/
def markedWidth (lines : Array String) (window : Window) : Nat :=
  ((lineAt? lines window.marked).getD "").length

/-- Why an excerpt cannot be drawn: it shows the marked line, and the caret cannot be drawn. -/
def fault? (lines : Array String) (window : Window) (column : Option Int) : Option ExcerptError :=
  if window.showsMarked then column.bind (caretFault? (markedWidth lines window)) else none

/-- The excerpt of a text around a line. -/
def text (lines : Array String) (line : Int) (column : Option Int) (margin : Int) :
    Except ExcerptError String :=
  let window := Window.around lines.size line margin
  match fault? lines window column with
  | some e => .error e
  | none => .ok (drawn lines window column)

/-- Without a column every excerpt can be drawn. -/
theorem fault?_none (lines : Array String) (window : Window) : fault? lines window none = none := by
  simp [fault?]

/-- A caret can be drawn below every character of the line. -/
theorem caretFault?_of_le_width {width : Nat} {column : Int} (h₁ : 1 ≤ column)
    (h₂ : column ≤ width) : caretFault? width column = none :=
  if_pos ⟨h₁, h₂⟩

/-- A caret can be drawn in every column up to the greatest one. -/
theorem caretFault?_eq_none (width : Nat) {column : Int} (h₁ : 0 ≤ column)
    (h₂ : column ≤ maxColumn) : caretFault? width column = none := by
  have hfits : Word.fits (column - 1) = true := by
    rw [Word.fits_iff, Word.bound]
    rw [maxColumn, Word.maxLength, Word.bound] at h₂
    omega
  have hlimit : ¬ maxColumn < column := by omega
  simp [caretFault?, hfits, hlimit]

/-- The line of a caret is as long as the margin of the lines and the column. -/
theorem length_caretLine (column : Int) :
    ((caretLine column).length : Int) = max column 1 + 9 := by
  have hlength : (caretLine column).length = 9 + (column - 1).toNat + 1 := by
    have hmargin : "       | ".length = 9 := rfl
    have hcaret : "^".length = 1 := rfl
    simp [caretLine, hmargin, hcaret]
  rw [hlength]
  omega

/-- The line of a caret is too long for a text exactly behind the greatest column. -/
theorem maxColumn_lt_iff {column : Int} :
    maxColumn < column ↔ Word.maxLength < (caretLine column).length := by
  rw [length_caretLine, maxColumn, Word.maxLength, Word.bound]
  omega

end Excerpt

end TapeLanguage
