import TapeLanguage.Op

/-!
# Instructions in a source text

Every character of a source text that is no symbol is a comment. `filter` drops the comments, and
`scan` lists the instructions in reading order as `Lexeme`s, with their rank among the instructions
and their line and column. Lines and columns are counted from one, in code points; a line feed, and
nothing else, begins a line.
-/

set_option autoImplicit false

namespace TapeLanguage.Source

/-- The symbols, in their listed order. -/
def alphabet : List Char :=
  Op.all.map Op.symbol

/-- A symbol of the language. -/
def isSymbol (c : Char) : Bool :=
  (Op.ofChar? c).isSome

/-- The positions in the alphabet at which a search may begin. -/
def alphabetStarts : List Nat :=
  List.range (alphabet.length + 1)

/-- A contiguous part of the alphabet, listed as `<>+-.,[]`; a single character is one exactly when
it is a symbol. -/
def isAlphabetPart (text : String) : Bool :=
  alphabetStarts.any fun start => text.toList.isPrefixOf (alphabet.drop start)

/-- A source text without its comments. -/
def filter (text : String) : String :=
  String.ofList (text.toList.filter isSymbol)

/-- An instruction of a source text. -/
structure Lexeme where
  /-- The instruction. -/
  op : Op
  /-- The number of instructions before it. -/
  index : Nat
  /-- The line it stands on. -/
  line : Nat
  /-- The column it stands in. -/
  column : Nat
  deriving DecidableEq, Repr

/-- The place reached in a source text and the instructions before it. -/
structure Cursor where
  /-- The current line. -/
  line : Nat := 1
  /-- The column of the last character read on the line. -/
  column : Nat := 0
  /-- The instructions read, in order. -/
  found : Array Lexeme := #[]

/-- Read one character. -/
def Cursor.advance (s : Cursor) (c : Char) : Cursor :=
  if c = '\n' then { s with line := s.line + 1, column := 0 }
  else
    match Op.ofChar? c with
    | some op =>
      { s with
        column := s.column + 1
        found := s.found.push ⟨op, s.found.size, s.line, s.column + 1⟩ }
    | none => { s with column := s.column + 1 }

/-- The instructions of a source text with their places. -/
def scan (text : String) : List Lexeme :=
  (text.toList.foldl Cursor.advance {}).found.toList

/-- A symbol is the symbol of some instruction. -/
theorem isSymbol_iff {c : Char} : isSymbol c = true ↔ ∃ op : Op, op.symbol = c := by
  simp only [isSymbol, Option.isSome_iff_exists, Op.ofChar?_eq_some_iff]

theorem map_symbol_advance (cs : List Char) (s : Cursor) :
    (cs.foldl Cursor.advance s).found.toList.map (fun l => l.op.symbol) =
      s.found.toList.map (fun l => l.op.symbol) ++ cs.filter isSymbol := by
  induction cs generalizing s with
  | nil => simp
  | cons c cs ih =>
    rw [List.foldl_cons, ih]
    by_cases hline : c = '\n'
    · have hplain : isSymbol c = false := by rw [hline]; rfl
      rw [Cursor.advance, if_pos hline, List.filter_cons_of_neg (by simp [hplain])]
    · cases hop : Op.ofChar? c with
      | some op =>
        have hsymbol : isSymbol c = true := by rw [isSymbol, hop]; rfl
        have hc : op.symbol = c := Op.ofChar?_eq_some_iff.1 hop
        simp [Cursor.advance, hline, hop, hsymbol, hc]
      | none =>
        have hplain : isSymbol c = false := by rw [isSymbol, hop]; rfl
        simp [Cursor.advance, hline, hop, hplain]

/-- **The instructions of a text are its symbols in order.** -/
theorem map_symbol_scan (text : String) :
    (scan text).map (fun l => l.op.symbol) = text.toList.filter isSymbol := by
  rw [scan, map_symbol_advance]
  rfl

end TapeLanguage.Source
