/-!
# The eight instructions

`Op` lists the instructions of the tape language. Each has one symbol, the character that denotes it
in a source text, and one name, used in listings. `ofChar?` reads a symbol and is the inverse of
`symbol` (`ofChar?_eq_some_iff`); `named?` reads a name.
-/

set_option autoImplicit false

namespace TapeLanguage

/-- The instructions of the tape language. -/
inductive Op where
  /-- Move the pointer one cell down. -/
  | moveLeft
  /-- Move the pointer one cell up. -/
  | moveRight
  /-- Add one to the cell. -/
  | increment
  /-- Take one from the cell. -/
  | decrement
  /-- Write the cell. -/
  | output
  /-- Read a byte into the cell. -/
  | input
  /-- Begin a loop body. -/
  | openLoop
  /-- End a loop body. -/
  | closeLoop
  deriving DecidableEq, Repr

namespace Op

/-- All instructions, in the order of their symbols in `alphabet`. -/
def all : List Op :=
  [moveLeft, moveRight, increment, decrement, output, input, openLoop, closeLoop]

/-- The character that denotes an instruction. -/
def symbol : Op → Char
  | moveLeft => '<'
  | moveRight => '>'
  | increment => '+'
  | decrement => '-'
  | output => '.'
  | input => ','
  | openLoop => '['
  | closeLoop => ']'

/-- The name of an instruction in listings. -/
def name : Op → String
  | moveLeft => "MOVE_LEFT"
  | moveRight => "MOVE_RIGHT"
  | increment => "INCREMENT"
  | decrement => "DECREMENT"
  | output => "OUTPUT"
  | input => "INPUT"
  | openLoop => "OPEN"
  | closeLoop => "CLOSE"

/-- The two ends of a loop are brackets. -/
def isBracket : Op → Bool
  | openLoop | closeLoop => true
  | _ => false

/-- The instruction denoted by a character. -/
def ofChar? : Char → Option Op
  | '<' => some moveLeft
  | '>' => some moveRight
  | '+' => some increment
  | '-' => some decrement
  | '.' => some output
  | ',' => some input
  | '[' => some openLoop
  | ']' => some closeLoop
  | _ => none

/-- The instruction denoted by a text: the text is exactly one symbol. -/
def ofText? (text : String) : Option Op :=
  match text.toList with
  | [c] => ofChar? c
  | _ => none

/-- The instruction with a given name. -/
def named? (text : String) : Option Op :=
  all.find? fun op => op.name == text

/-- A character denotes an instruction exactly when it is the symbol of that instruction. -/
theorem ofChar?_eq_some_iff {c : Char} {op : Op} : ofChar? c = some op ↔ op.symbol = c := by
  constructor
  · intro h
    unfold ofChar? at h
    split at h <;> simp_all [symbol] <;> subst h <;> rfl
  · rintro rfl
    cases op <;> rfl

@[simp] theorem ofChar?_symbol (op : Op) : ofChar? op.symbol = some op :=
  ofChar?_eq_some_iff.2 rfl

/-- A text denotes an instruction exactly when it is the symbol of that instruction. -/
theorem ofText?_eq_some_iff {text : String} {op : Op} :
    ofText? text = some op ↔ text = op.symbol.toString := by
  constructor
  · intro h
    unfold ofText? at h
    split at h
    · next c hc =>
      rw [ofChar?_eq_some_iff] at h
      rw [← String.toList_inj, hc, h]
      simp
    · exact absurd h (by simp)
  · rintro rfl
    simp [ofText?]

/-- Distinct instructions have distinct symbols. -/
theorem symbol_injective {a b : Op} (h : a.symbol = b.symbol) : a = b := by
  have h' : ofChar? a.symbol = ofChar? b.symbol := by rw [h]
  simpa using h'

end Op

end TapeLanguage
