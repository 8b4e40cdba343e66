import TapeLanguage.Diagnostic
import TapeLanguage.Program.Basic
import TapeLanguage.Source
import TapeLanguage.Text

/-!
# From tokens to a program

`decode` turns tokens into a program. A first pass (`Matching`) pairs the brackets with a stack of
open positions and gives every bracket its depth: the number of loops around its pair. It fails at a
loop end while no loop is open, and after the last token if loops are still open. Only then a second
pass (`create`) reads each token as an instruction; it fails at the first token that denotes none.

Sibling loops share a depth, so a partner is never found by depth but by the stack.

A `DecodeError` tells why tokens are no program, and `DecodeError.message` is the text shown to the
reader. For a loop end in a known source text it tells the line and column and shows the lines
around it (`DecodeError.context`).
-/

set_option autoImplicit false

namespace TapeLanguage

/-! ## Why a token sequence is no program -/

/-- A place in a known source text. -/
structure Site where
  /-- The line. -/
  line : Int
  /-- The column, if it is known. -/
  column : Option Int
  /-- The line with its two neighbours. -/
  excerpt : String
  deriving DecidableEq, Repr

namespace Site

/-- A place needs both a text and a line. -/
def find? (source : Option String) (line column : Option Int) : Except ExcerptError (Option Site) :=
  match source, line with
  | some text, some number =>
    match Excerpt.text (Text.lines text).toArray number column 1 with
    | .ok excerpt => .ok (some ⟨number, column, excerpt⟩)
    | .error e => .error e
  | _, _ => .ok none

/-- The place in words. -/
def inWords (s : Site) : String :=
  ", line " ++ toString s.line ++ ", column " ++ Instruction.optionalText s.column

end Site

/-- Why a token sequence is no program. -/
inductive DecodeError where
  /-- A loop end at a position where no loop is open. -/
  | unmatchedClose (position : Int) (site : Option Site)
  /-- Loops still open after the last token, whose position is the number of tokens. -/
  | unmatchedOpen (position : Int) (unclosed : List Int)
  /-- A token that is not one of the eight symbols. -/
  | notInstruction (text : String)
  /-- A loop end whose place cannot be shown. -/
  | undrawable (e : ExcerptError)
  deriving DecidableEq, Repr

namespace DecodeError

/-- The error of a loop end at a position where no loop is open. -/
def ofClose (position : Int) (source : Option String) (line column : Option Int) : DecodeError :=
  match Site.find? source line column with
  | .ok site => unmatchedClose position site
  | .error e => undrawable e

/-- The lines around the place of the error. -/
def context : DecodeError → String
  | unmatchedClose _ (some site) => site.excerpt
  | _ => ""

/-- The place of a loop end in words and the lines around it. -/
def siteText : Option Site → String
  | some site => site.inWords ++ "\n" ++ site.excerpt
  | none => ""

/-- The text shown to the reader. -/
def message : DecodeError → String
  | unmatchedClose position site =>
    Hint.append
      ("DecodeError: unmatched closing bracket at instruction " ++ toString position ++
        siteText site)
      (some .unmatchedClose)
  | unmatchedOpen position unclosed =>
    Hint.append
      ("DecodeError: unmatched opening bracket at end of input (instruction " ++
        toString position ++ "); unclosed at " ++ ", ".intercalate (unclosed.map toString))
      (some .unmatchedOpen)
  | notInstruction text => "Not an instruction character: " ++ Text.quoted text
  | undrawable e => e.message

end DecodeError

/-! ## Tokens -/

/-- A text that should denote an instruction, and its place if it is known. -/
structure Token where
  /-- The text. -/
  text : String
  /-- The line, if it is known. -/
  line : Option Int := none
  /-- The column, if it is known. -/
  column : Option Int := none
  deriving DecidableEq, Repr

namespace Token

/-- A token without a place. -/
def ofChar (c : Char) : Token :=
  ⟨c.toString, none, none⟩

/-- The characters of a text as tokens without a place. -/
def ofText (text : String) : List Token :=
  text.toList.map ofChar

/-- An instruction of a source text with its place. -/
def ofLexeme (l : Source.Lexeme) : Token :=
  ⟨l.op.symbol.toString, some l.line, some l.column⟩

end Token

namespace Program

/-! ## Matching brackets -/

/-- The tokens read, the positions of the loops that are open, outermost first, and the partners
found. -/
structure Matching where
  /-- The tokens with their depths; the depth of a token that is no bracket is zero. -/
  labelled : Array (Token × Nat) := #[]
  /-- The positions of the open loops, outermost first. -/
  openings : Array Nat := #[]
  /-- The partners of the brackets of the closed loops. -/
  jumps : Jumps := ∅

namespace Matching

/-- The position of the next token. -/
def position (m : Matching) : Nat :=
  m.labelled.size

/-- Begin a loop. -/
def enter (m : Matching) (t : Token) : Matching :=
  let position := m.position
  let depth := m.openings.size
  ⟨m.labelled.push (t, depth), m.openings.push position, m.jumps⟩

/-- End the loop that began at `start`. -/
def leave (m : Matching) (t : Token) (start : Nat) : Matching :=
  let position := m.position
  let depth := m.openings.size - 1
  ⟨m.labelled.push (t, depth), m.openings.pop,
    (m.jumps.insert start position).insert position start⟩

/-- Pass a token that is no bracket. -/
def pass (m : Matching) (t : Token) : Matching :=
  { m with labelled := m.labelled.push (t, 0) }

/-- Read one token. -/
def step (source : Option String) (m : Matching) (t : Token) : Except DecodeError Matching :=
  if t.text = "[" then .ok (m.enter t)
  else if t.text = "]" then
    match m.openings.back? with
    | some start => .ok (m.leave t start)
    | none => .error (.ofClose m.position source t.line t.column)
  else .ok (m.pass t)

/-- Read all tokens. -/
def steps (source : Option String) : Matching → List Token → Except DecodeError Matching
  | m, [] => .ok m
  | m, t :: rest =>
    match m.step source t with
    | .ok next => steps source next rest
    | .error e => .error e

end Matching

/-! ## Creating instructions -/

/-- Read tokens as instructions; the text of the first token that denotes none ends it. -/
def create (jumps : Jumps) :
    List (Token × Nat) → Array Instruction → Array Instruction × Option String
  | [], made => (made, none)
  | (t, depth) :: rest, made =>
    match Op.ofText? t.text with
    | some op =>
      let index : Int := made.size
      create jumps rest (made.push (Instruction.make op depth index jumps[index]? t.line t.column))
    | none => (made, some t.text)

/-! ## Decoding -/

/-- The result of decoding, with the instructions that were created on the way. -/
structure Decoding where
  /-- The instructions created, in order. -/
  created : Array Instruction
  /-- The program, or why there is none. -/
  outcome : Except DecodeError Program

/-- Create the instructions of tokens whose brackets have been paired. -/
def Matching.finish (m : Matching) : Decoding :=
  if m.openings.isEmpty then
    match create m.jumps m.labelled.toList #[] with
    | (made, none) => ⟨made, .ok ⟨made, m.jumps⟩⟩
    | (made, some text) => ⟨made, .error (.notInstruction text)⟩
  else ⟨#[], .error (.unmatchedOpen m.position (m.openings.toList.map Int.ofNat))⟩

/-- Decode tokens; a source text, if it is known, is shown around a bracket that has no partner. -/
def decode (tokens : List Token) (source : Option String := none) : Decoding :=
  match Matching.steps source {} tokens with
  | .ok m => m.finish
  | .error e => ⟨#[], .error e⟩

/-- Decode the instructions of a source text. -/
def parse (text : String) : Decoding :=
  decode ((Source.scan text).map Token.ofLexeme) (some text)

/-- A program that needs no decoding. -/
def Decoding.ofProgram (p : Program) : Decoding :=
  ⟨#[], .ok p⟩

end Program

end TapeLanguage
