import Std.Data.TreeMap
import TapeLanguage.Op
import TapeLanguage.Text

/-!
# Programs

An `Instruction` is an `Op` together with its index in the program, the nesting depth and the
partner of a bracket, and the place it came from. `Instruction.listing` is the line that shows it.

A `Program` is a sequence of instructions and a table that leads from the index of a bracket to the
index of its partner. A position counts from the front, or, if it is negative, from the end
(`get?`). Two programs are the same when their instructions are; the table does not count.
-/

set_option autoImplicit false

namespace TapeLanguage

/-! ## Instructions -/

/-- An instruction of a program. -/
structure Instruction where
  /-- What to do. -/
  op : Op
  /-- The position in the program. -/
  index : Int
  /-- The number of loops around a bracket pair; zero for other instructions. -/
  depth : Int := 0
  /-- The index of the matching bracket. -/
  partner : Option Int := none
  /-- The source line, if it is known. -/
  line : Option Int := none
  /-- The source column, if it is known. -/
  column : Option Int := none
  deriving DecidableEq, Repr

namespace Instruction

/-- A number, or the word for a missing one. -/
def optionalText : Option Int → String
  | some n => toString n
  | none => "None"

/-- The depth and the partner of a bracket, as a listing shows them. -/
def bracketText (i : Instruction) : String :=
  if i.op.isBracket then
    "(loop=" ++ toString i.depth ++ ", partner=" ++ optionalText i.partner ++ ")"
  else ""

/-- The line that shows an instruction: the index in five columns, the symbol and the name. -/
def listing (i : Instruction) : String :=
  Text.alignedRight 5 (toString i.index) ++ "  " ++ i.op.symbol.toString ++ "  " ++ i.op.name ++
    i.bracketText

/-- The depth is kept for brackets only. -/
def make (op : Op) (depth index : Int) (partner line column : Option Int) : Instruction :=
  ⟨op, index, if op.isBracket then depth else 0, partner, line, column⟩

end Instruction

/-! ## Programs -/

/-- From the index of a bracket to the index of its partner. -/
abbrev Jumps := Std.TreeMap Int Int

/-- A sequence of instructions with its jump table. -/
structure Program where
  /-- The instructions in order. -/
  instructions : Array Instruction := #[]
  /-- The partners of the brackets. -/
  jumps : Jumps := ∅

namespace Program

/-- The number of instructions. -/
def size (p : Program) : Nat :=
  p.instructions.size

/-- The instruction at a position, a negative one counting from the end. -/
def get? (p : Program) (position : Int) : Option Instruction :=
  if 0 ≤ position then p.instructions[position.toNat]?
  else if 0 ≤ position + p.size then p.instructions[(position + p.size).toNat]?
  else none

/-- The symbols of the instructions, without comments. -/
def source (p : Program) : String :=
  String.ofList (p.instructions.toList.map fun i => i.op.symbol)

/-- One line for each instruction. -/
def listing (p : Program) : String :=
  Text.joined (p.instructions.toList.map Instruction.listing)

/-- The entries of the jump table in ascending order of the index. -/
def jumpList (p : Program) : List (Int × Int) :=
  p.jumps.toList

/-- The comparison of the instructions at each position that both programs have. -/
def agreements (p q : Program) : List Bool :=
  List.zipWith (fun a b => decide (a = b)) p.instructions.toList q.instructions.toList

/-- Equality of programs: equal instructions at equal positions. -/
def same (p q : Program) : Bool :=
  decide (p.instructions = q.instructions)

end Program

end TapeLanguage
