import TapeLang.Program

/-!
# The text of a program

A program is written `[t, t, ...]`, one item per element. A loop is written as its body with the word
`Loop` in front. Unused values do not show.
-/

namespace TapeLang

/-- The text of an operation, which names its kind. -/
def CellOp.text : CellOp → String
  | .add v => "ChangeValue(" ++ toString v.toInt ++ ")"
  | .set v => "SetValue(" ++ toString v.toInt ++ ")"
  | .print _ => "Print"
  | .read _ => "Read"
  | op@(.unknown _ _) => "MemoryOp(" ++ toString op.kind.toNat ++ ")"

/-- The shape of an element of a program. -/
inductive Shape where
  | move
  | cell
  | loop
  deriving DecidableEq, Repr

namespace Shape

def ofCode? : UInt8 → Option Shape
  | 0 => some move
  | 1 => some cell
  | 2 => some loop
  | _ => none

def text : Shape → String
  | move => "ChangeAddr"
  | cell => "Offset"
  | loop => "Loop"

/-- The text of a shape given by number, empty for the numbers that stand for none. -/
def textOfCode (n : UInt8) : String :=
  match ofCode? n with
  | some s => s.text
  | none => ""

end Shape

def Token.shape : Token → Shape
  | .move _ => .move
  | .cell _ _ => .cell
  | .loop _ => .loop

namespace Program

/-- Items between brackets, with a comma and a space after all but the last. -/
def bracketed (items : List String) : String :=
  "[" ++ ", ".intercalate items ++ "]"

/-- The texts of the elements at the outermost level. -/
def items : Program → List String
  | done => []
  | move d p => ("ChangeAddr(" ++ toString d.toInt ++ ")") :: p.items
  | cell a op p => ("Offset(" ++ toString a.toInt ++ ", " ++ op.text ++ ")") :: p.items
  | loop b p => ("Loop" ++ bracketed b.items) :: p.items

def text (p : Program) : String :=
  bracketed p.items

end Program

end TapeLang
