/-!
# Operators

The operators of the language, their spelling, and their reading.  Reading
undoes spelling, and a text that spells no operator is refused.
-/

namespace MiniC

/-- Operators between two operands. -/
inductive BinaryOp where
  | add | sub | mul | div
  | less | lessEqual | greater | greaterEqual | equal | notEqual
  | logicalAnd | logicalOr
deriving DecidableEq, Repr

namespace BinaryOp

/-- Every operator, in the order of declaration. -/
def all : List BinaryOp :=
  [add, sub, mul, div, less, lessEqual, greater, greaterEqual, equal, notEqual, logicalAnd,
    logicalOr]

/-- The spelling of an operator in a program. -/
def text : BinaryOp → String
  | add => "+"
  | sub => "-"
  | mul => "*"
  | div => "/"
  | less => "<"
  | lessEqual => "<="
  | greater => ">"
  | greaterEqual => ">="
  | equal => "=="
  | notEqual => "!="
  | logicalAnd => "&&"
  | logicalOr => "||"

/-- The operator that a text spells. -/
def ofText? (text : String) : Option BinaryOp := all.find? (·.text == text)

/-- Whether the operands may be exchanged without changing the result. -/
def isCommutative : BinaryOp → Bool
  | add | mul | equal | notEqual | logicalAnd | logicalOr => true
  | _ => false

/-- Whether the result is a truth value of a comparison. -/
def isComparison : BinaryOp → Bool
  | less | lessEqual | greater | greaterEqual | equal | notEqual => true
  | _ => false

@[simp] theorem ofText?_text (op : BinaryOp) : ofText? op.text = some op := by
  cases op <;> decide

end BinaryOp

/-- Operators on one operand. -/
inductive UnaryOp where
  | plus | minus | logicalNot
deriving DecidableEq, Repr

namespace UnaryOp

/-- Every operator, in the order of declaration. -/
def all : List UnaryOp := [plus, minus, logicalNot]

/-- The spelling of an operator in a program. -/
def text : UnaryOp → String
  | plus => "+"
  | minus => "-"
  | logicalNot => "!"

/-- The operator that a text spells. -/
def ofText? (text : String) : Option UnaryOp := all.find? (·.text == text)

@[simp] theorem ofText?_text (op : UnaryOp) : ofText? op.text = some op := by
  cases op <;> decide

end UnaryOp

end MiniC
