import MiniC.Program.Basic
import MiniC.Proofs.Meaning.World

/-!
# The value of an expression

Expressions compute with 32-bit integers with sign that wrap around.  A division
rounds towards zero; by zero, and of the least integer by minus one, it has no
result, and neither has an expression in which that happens.  Truth values are 0
and 1, but `&&`, `||` and `!` work on all the bits.

Names are looked up in a frame.  The left operand comes before the right one and
the last argument first.
-/

namespace MiniC

/-- A truth value as an integer. -/
def truthValue (holds : Bool) : Int32 := if holds then 1 else 0

/-- The value of an operator between two operands, if there is one. -/
def BinaryOp.value? (op : BinaryOp) (left right : Int32) : Option Int32 :=
  match op with
  | .add => some (left + right)
  | .sub => some (left - right)
  | .mul => some (left * right)
  | .div =>
      if right = 0 ∨ (left = Int32.minValue ∧ right = -1) then none else some (left / right)
  | .less => some (truthValue (left < right))
  | .lessEqual => some (truthValue (left ≤ right))
  | .greater => some (truthValue (right < left))
  | .greaterEqual => some (truthValue (right ≤ left))
  | .equal => some (truthValue (left = right))
  | .notEqual => some (truthValue (left ≠ right))
  | .logicalAnd => some (left &&& right)
  | .logicalOr => some (left ||| right)

/-- The value of an operator on one operand. -/
def UnaryOp.value (op : UnaryOp) (operand : Int32) : Int32 :=
  match op with
  | .plus => operand
  | .minus => -operand
  | .logicalNot => ~~~operand

section Evaluate

variable (oracle : Oracle) (frame : Frame)

mutual

/-- The value of an expression and the world after it, `none` if a division in it
has no result. -/
def Expr.evaluate : Expr → World → Option (Int32 × World)
  | .number _ value, world => some (value, world)
  | .name _ name, world => some (world.values (frame.resolve name), world)
  | .binary _ op left right, world => do
      let (leftValue, world) ← left.evaluate world
      let (rightValue, world) ← right.evaluate world
      return (← op.value? leftValue rightValue, world)
  | .unary _ op operand, world => do
      let (value, world) ← operand.evaluate world
      return (op.value value, world)
  | .assign _ _ target value, world => do
      let (value, world) ← value.evaluate world
      return (value, world.set (frame.resolve target) value)
  | .call _ callee none, world =>
      some (world.result oracle ⟨callee, []⟩, world.after oracle ⟨callee, []⟩)
  | .call _ callee (some list), world => do
      let (values, world) ← list.evaluate world
      return (world.result oracle ⟨callee, values⟩, world.after oracle ⟨callee, values⟩)

/-- The values of the arguments in a list. -/
def ArgumentList.evaluate : ArgumentList → World → Option (List Int32 × World)
  | ⟨_, values⟩, world => evaluateArguments values world

/-- The values of arguments, computed from the last to the first. -/
def evaluateArguments : List Expr → World → Option (List Int32 × World)
  | [], world => some ([], world)
  | argument :: arguments, world => do
      let (values, world) ← evaluateArguments arguments world
      let (value, world) ← argument.evaluate world
      return (value :: values, world)

end

end Evaluate

/-! ## What an expression mentions -/

mutual

/-- The names of variables that an expression reads or writes. -/
def Expr.names : Expr → List String
  | .number _ _ => []
  | .name _ name => [name]
  | .binary _ _ left right => left.names ++ right.names
  | .unary _ _ operand => operand.names
  | .assign _ _ target value => target :: value.names
  | .call _ _ none => []
  | .call _ _ (some list) => list.names

/-- The names that a list of arguments mentions. -/
def ArgumentList.names : ArgumentList → List String
  | ⟨_, values⟩ => argumentNames values

/-- The names that arguments mention. -/
def argumentNames : List Expr → List String
  | [] => []
  | argument :: arguments => argument.names ++ argumentNames arguments

end

mutual

/-- The calls in an expression: the names of the functions, each with the number
of arguments. -/
def Expr.calls : Expr → List (String × Nat)
  | .number _ _ | .name _ _ => []
  | .binary _ _ left right => left.calls ++ right.calls
  | .unary _ _ operand => operand.calls
  | .assign _ _ _ value => value.calls
  | .call _ callee none => [(callee, 0)]
  | .call _ callee (some list) => (callee, list.values.length) :: list.calls

/-- The calls in a list of arguments. -/
def ArgumentList.calls : ArgumentList → List (String × Nat)
  | ⟨_, values⟩ => argumentCalls values

/-- The calls in arguments. -/
def argumentCalls : List Expr → List (String × Nat)
  | [] => []
  | argument :: arguments => argument.calls ++ argumentCalls arguments

end

end MiniC
