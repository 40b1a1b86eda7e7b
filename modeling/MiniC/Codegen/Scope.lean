import MiniC.Ast.Arena
import MiniC.Emission.Layout

/-!
# What code generation goes by

The surroundings of a node that its code depends on, the reasons for which there
is no code for a node, and the instructions of the operators.
-/

namespace MiniC.Codegen

open Ast (Kind Tree)
open Asm (Condition Instruction Register)

/-- The surroundings of a node. -/
structure Scope where
  /-- The emission node under which new ones are created. -/
  parent : Emission.Id
  /-- The function around the node, in whose frame names are looked up. -/
  function : Option Emission.Id
  /-- The label at the end of the innermost loop around the node. -/
  loopEnd : Option String

namespace Scope

/-- The surroundings of the root. -/
def file : Scope := ⟨Emission.fileId, none, none⟩

/-- The same surroundings, with new nodes under another one. -/
def under (scope : Scope) (parent : Emission.Id) : Scope := { scope with parent }

end Scope

/-- Why there is no code for a node. -/
inductive Obstacle where
  | notCompileUnit (found : Kind)
  /-- What belongs into a function stands outside of one. -/
  | outsideFunction (what : String)
  | outsideLoop
  /-- A node lacks a child. -/
  | missing (tag part : String)
  | notIdentifier (found : Kind)
  | unnamedDeclaration
  | notConstant
  | notConstantKind (found : Kind)

/-- The wording of an obstacle. -/
def Obstacle.message : Obstacle → String
  | notCompileUnit found => "expected a compile unit at the root, found " ++ found.text
  | outsideFunction what => what ++ " outside of a function"
  | outsideLoop => "break outside of a loop"
  | missing tag part => tag ++ " without " ++ part
  | notIdentifier found => "expected an identifier, found " ++ found.text
  | unnamedDeclaration => "declaration without a name"
  | notConstant => "global initializer must be a constant"
  | notConstantKind found => "global initializer must be a constant, found " ++ found.text

/-- An obstacle at a place, as an error of the compiler. -/
def Obstacle.at (location : Location) (obstacle : Obstacle) : Error :=
  .codegen location obstacle.message

/-! ## Parts of nodes -/

/-- The name that a tree is. -/
def identifierName (tree : Tree) : Except Error String :=
  match tree.kind with
  | .identifier name => .ok name
  | found => .error ((Obstacle.notIdentifier found).at tree.location)

/-- The parts of a declaration at a place that are no types: the name that the
first of them is, and the others. -/
def declaredName (location : Location) (parts : List Tree) : Except Error (String × List Tree) :=
  match parts.filter (!·.kind.isType) with
  | [] => .error (Obstacle.unnamedDeclaration.at location)
  | name :: others => do return (← identifierName name, others)

/-- The value of the initializer of a global variable: a number, or one with a
sign before it. -/
def constantValue (tree : Tree) : Except Error Int32 :=
  match tree.kind with
  | .number value => .ok value
  | .unary .minus =>
      match tree.first.head?.map Tree.kind with
      | some (.number value) => .ok (-value)
      | _ => .error (Obstacle.notConstant.at tree.location)
  | .unary .plus =>
      match tree.first.head?.map Tree.kind with
      | some (.number value) => .ok value
      | _ => .error (Obstacle.notConstant.at tree.location)
  | found => .error ((Obstacle.notConstantKind found).at tree.location)

/-- The function around a node at a place, where `what` cannot do without. -/
def requireFunction (scope : Scope) (location : Location) (what : String) :
    Except Error Emission.Id :=
  match scope.function with
  | some function => .ok function
  | none => .error ((Obstacle.outsideFunction what).at location)

/-- Where the value of a name is kept. -/
def resolve (scope : Scope) (name : String) (emission : Emission) : Except Error Place :=
  match scope.function with
  | some function => do return (← emission.frame function).resolve name
  | none => .ok (.global name)

/-! ## Operators -/

/-- Moves the right operand to `ecx` and the left one to `eax`. -/
def exchange : List Instruction := [.mov Register.ecx Register.eax, .mov Register.eax Register.ebx]

/-- Leaves in `eax` whether the left operand compares so to the right one. -/
def compare (condition : Condition) : List Instruction :=
  [.cmp Register.ebx Register.eax, .set condition .al, .movzx .eax .al]

/-- Combines the left operand in `ebx` with the right one in `eax`. -/
def binarySequence : BinaryOp → List Instruction
  | .add => [.add .eax Register.ebx]
  | .sub => exchange ++ [.sub .eax Register.ecx]
  | .mul => exchange ++ [.imul .eax .ecx]
  | .div => exchange ++ [.cdq, .idiv .ecx]
  | .less => compare .l
  | .lessEqual => compare .le
  | .greater => compare .g
  | .greaterEqual => compare .ge
  | .equal => compare .e
  | .notEqual => compare .ne
  | .logicalAnd => [.and .eax .ebx]
  | .logicalOr => [.or .eax .ebx]

/-- Applies an operator to the operand in `eax`. -/
def unarySequence : UnaryOp → List Instruction
  | .plus => []
  | .minus => [.neg .eax]
  | .logicalNot => [.not .eax]

/-- The number of parameters or arguments in lists of them. -/
def listedCount : List Tree → Nat
  | [] => 0
  | list :: lists => list.first.length + listedCount lists

/-- Takes so many words of arguments off the stack. -/
def dropArguments : Nat → List Instruction
  | 0 => []
  | count => [.add .esp (.immediate (Int32.ofNat count * slotSize))]

end MiniC.Codegen
