import MiniC.Codegen.Scope
import MiniC.Program.Tree

/-!
# The code of an expression

`Expr.code` translates an expression directly, by recursion on the expression
and without any emission.  `Expr.size` is the number of emission nodes that
code generation makes for it on the way: one leaf for each expression in it.

An arena can hold trees that no program has, with more children than needed or
with several lists of arguments.  `Tree.expression?` is the expression that such
a tree stands for, where it is of an expression's kind and has the operands that
its code cannot do without.  For the tree of an expression it is the expression
itself (`expression?_toTree`).
-/

namespace MiniC

open Asm (Instruction Register)
open Ast (Tree)
open Codegen (binarySequence dropArguments listedCount unarySequence)

/-! ## Instructions -/

mutual

/-- The instructions that leave the value of an expression in `eax`, with names
looked up in a frame. -/
def Expr.code (frame : Frame) : Expr → List Instruction
  | .number _ value => [.mov Register.eax (.immediate value)]
  | .name _ name => [.mov Register.eax (frame.resolve name).operand]
  | .binary _ op left right =>
      left.code frame ++ [.push Register.eax] ++ right.code frame ++ [.pop .ebx] ++
        binarySequence op
  | .unary _ op operand => operand.code frame ++ unarySequence op
  | .assign _ _ target value =>
      value.code frame ++ [.mov (frame.resolve target).operand Register.eax]
  | .call _ callee none => [.call callee]
  | .call _ callee (some list) =>
      list.code frame ++ [.call callee] ++ dropArguments list.values.length

/-- The instructions that push the arguments in a list. -/
def ArgumentList.code (frame : Frame) : ArgumentList → List Instruction
  | ⟨_, values⟩ => argumentCode frame values

/-- The instructions that push arguments, from the last to the first. -/
def argumentCode (frame : Frame) : List Expr → List Instruction
  | [] => []
  | value :: values => argumentCode frame values ++ (value.code frame ++ [.push Register.eax])

end

@[simp] theorem argumentCode_append (frame : Frame) (front rest : List Expr) :
    argumentCode frame (front ++ rest) = argumentCode frame rest ++ argumentCode frame front := by
  induction front with
  | nil => simp [argumentCode]
  | cons value values ih => simp [argumentCode, ih]

/-! ## Emission nodes -/

mutual

/-- The number of expressions in an expression, itself included. -/
def Expr.size : Expr → Nat
  | .number _ _ | .name _ _ => 1
  | .binary _ _ left right => 1 + left.size + right.size
  | .unary _ _ operand => 1 + operand.size
  | .assign _ _ _ value => 1 + value.size
  | .call _ _ none => 1
  | .call _ _ (some list) => 1 + list.size

/-- The number of expressions in a list of arguments. -/
def ArgumentList.size : ArgumentList → Nat
  | ⟨_, values⟩ => argumentSize values

/-- The number of expressions in several arguments. -/
def argumentSize : List Expr → Nat
  | [] => 0
  | value :: values => argumentSize values + value.size

end

@[simp] theorem argumentSize_append (front rest : List Expr) :
    argumentSize (front ++ rest) = argumentSize rest + argumentSize front := by
  induction front with
  | nil => simp [argumentSize]
  | cons value values ih => simp [argumentSize, ih, Nat.add_assoc]

/-! ## Trees of expressions -/

/-- The name that the first of some trees is, with its location. -/
def firstName? : List Tree → Option (Location × String)
  | .node (.identifier name) location _ _ _ :: _ => some (location, name)
  | _ => none

mutual

/-- The expression that a tree stands for. -/
def Ast.Tree.expression? : Tree → Option Expr
  | .node kind location first second _ =>
      match kind with
      | .number value => some (.number location value)
      | .identifier name => some (.name location name)
      | .unary op => do return .unary location op (← firstExpression? first)
      | .binary op => do
          return .binary location op (← firstExpression? first) (← firstExpression? second)
      | .assignment => do
          let (targetLocation, target) ← firstName? first
          return .assign location targetLocation target (← firstExpression? second)
      | .call callee => do
          let values ← listedExpressions? first
          return .call location callee (first.head?.map fun list => ⟨list.location, values⟩)
      | _ => none

/-- The expression that the first of some trees stands for. -/
def firstExpression? : List Tree → Option Expr
  | [] => none
  | tree :: _ => tree.expression?

/-- The expressions in lists of arguments. -/
def listedExpressions? : List Tree → Option (List Expr)
  | [] => some []
  | .node _ _ values _ _ :: lists => do
      return (← expressions? values) ++ (← listedExpressions? lists)

/-- The expressions that trees stand for. -/
def expressions? : List Tree → Option (List Expr)
  | [] => some []
  | tree :: trees => do return (← tree.expression?) :: (← expressions? trees)

end

section Kinds

variable (location : Location) (first second third : List Tree)

theorem expression?_number (value : Int32) :
    (Ast.Tree.node (.number value) location first second third).expression? =
      some (.number location value) := rfl

theorem expression?_identifier (name : String) :
    (Ast.Tree.node (.identifier name) location first second third).expression? =
      some (.name location name) := rfl

theorem expression?_unary (op : UnaryOp) :
    (Ast.Tree.node (.unary op) location first second third).expression? =
      (firstExpression? first).bind fun operand => some (.unary location op operand) := rfl

theorem expression?_binary (op : BinaryOp) :
    (Ast.Tree.node (.binary op) location first second third).expression? =
      (firstExpression? first).bind fun left =>
        (firstExpression? second).bind fun right => some (.binary location op left right) := rfl

theorem expression?_assignment :
    (Ast.Tree.node .assignment location first second third).expression? =
      (firstName? first).bind fun (targetLocation, target) =>
        (firstExpression? second).bind fun value =>
          some (.assign location targetLocation target value) := rfl

theorem expression?_call (callee : String) :
    (Ast.Tree.node (.call callee) location first second third).expression? =
      (listedExpressions? first).bind fun values =>
        some (.call location callee (first.head?.map fun list => ⟨list.location, values⟩)) := rfl

end Kinds

mutual

theorem expression?_toTree : (expr : Expr) → expr.toTree.expression? = some expr
  | .number _ _ | .name _ _ => rfl
  | .binary _ _ left right => by
      simp [Expr.toTree, expression?_binary, firstExpression?, expression?_toTree left,
        expression?_toTree right]
  | .unary _ _ operand => by
      simp [Expr.toTree, expression?_unary, firstExpression?, expression?_toTree operand]
  | .assign _ _ _ value => by
      simp [Expr.toTree, Tree.leaf, expression?_assignment, firstExpression?, firstName?,
        expression?_toTree value]
  | .call _ _ none => rfl
  | .call _ _ (some ⟨location, values⟩) => by
      simp [Expr.toTree, ArgumentList.toTree, expression?_call, listedExpressions?, Tree.location,
        expressions?_expressionTrees values]

theorem expressions?_expressionTrees :
    (values : List Expr) → expressions? (expressionTrees values) = some values
  | [] => rfl
  | value :: values => by
      simp [expressionTrees, expressions?, expression?_toTree value,
        expressions?_expressionTrees values]

end

theorem length_of_expressions? : {trees : List Tree} → {values : List Expr} →
    expressions? trees = some values → trees.length = values.length
  | [], values, h => by
      cases h
      rfl
  | tree :: trees, values, h => by
      simp only [expressions?, Option.pure_def, Option.bind_eq_bind, Option.bind_eq_some_iff,
        Option.some.injEq] at h
      obtain ⟨value, -, rest, hrest, rfl⟩ := h
      rw [List.length_cons, List.length_cons, length_of_expressions? hrest]

/-- The lists of arguments hold as many trees as there are arguments. -/
theorem listedCount_of_listedExpressions? : {lists : List Tree} → {values : List Expr} →
    listedExpressions? lists = some values → listedCount lists = values.length
  | [], values, h => by
      cases h
      rfl
  | .node _ _ trees _ _ :: lists, values, h => by
      simp only [listedExpressions?, Option.pure_def, Option.bind_eq_bind,
        Option.bind_eq_some_iff, Option.some.injEq] at h
      obtain ⟨front, hfront, rest, hrest, rfl⟩ := h
      show trees.length + listedCount lists = _
      rw [length_of_expressions? hfront, listedCount_of_listedExpressions? hrest,
        List.length_append]

end MiniC
