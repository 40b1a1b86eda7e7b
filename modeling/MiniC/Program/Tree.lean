import MiniC.Ast.Tree
import MiniC.Program.Basic

/-!
# Programs as syntax trees

Each construct of a program is one node of its syntax tree, with its parts in
the slots of its kind.  A statement that is an expression is the tree of the
expression itself.
-/

namespace MiniC

open Ast (Tree)

mutual

/-- The syntax tree of an expression. -/
def Expr.toTree : Expr → Tree
  | .number location value => .leaf (.number value) location
  | .name location name => .leaf (.identifier name) location
  | .binary location op left right =>
      .node (.binary op) location [left.toTree] [right.toTree] []
  | .unary location op operand => .node (.unary op) location [operand.toTree] [] []
  | .assign location targetLocation target value =>
      .node .assignment location [.leaf (.identifier target) targetLocation] [value.toTree] []
  | .call location callee none => .leaf (.call callee) location
  | .call location callee (some list) => .node (.call callee) location [list.toTree] [] []

/-- The syntax tree of a list of arguments. -/
def ArgumentList.toTree : ArgumentList → Tree
  | ⟨location, values⟩ => .node .argumentList location (expressionTrees values) [] []

/-- The syntax trees of expressions. -/
def expressionTrees : List Expr → List Tree
  | [] => []
  | value :: values => value.toTree :: expressionTrees values

end

/-- The syntax tree of a parameter. -/
def Parameter.toTree (parameter : Parameter) : Tree :=
  .leaf (.parameter parameter.name parameter.typeName) parameter.location

/-- The syntax tree of a list of parameters. -/
def ParameterList.toTree (list : ParameterList) : Tree :=
  .node .parameterList list.location (list.parameters.map Parameter.toTree) [] []

/-- The type, the name and the initial value of a declared variable. -/
def Declaration.parts (declaration : Declaration) : List Tree :=
  [.leaf (.typeSpecifier declaration.typeName) declaration.typeLocation,
      .leaf (.identifier declaration.name) declaration.nameLocation] ++
    (declaration.initializer.map Expr.toTree).toList

/-- The syntax tree of a declaration, which is of the kind of its place: in a
function or at the top of a file. -/
def Declaration.toTree (kind : Ast.Kind) (declaration : Declaration) : Tree :=
  .node kind declaration.location declaration.parts [] []

mutual

/-- The syntax tree of a statement. -/
def Stmt.toTree : Stmt → Tree
  | .expression value => value.toTree
  | .declaration declared => declared.toTree .localDeclaration
  | .block block => block.toTree
  | .ifElse location condition thenBlock none =>
      .node .ifStatement location [condition.toTree] [thenBlock.toTree] []
  | .ifElse location condition thenBlock (some elseBlock) =>
      .node .ifStatement location [condition.toTree] [thenBlock.toTree] [elseBlock.toTree]
  | .whileLoop location condition body =>
      .node .whileStatement location [condition.toTree] [body.toTree] []
  | .returnValue location value =>
      .node .returnStatement location (value.map Expr.toTree).toList [] []
  | .breakLoop location => .leaf .breakStatement location

/-- The syntax tree of a block. -/
def Block.toTree : Block → Tree
  | ⟨location, statements⟩ => .node .block location (statementTrees statements) [] []

/-- The syntax trees of statements. -/
def statementTrees : List Stmt → List Tree
  | [] => []
  | statement :: statements => statement.toTree :: statementTrees statements

end

/-- The syntax tree of the definition of a function. -/
def FunctionDefinition.toTree (definition : FunctionDefinition) : Tree :=
  .node (.functionDefinition definition.name definition.returnType) definition.location
    (definition.parameters.map ParameterList.toTree).toList [definition.body.toTree]
    [.leaf (.typeSpecifier definition.returnType) definition.returnTypeLocation]

/-- The syntax tree of the declaration of a function. -/
def FunctionDeclaration.toTree (declaration : FunctionDeclaration) : Tree :=
  .node (.functionDeclaration declaration.name declaration.returnType) declaration.location
    (declaration.parameters.map ParameterList.toTree).toList [] []

/-- The syntax tree of what stands at the top of a file. -/
def Item.toTree : Item → Tree
  | .function definition => definition.toTree
  | .external declared => declared.toTree
  | .global declared => declared.toTree .globalDeclaration

/-- The syntax tree of a file. -/
def CompileUnit.toTree (unit : CompileUnit) : Tree :=
  .node .compileUnit unit.location (unit.items.map Item.toTree) [] []

end MiniC
