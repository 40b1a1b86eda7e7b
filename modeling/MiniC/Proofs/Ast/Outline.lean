import MiniC.Proofs.Translation.Outline

/-!
# Outlines of syntax trees

The outline of a syntax tree is what is left of it without the places of its nodes and
the names of types.  Functions whose trees have one outline have one outline themselves
(`FunctionDefinition.outline_of_toTree`), since a program can be read off its tree.
-/

namespace MiniC

namespace Ast

/-- A kind without the names of types. -/
def Kind.outline : Kind → Kind
  | functionDefinition name _ => functionDefinition name ""
  | functionDeclaration name _ => functionDeclaration name ""
  | typeSpecifier _ => typeSpecifier ""
  | parameter name _ => parameter name ""
  | kind => kind

mutual

/-- A tree without places and names of types. -/
def Tree.outline : Tree → Tree
  | .node kind _ first second third =>
      .node kind.outline .unknown (outlineTrees first) (outlineTrees second) (outlineTrees third)

/-- Trees without places and names of types. -/
def outlineTrees : List Tree → List Tree
  | [] => []
  | tree :: trees => tree.outline :: outlineTrees trees

end

theorem outlineTrees_eq (trees : List Tree) : outlineTrees trees = trees.map Tree.outline := by
  induction trees with
  | nil => rfl
  | cons tree trees ih => rw [outlineTrees, ih, List.map_cons]

end Ast

open Ast (Tree outlineTrees outlineTrees_eq)

/-! ## The tree of an outline -/

mutual

theorem Expr.toTree_outline : (expr : Expr) → expr.outline.toTree = expr.toTree.outline
  | .number _ _ | .name _ _ => rfl
  | .binary _ _ left right => by
      simp only [Expr.outline, Expr.toTree, Tree.outline, outlineTrees, left.toTree_outline,
        right.toTree_outline]
      rfl
  | .unary _ _ operand => by
      simp only [Expr.outline, Expr.toTree, Tree.outline, outlineTrees, operand.toTree_outline]
      rfl
  | .assign _ _ _ value => by
      simp only [Expr.outline, Expr.toTree, Tree.outline, outlineTrees, value.toTree_outline]
      rfl
  | .call _ _ none => rfl
  | .call _ _ (some ⟨_, values⟩) => by
      simp only [Expr.outline, Expr.toTree, ArgumentList.outline, ArgumentList.toTree,
        Tree.outline, outlineTrees, expressionTrees_outline values]
      rfl

theorem expressionTrees_outline :
    (values : List Expr) → expressionTrees (outlineValues values) =
      outlineTrees (expressionTrees values)
  | [] => rfl
  | value :: values => by
      rw [outlineValues, expressionTrees, expressionTrees, outlineTrees, value.toTree_outline,
        expressionTrees_outline values]

end

theorem optionalTree_outline (value : Option Expr) :
    ((value.map Expr.outline).map Expr.toTree).toList =
      outlineTrees (value.map Expr.toTree).toList := by
  cases value with
  | none => rfl
  | some value =>
      simp only [Option.map_some, Option.toList_some, outlineTrees, value.toTree_outline]

theorem Declaration.toTree_outline {kind : Ast.Kind} (hkind : kind.outline = kind)
    (declared : Declaration) :
    declared.outline.toTree kind = (declared.toTree kind).outline := by
  rw [toTree, toTree, parts, parts, Tree.outline, hkind, outlineTrees_eq, List.map_append,
    ← outlineTrees_eq (Option.toList _), ← optionalTree_outline]
  rfl

mutual

theorem Stmt.toTree_outline : (statement : Stmt) →
    statement.outline.toTree = statement.toTree.outline
  | .expression value => value.toTree_outline
  | .declaration declared => declared.toTree_outline rfl
  | .block block => block.toTree_outline
  | .ifElse _ condition thenBlock none => by
      simp only [Stmt.outline, Stmt.toTree, Tree.outline, outlineTrees, condition.toTree_outline,
        thenBlock.toTree_outline]
      rfl
  | .ifElse _ condition thenBlock (some elseBlock) => by
      simp only [Stmt.outline, Stmt.toTree, Tree.outline, outlineTrees, condition.toTree_outline,
        thenBlock.toTree_outline, elseBlock.toTree_outline]
      rfl
  | .whileLoop _ condition body => by
      simp only [Stmt.outline, Stmt.toTree, Tree.outline, outlineTrees, condition.toTree_outline,
        body.toTree_outline]
      rfl
  | .returnValue _ value => by
      simp only [Stmt.outline, Stmt.toTree, Tree.outline, optionalTree_outline]
      rfl
  | .breakLoop _ => rfl

theorem Block.toTree_outline : (block : Block) → block.outline.toTree = block.toTree.outline
  | ⟨_, statements⟩ => by
      simp only [Block.outline, Block.toTree, Tree.outline, statementTrees_outline statements]
      rfl

theorem statementTrees_outline :
    (statements : List Stmt) → statementTrees (outlineStatements statements) =
      outlineTrees (statementTrees statements)
  | [] => rfl
  | statement :: statements => by
      rw [outlineStatements, statementTrees, statementTrees, outlineTrees,
        statement.toTree_outline, statementTrees_outline statements]

end

theorem ParameterList.toTree_outline (list : ParameterList) :
    list.outline.toTree = list.toTree.outline := by
  rw [toTree, toTree, Tree.outline, outlineTrees_eq, List.map_map]
  show Ast.Tree.node _ _ ((list.parameters.map Parameter.outline).map Parameter.toTree) [] [] = _
  rw [List.map_map]
  rfl

theorem FunctionDefinition.toTree_outline (definition : FunctionDefinition) :
    definition.outline.toTree = definition.toTree.outline := by
  have hparameters : ((definition.parameters.map ParameterList.outline).map
        ParameterList.toTree).toList =
      outlineTrees (definition.parameters.map ParameterList.toTree).toList := by
    cases definition.parameters with
    | none => rfl
    | some list =>
        simp only [Option.map_some, Option.toList_some, outlineTrees, list.toTree_outline]
  simp only [toTree, Tree.outline, outlineTrees, ← hparameters,
    ← definition.body.toTree_outline]
  rfl

/-! ## Programs of trees -/

/-- The variable that trees declare: its type, its name and its initial value. -/
def declaration? (location : Location) : List Tree → Option Declaration
  | .node (.typeSpecifier typeName) typeLocation _ _ _ ::
      .node (.identifier name) nameLocation _ _ _ :: value => do
        let initializer ← value.head?.mapM Tree.expression?
        return { location, typeLocation, typeName, nameLocation, name, initializer }
  | _ => none

mutual

/-- The statement that a tree stands for. -/
def Ast.Tree.statement? : Tree → Option Stmt
  | .node kind location first second third =>
      match kind with
      | .localDeclaration => (declaration? location first).map .declaration
      | .block => do return .block ⟨location, ← statements? first⟩
      | .ifStatement => do
          let condition ← firstExpression? first
          match ← blocks? second, ← blocks? third with
          | [thenBlock], others => return .ifElse location condition thenBlock others.head?
          | _, _ => none
      | .whileStatement => do
          let condition ← firstExpression? first
          match ← statements? second with
          | [body] => return .whileLoop location condition body
          | _ => none
      | .returnStatement => do
          return .returnValue location (← first.head?.mapM Tree.expression?)
      | .breakStatement => some (.breakLoop location)
      | kind => (Tree.expression? (.node kind location first second third)).map .expression

/-- The block that a tree stands for. -/
def Ast.Tree.block? : Tree → Option Block
  | .node .block location statements _ _ => do return ⟨location, ← statements? statements⟩
  | _ => none

/-- The blocks that trees stand for. -/
def blocks? : List Tree → Option (List Block)
  | [] => some []
  | tree :: trees => do return (← tree.block?) :: (← blocks? trees)

/-- The statements that trees stand for. -/
def statements? : List Tree → Option (List Stmt)
  | [] => some []
  | tree :: trees => do return (← tree.statement?) :: (← statements? trees)

end

theorem optional_expression?_toTree (value : Option Expr) :
    (value.map Expr.toTree).toList.head?.mapM Tree.expression? = some value := by
  cases value with
  | none => rfl
  | some value => simp [expression?_toTree]

theorem declaration?_parts (declared : Declaration) :
    declaration? declared.location declared.parts = some declared := by
  rw [Declaration.parts, Tree.leaf, Tree.leaf, List.cons_append, List.cons_append,
    List.nil_append, declaration?, optional_expression?_toTree]
  rfl

theorem Expr.statement?_toTree (value : Expr) :
    value.toTree.statement? = some (.expression value) := by
  have hkind : value.toTree.statement? = value.toTree.expression?.map .expression := by
    cases value with
    | call location callee list => cases list <;> rfl
    | _ => rfl
  rw [hkind, expression?_toTree, Option.map_some]

mutual

/-- A statement is read off its tree. -/
theorem Stmt.statement?_toTree : (statement : Stmt) → statement.toTree.statement? = some statement
  | .expression value => value.statement?_toTree
  | .declaration declared => by
      rw [Stmt.toTree, Declaration.toTree, Tree.statement?]
      simp only [declaration?_parts, Option.map_some]
  | .block ⟨location, statements⟩ => by
      rw [Stmt.toTree, Block.toTree, Tree.statement?]
      simp [statements?_toTree statements]
  | .ifElse _ condition thenBlock none => by
      rw [Stmt.toTree, Tree.statement?]
      simp [firstExpression?, blocks?, expression?_toTree, thenBlock.block?_toTree]
  | .ifElse _ condition thenBlock (some elseBlock) => by
      rw [Stmt.toTree, Tree.statement?]
      simp [firstExpression?, blocks?, expression?_toTree, thenBlock.block?_toTree,
        elseBlock.block?_toTree]
  | .whileLoop _ condition body => by
      rw [Stmt.toTree, Tree.statement?]
      simp [firstExpression?, statements?, expression?_toTree, body.statement?_toTree]
  | .returnValue _ value => by
      rw [Stmt.toTree, Tree.statement?]
      simp only [optional_expression?_toTree]
      rfl
  | .breakLoop _ => rfl

theorem Block.block?_toTree : (block : Block) → block.toTree.block? = some block
  | ⟨location, statements⟩ => by
      rw [Block.toTree, Tree.block?, statements?_toTree statements]
      rfl

theorem statements?_toTree : (statements : List Stmt) →
    statements? (statementTrees statements) = some statements
  | [] => rfl
  | statement :: statements => by
      rw [statementTrees, statements?, statement.statement?_toTree,
        statements?_toTree statements]
      rfl

end

theorem Parameter.toTree_injective {parameter other : Parameter}
    (h : parameter.toTree = other.toTree) : parameter = other := by
  cases parameter
  cases other
  cases h
  rfl

theorem ParameterList.toTree_injective {list other : ParameterList}
    (h : list.toTree = other.toTree) : list = other := by
  obtain ⟨location, parameters⟩ := list
  obtain ⟨otherLocation, others⟩ := other
  rw [toTree, toTree, Tree.node.injEq] at h
  obtain ⟨-, hlocation, hparameters, -⟩ := h
  have hsame : parameters = others :=
    (List.map_inj_right fun _ _ => Parameter.toTree_injective).mp hparameters
  rw [hsame, show location = otherLocation from hlocation]

/-- A function is told by its tree. -/
theorem FunctionDefinition.toTree_injective {definition other : FunctionDefinition}
    (h : definition.toTree = other.toTree) : definition = other := by
  obtain ⟨location, name, returnType, typeLocation, parameters, body⟩ := definition
  obtain ⟨otherLocation, otherName, otherType, otherTypeLocation, others, otherBody⟩ := other
  simp only [toTree, Tree.leaf, Tree.node.injEq, Ast.Kind.functionDefinition.injEq,
    List.cons.injEq, and_true] at h
  obtain ⟨⟨rfl, rfl⟩, rfl, hparameters, hbody, -, rfl⟩ := h
  have hsame : parameters = others := by
    cases parameters with
    | none =>
        cases others with
        | none => rfl
        | some list => cases hparameters
    | some list =>
        cases others with
        | none => cases hparameters
        | some otherList =>
            rw [ParameterList.toTree_injective (List.cons.inj hparameters).1]
  have hblock : body = otherBody := by
    apply Option.some.inj
    rw [← body.block?_toTree, hbody, otherBody.block?_toTree]
  rw [hsame, hblock]

/-- Functions whose trees differ in places and names of types only differ so themselves. -/
theorem FunctionDefinition.outline_of_toTree {definition other : FunctionDefinition}
    (h : definition.toTree.outline = other.toTree.outline) :
    definition.outline = other.outline := by
  apply toTree_injective
  rw [definition.toTree_outline, other.toTree_outline, h]

end MiniC
