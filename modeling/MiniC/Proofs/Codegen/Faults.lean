import MiniC.Codegen.Scope
import MiniC.Program.Tree

/-!
# What code generation refuses

Code generation of a built syntax tree stops at two things: at a `break` with no loop
around it, and at the initial value of a variable of the file that is neither a number
nor a number with a sign.  `Tree.faults` lists them in source order.

A list of faults is taken from all nodes of a tree (`Tree.visits`).  The equations below
give it for each construct of a program, along which code is generated.
-/

namespace MiniC

namespace Ast

mutual

/-- The nodes of a tree in source order, each with the kinds of the nodes around it and
with all that is below it. -/
def Tree.visits (above : List Kind) : Tree → List (List Kind × Tree)
  | .node kind location first second third =>
      (above, .node kind location first second third) ::
        (visitsAll (kind :: above) first ++ visitsAll (kind :: above) second ++
          visitsAll (kind :: above) third)

/-- The nodes of trees in source order. -/
def visitsAll (above : List Kind) : List Tree → List (List Kind × Tree)
  | [] => []
  | tree :: trees => tree.visits above ++ visitsAll above trees

end

/-- Whether a tree is a number, or a number directly below a sign. -/
def Tree.isSignedNumber (tree : Tree) : Bool :=
  match tree.kind, tree.first.map Tree.kind with
  | .number _, _ => true
  | .unary .plus, [.number _] | .unary .minus, [.number _] => true
  | _, _ => false

end Ast

namespace Codegen

open Ast (Kind Tree visitsAll)

/-- Why there is no code for a tree, and where. -/
structure Fault where
  location : Location
  obstacle : Obstacle

/-- The error that reports a fault. -/
def Fault.error (fault : Fault) : Error := fault.obstacle.at fault.location

/-- What is wrong with an initial value of a variable of the file. -/
def initialFault? (value : Tree) : Option Fault :=
  if value.isSignedNumber then none
  else
    some ⟨value.location,
      match value.kind with
      | .unary .plus | .unary .minus => .notConstant
      | found => .notConstantKind found⟩

/-- What is wrong with a node below nodes of some kinds: it is a `break` with no loop around it,
or a variable of the file whose initial value, its third part, is no constant. -/
def fault? : List Kind × Tree → Option Fault
  | (above, .node .breakStatement location _ _ _) =>
      if .whileStatement ∈ above then none else some ⟨location, .outsideLoop⟩
  | (_, .node .globalDeclaration _ parts _ _) => parts[2]?.bind initialFault?
  | _ => none

/-- What is wrong with a tree, in source order. -/
def faultsIn (above : List Kind) (tree : Tree) : List Fault := (tree.visits above).filterMap fault?

/-- What is wrong with trees, in source order. -/
def faultsInAll (above : List Kind) (trees : List Tree) : List Fault :=
  (visitsAll above trees).filterMap fault?

end Codegen

/-- What is wrong with a whole tree, in source order. -/
def Ast.Tree.faults (tree : Tree) : List Codegen.Fault := Codegen.faultsIn [] tree

namespace Codegen

open Ast (Kind Tree visitsAll)

variable {above : List Kind}

theorem faultsIn_node (kind : Kind) (location : Location) (first second third : List Tree) :
    faultsIn above (.node kind location first second third) =
      (fault? (above, .node kind location first second third)).toList ++
        (faultsInAll (kind :: above) first ++ faultsInAll (kind :: above) second ++
          faultsInAll (kind :: above) third) := by
  rw [faultsIn, Tree.visits, List.filterMap_cons]
  cases hfault : fault? (above, .node kind location first second third) with
  | none => simp [faultsInAll]
  | some fault => simp [faultsInAll]

@[simp] theorem faultsInAll_nil : faultsInAll above [] = [] := rfl

@[simp] theorem faultsInAll_cons (tree : Tree) (trees : List Tree) :
    faultsInAll above (tree :: trees) = faultsIn above tree ++ faultsInAll above trees := by
  rw [faultsInAll, visitsAll, List.filterMap_append]
  rfl

theorem faultsInAll_eq_nil {trees : List Tree} (h : ∀ tree ∈ trees, faultsIn above tree = []) :
    faultsInAll above trees = [] := by
  induction trees with
  | nil => rfl
  | cons tree trees ih =>
      rw [faultsInAll_cons, h tree List.mem_cons_self,
        ih fun other hother => h other (List.mem_cons_of_mem _ hother), List.append_nil]

/-- A node that may stand anywhere has the faults of what is below it. -/
theorem faultsIn_of_plain {kind : Kind} {location : Location} {first second third : List Tree}
    (h : kind ≠ .breakStatement ∧ kind ≠ .globalDeclaration) :
    faultsIn above (.node kind location first second third) =
      faultsInAll (kind :: above) first ++ faultsInAll (kind :: above) second ++
        faultsInAll (kind :: above) third := by
  obtain ⟨hbreak, hglobal⟩ := h
  rw [faultsIn_node]
  cases kind with
  | breakStatement => exact absurd rfl hbreak
  | globalDeclaration => exact absurd rfl hglobal
  | _ => rfl

theorem faultsIn_leaf {kind : Kind} {location : Location}
    (h : kind ≠ .breakStatement ∧ kind ≠ .globalDeclaration) :
    faultsIn above (.leaf kind location) = [] :=
  faultsIn_of_plain h

/-! ## Programs -/

mutual

/-- Nothing is ever wrong with an expression. -/
theorem faultsIn_expression (above : List Kind) : (expr : Expr) → faultsIn above expr.toTree = []
  | .number _ _ | .name _ _ => faultsIn_leaf (by simp)
  | .binary _ _ left right => by
      rw [Expr.toTree, faultsIn_of_plain (by simp)]
      simp [faultsIn_expression _ left, faultsIn_expression _ right]
  | .unary _ _ operand => by
      rw [Expr.toTree, faultsIn_of_plain (by simp)]
      simp [faultsIn_expression _ operand]
  | .assign _ _ _ value => by
      rw [Expr.toTree, faultsIn_of_plain (by simp)]
      simp [faultsIn_leaf, faultsIn_expression _ value]
  | .call _ _ none => faultsIn_leaf (by simp)
  | .call _ _ (some list) => by
      rw [Expr.toTree, faultsIn_of_plain (by simp)]
      simp [faultsIn_argumentList _ list]

theorem faultsIn_argumentList (above : List Kind) : (list : ArgumentList) →
    faultsIn above list.toTree = []
  | ⟨_, values⟩ => by
      rw [ArgumentList.toTree, faultsIn_of_plain (by simp)]
      simp [faultsInAll_expressions _ values]

theorem faultsInAll_expressions (above : List Kind) : (values : List Expr) →
    faultsInAll above (expressionTrees values) = []
  | [] => rfl
  | value :: values => by
      rw [expressionTrees, faultsInAll_cons, faultsIn_expression above value,
        faultsInAll_expressions above values, List.append_nil]

end

theorem faultsInAll_optional (above : List Kind) (value : Option Expr) :
    faultsInAll above (value.map Expr.toTree).toList = [] := by
  cases value with
  | none => rfl
  | some value => simp [faultsIn_expression]

theorem faultsIn_localDeclaration (declared : Declaration) :
    faultsIn above (declared.toTree .localDeclaration) = [] := by
  rw [Declaration.toTree, faultsIn_of_plain (by simp), Declaration.parts]
  simp [faultsIn_leaf, faultsInAll_optional]

/-- Of a variable of the file only the initial value may be wrong. -/
theorem faultsIn_globalDeclaration (declared : Declaration) :
    faultsIn above (declared.toTree .globalDeclaration) =
      ((declared.initializer.map Expr.toTree).bind initialFault?).toList := by
  rw [Declaration.toTree, faultsIn_node, Declaration.parts]
  cases declared.initializer with
  | none => simp [fault?, faultsIn_leaf]
  | some value => simp [fault?, faultsIn_leaf, faultsIn_expression]

theorem faultsInAll_parameterList (above : List Kind) (list : Option ParameterList) :
    faultsInAll above (list.map ParameterList.toTree).toList = [] := by
  cases list with
  | none => rfl
  | some list =>
      have hall : ∀ below, faultsInAll below (list.parameters.map Parameter.toTree) = [] := by
        intro below
        apply faultsInAll_eq_nil
        intro tree htree
        obtain ⟨parameter, -, rfl⟩ := List.mem_map.mp htree
        exact faultsIn_leaf (by simp)
      rw [Option.map_some, Option.toList_some, faultsInAll_cons, ParameterList.toTree,
        faultsIn_of_plain (by simp)]
      simp [hall]

/-- What is wrong with a function is what is wrong with its body. -/
theorem faultsIn_function (definition : FunctionDefinition) :
    faultsIn above definition.toTree =
      faultsIn (.functionDefinition definition.name definition.returnType :: above)
        definition.body.toTree := by
  rw [FunctionDefinition.toTree, faultsIn_of_plain (by simp), faultsInAll_parameterList]
  simp [faultsIn_leaf]

theorem faultsIn_external (declared : FunctionDeclaration) :
    faultsIn above declared.toTree = [] := by
  rw [FunctionDeclaration.toTree, faultsIn_of_plain (by simp), faultsInAll_parameterList]
  rfl

theorem faults_unit (unit : CompileUnit) :
    unit.toTree.faults = faultsInAll [.compileUnit] (unit.items.map Item.toTree) := by
  rw [Tree.faults, CompileUnit.toTree, faultsIn_of_plain (by simp)]
  simp

end Codegen

end MiniC
