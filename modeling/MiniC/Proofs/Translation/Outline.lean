import MiniC.Proofs.Codegen.Faults
import MiniC.Proofs.Translation.File

/-!
# Outlines of programs

The outline of a program is what is left of it without the places of its constructs
and the names of its types.  A program has the translation of its outline
(`assembly_outline`), and what is wrong with it is what is wrong with its outline, at
other places (`faults_outline`).
-/

namespace MiniC

open Ast (Kind Tree)
open Codegen (Fault faultsIn faultsInAll initialFault?)

/-! ## Expressions -/

mutual

/-- An expression without its places. -/
def Expr.outline : Expr → Expr
  | .number _ value => .number .unknown value
  | .name _ name => .name .unknown name
  | .binary _ op left right => .binary .unknown op left.outline right.outline
  | .unary _ op operand => .unary .unknown op operand.outline
  | .assign _ _ target value => .assign .unknown .unknown target value.outline
  | .call _ callee none => .call .unknown callee none
  | .call _ callee (some list) => .call .unknown callee (some list.outline)

/-- A list of arguments without its places. -/
def ArgumentList.outline : ArgumentList → ArgumentList
  | ⟨_, values⟩ => ⟨.unknown, outlineValues values⟩

/-- Expressions without their places. -/
def outlineValues : List Expr → List Expr
  | [] => []
  | value :: values => value.outline :: outlineValues values

end

theorem outlineValues_eq (values : List Expr) : outlineValues values = values.map Expr.outline := by
  induction values with
  | nil => rfl
  | cons value values ih => rw [outlineValues, ih, List.map_cons]

@[simp] theorem length_outlineValues (values : List Expr) :
    (outlineValues values).length = values.length := by
  rw [outlineValues_eq, List.length_map]

mutual

@[simp] theorem Expr.code_outline (frame : Frame) :
    (expr : Expr) → expr.outline.code frame = expr.code frame
  | .number _ _ | .name _ _ => rfl
  | .binary _ _ left right => by
      rw [Expr.outline, Expr.code, Expr.code, left.code_outline frame, right.code_outline frame]
  | .unary _ _ operand => by
      rw [Expr.outline, Expr.code, Expr.code, operand.code_outline frame]
  | .assign _ _ _ value => by
      rw [Expr.outline, Expr.code, Expr.code, value.code_outline frame]
  | .call _ _ none => rfl
  | .call _ _ (some ⟨_, values⟩) => by
      simp only [Expr.outline, ArgumentList.outline, Expr.code, ArgumentList.code,
        argumentCode_outlineValues frame values, length_outlineValues]

theorem argumentCode_outlineValues (frame : Frame) :
    (values : List Expr) → argumentCode frame (outlineValues values) = argumentCode frame values
  | [] => rfl
  | value :: values => by
      rw [outlineValues, argumentCode, argumentCode, argumentCode_outlineValues frame values,
        value.code_outline frame]

end

mutual

@[simp] theorem Expr.size_outline : (expr : Expr) → expr.outline.size = expr.size
  | .number _ _ | .name _ _ => rfl
  | .binary _ _ left right => by
      rw [Expr.outline, Expr.size, Expr.size, left.size_outline, right.size_outline]
  | .unary _ _ operand => by rw [Expr.outline, Expr.size, Expr.size, operand.size_outline]
  | .assign _ _ _ value => by rw [Expr.outline, Expr.size, Expr.size, value.size_outline]
  | .call _ _ none => rfl
  | .call _ _ (some ⟨_, values⟩) => by
      simp only [Expr.outline, ArgumentList.outline, Expr.size, ArgumentList.size,
        argumentSize_outlineValues values]

theorem argumentSize_outlineValues :
    (values : List Expr) → argumentSize (outlineValues values) = argumentSize values
  | [] => rfl
  | value :: values => by
      rw [outlineValues, argumentSize, argumentSize, argumentSize_outlineValues values,
        value.size_outline]

end

@[simp] theorem Expr.kind_outline (expr : Expr) : expr.outline.toTree.kind = expr.toTree.kind := by
  cases expr with
  | call location callee list => cases list <;> rfl
  | _ => rfl

theorem Expr.constant?_outline (expr : Expr) : expr.outline.constant? = expr.constant? := by
  cases expr with
  | unary location op operand =>
      -- a constant is a number with or without a sign, so two levels are enough
      cases operand with
      | call location callee list => cases op <;> cases list <;> rfl
      | _ => cases op <;> rfl
  | call location callee list => cases list <;> rfl
  | _ => rfl

/-! ## Statements -/

/-- A declared variable without its places and the name of its type. -/
def Declaration.outline (declared : Declaration) : Declaration where
  location := .unknown
  typeLocation := .unknown
  typeName := ""
  nameLocation := .unknown
  name := declared.name
  initializer := declared.initializer.map Expr.outline

mutual

/-- A statement without its places and the names of its types. -/
def Stmt.outline : Stmt → Stmt
  | .expression value => .expression value.outline
  | .declaration declared => .declaration declared.outline
  | .block block => .block block.outline
  | .ifElse _ condition thenBlock none =>
      .ifElse .unknown condition.outline thenBlock.outline none
  | .ifElse _ condition thenBlock (some elseBlock) =>
      .ifElse .unknown condition.outline thenBlock.outline (some elseBlock.outline)
  | .whileLoop _ condition body => .whileLoop .unknown condition.outline body.outline
  | .returnValue _ value => .returnValue .unknown (value.map Expr.outline)
  | .breakLoop _ => .breakLoop .unknown

/-- A block without its places and the names of its types. -/
def Block.outline : Block → Block
  | ⟨_, statements⟩ => ⟨.unknown, outlineStatements statements⟩

/-- Statements without their places and the names of their types. -/
def outlineStatements : List Stmt → List Stmt
  | [] => []
  | statement :: statements => statement.outline :: outlineStatements statements

end

theorem outlineStatements_eq (statements : List Stmt) :
    outlineStatements statements = statements.map Stmt.outline := by
  induction statements with
  | nil => rfl
  | cons statement statements ih => rw [outlineStatements, ih, List.map_cons]

@[simp] theorem Declaration.translate_outline (level : Nat) (declared : Declaration)
    (cursor : Cursor) :
    declared.outline.translate level cursor = declared.translate level cursor := by
  unfold Declaration.translate outline
  cases declared.initializer with
  | none => rfl
  | some value => simp only [Option.map_some, Expr.code_outline, Expr.size_outline]

mutual

theorem Stmt.translate_outline (level : Nat) (loopEnd : Option String) : (statement : Stmt) →
    (cursor : Cursor) →
    statement.outline.translate level loopEnd cursor = statement.translate level loopEnd cursor
  | .expression value, cursor => by
      rw [Stmt.outline, Stmt.translate, Stmt.translate, value.code_outline, value.size_outline]
  | .declaration declared, cursor => declared.translate_outline level cursor
  | .block block, cursor => block.translate_outline level loopEnd cursor
  | .ifElse _ condition thenBlock none, cursor => by
      simp only [Stmt.outline, Stmt.translate, condition.code_outline, condition.size_outline,
        thenBlock.translate_outline level]
  | .ifElse _ condition thenBlock (some elseBlock), cursor => by
      simp only [Stmt.outline, Stmt.translate, condition.code_outline, condition.size_outline,
        thenBlock.translate_outline level, elseBlock.translate_outline level]
  | .whileLoop _ condition body, cursor => by
      simp only [Stmt.outline, Stmt.translate, condition.code_outline, condition.size_outline,
        body.translate_outline level]
  | .returnValue _ value, cursor => by
      cases value with
      | none => rfl
      | some value =>
          simp only [Stmt.outline, Stmt.translate, returnCode, Option.map_some,
            value.code_outline, value.size_outline]
  | .breakLoop _, cursor => rfl

theorem Block.translate_outline (level : Nat) (loopEnd : Option String) : (block : Block) →
    (cursor : Cursor) →
    block.outline.translate level loopEnd cursor = block.translate level loopEnd cursor
  | ⟨_, statements⟩, cursor => translateAll_outline (level + 1) loopEnd statements (cursor.skip 1)

theorem translateAll_outline (level : Nat) (loopEnd : Option String) : (statements : List Stmt) →
    (cursor : Cursor) → translateAll level loopEnd (outlineStatements statements) cursor =
      translateAll level loopEnd statements cursor
  | [], cursor => rfl
  | statement :: statements, cursor => by
      simp only [outlineStatements, translateAll, statement.translate_outline level,
        translateAll_outline level loopEnd statements]

end

/-! ## Functions and files -/

/-- A parameter without its place and the name of its type. -/
def Parameter.outline (parameter : Parameter) : Parameter := ⟨.unknown, parameter.name, ""⟩

/-- A list of parameters without its places and the names of its types. -/
def ParameterList.outline (list : ParameterList) : ParameterList :=
  ⟨.unknown, list.parameters.map Parameter.outline⟩

/-- The definition of a function without its places and the names of its types. -/
def FunctionDefinition.outline (definition : FunctionDefinition) : FunctionDefinition where
  location := .unknown
  name := definition.name
  returnType := ""
  returnTypeLocation := .unknown
  parameters := definition.parameters.map ParameterList.outline
  body := definition.body.outline

/-- The declaration of a function without its places and the names of its types. -/
def FunctionDeclaration.outline (declared : FunctionDeclaration) : FunctionDeclaration where
  location := .unknown
  name := declared.name
  returnType := ""
  parameters := declared.parameters.map ParameterList.outline

/-- What stands at the top of a file without its places and the names of its types. -/
def Item.outline : Item → Item
  | .function definition => .function definition.outline
  | .external declared => .external declared.outline
  | .global declared => .global declared.outline

/-- A program without its places and the names of its types. -/
def CompileUnit.outline (unit : CompileUnit) : CompileUnit :=
  ⟨.unknown, unit.items.map Item.outline⟩

theorem declareParameters_outline (parameters : List Parameter) (cursor : Cursor) :
    declareParameters (parameters.map Parameter.outline) cursor =
      declareParameters parameters cursor := by
  unfold declareParameters
  rw [List.foldl_map]
  rfl

theorem declareParameterList_outline (list : Option ParameterList) (cursor : Cursor) :
    declareParameterList (list.map ParameterList.outline) cursor =
      declareParameterList list cursor := by
  cases list with
  | none => rfl
  | some list =>
      simp only [declareParameterList, Option.map_some, ParameterList.outline,
        declareParameters_outline]

namespace FunctionDefinition

variable (definition : FunctionDefinition) (serial : Nat)

theorem translateBody_outline :
    definition.outline.translateBody serial = definition.translateBody serial := by
  rw [translateBody, translateBody, start, start]
  show definition.body.outline.translate 1 none
    (declareParameterList (definition.parameters.map ParameterList.outline) _) = _
  rw [declareParameterList_outline, Block.translate_outline]
  rfl

theorem translate_outline : definition.outline.translate serial = definition.translate serial := by
  simp only [translate, finalFrame, translateBody_outline]
  rfl

theorem nextSerial_outline :
    definition.outline.nextSerial serial = definition.nextSerial serial := by
  rw [nextSerial, nextSerial, translateBody_outline]

end FunctionDefinition

theorem FunctionDeclaration.arity_outline (declared : FunctionDeclaration) :
    declared.outline.arity = declared.arity := by
  unfold arity outline
  cases declared.parameters with
  | none => rfl
  | some list => simp [ParameterList.outline]

namespace Item

variable (item : Item)

theorem dataLines_outline (globals : Globals) :
    item.outline.dataLines globals = item.dataLines globals := by
  cases item with
  | function definition => rfl
  | external declared =>
      simp only [outline, dataLines, FunctionDeclaration.arity_outline]
      rfl
  | global declared =>
      have hvalue : (declared.initializer.map Expr.outline).bind Expr.constant? =
          declared.initializer.bind Expr.constant? := by
        cases declared.initializer with
        | none => rfl
        | some value => exact value.constant?_outline
      simp only [outline, dataLines, Declaration.outline, hvalue]

theorem next_outline (cursor : FileCursor) : item.outline.next cursor = item.next cursor := by
  have hlines := item.dataLines_outline cursor.globals
  cases item with
  | function definition =>
      simp only [outline, next, FunctionDefinition.nextSerial_outline]
      rfl
  | external declared =>
      simp only [outline] at hlines
      simp only [outline, next, hlines]
      rfl
  | global declared =>
      simp only [outline] at hlines
      simp only [outline, next, hlines]
      rfl

end Item

theorem dataSection_outline (items : List Item) (cursor : FileCursor) :
    dataSection (items.map Item.outline) cursor = dataSection items cursor := by
  induction items generalizing cursor with
  | nil => rfl
  | cons item items ih =>
      rw [List.map_cons, dataSection, dataSection, item.dataLines_outline, item.next_outline, ih]

/-- A function that is placed stays at its place, as its outline. -/
theorem placedFunctions_outline (items : List Item) (cursor : FileCursor) :
    placedFunctions (items.map Item.outline) cursor =
      (placedFunctions items cursor).map
        fun (definition, serial) => (definition.outline, serial) := by
  induction items generalizing cursor with
  | nil => rfl
  | cons item items ih =>
      rw [List.map_cons, placedFunctions, placedFunctions, item.next_outline, ih, List.map_append]
      cases item <;> rfl

namespace CompileUnit

variable (unit : CompileUnit)

theorem translate_outline (options : Asm.Options) :
    unit.outline.translate options = unit.translate options := by
  have hdata : unit.outline.dataLines = unit.dataLines := dataSection_outline unit.items start
  have hfunctions : unit.outline.functions =
      unit.functions.map fun (definition, serial) => (definition.outline, serial) :=
    placedFunctions_outline unit.items start
  rw [translate, translate, hdata, hfunctions, List.flatMap_map]
  simp only [FunctionDefinition.translate_outline]

/-- Neither places nor the names of types are in the text of a file. -/
theorem assembly_outline (options : Asm.Options) :
    unit.outline.assembly options = unit.assembly options := by
  rw [assembly, assembly, translate_outline]

end CompileUnit

/-! ## Faults -/

/-- A fault without its place. -/
def Codegen.Fault.outline (fault : Fault) : Fault := { fault with location := .unknown }

theorem Expr.firstKinds_outline (expr : Expr) :
    expr.outline.toTree.first.map Tree.kind = expr.toTree.first.map Tree.kind := by
  cases expr with
  | binary location op left right =>
      rw [outline, toTree, toTree, Tree.first, Tree.first, List.map_singleton, List.map_singleton,
        left.kind_outline]
  | unary location op operand =>
      rw [outline, toTree, toTree, Tree.first, Tree.first, List.map_singleton, List.map_singleton,
        operand.kind_outline]
  | call location callee list =>
      cases list with
      | none => rfl
      | some list =>
          cases list
          rfl
  | _ => rfl

theorem Expr.initialFault?_outline (expr : Expr) :
    initialFault? expr.outline.toTree = (initialFault? expr.toTree).map Fault.outline := by
  have hsigned : expr.outline.toTree.isSignedNumber = expr.toTree.isSignedNumber := by
    rw [Tree.isSignedNumber, expr.kind_outline, expr.firstKinds_outline]
    rfl
  rw [initialFault?, initialFault?, hsigned]
  -- both initializers are accepted or both are refused, each at its own place
  by_cases hnumber : expr.toTree.isSignedNumber
  · rw [if_pos hnumber, if_pos hnumber]
    rfl
  · rw [if_neg hnumber, if_neg hnumber, expr.kind_outline]
    have hlocation : expr.outline.toTree.location = .unknown := by
      cases expr with
      | call location callee list => cases list <;> rfl
      | _ => rfl
    rw [hlocation]
    rfl

/-- Two ways down to a node that both lead through a loop, or neither of them. -/
def AgreeOnLoops (above other : List Kind) : Prop :=
  Kind.whileStatement ∈ other ↔ Kind.whileStatement ∈ above

theorem AgreeOnLoops.cons {above other : List Kind} (h : AgreeOnLoops above other) (kind : Kind) :
    AgreeOnLoops (kind :: above) (kind :: other) := by
  unfold AgreeOnLoops at h
  rw [AgreeOnLoops, List.mem_cons, List.mem_cons, h]

mutual

theorem Stmt.faultsIn_outline {above other : List Kind} (h : AgreeOnLoops above other) :
    (statement : Stmt) → faultsIn other statement.outline.toTree =
      (faultsIn above statement.toTree).map Fault.outline
  | .expression value => by
      rw [Stmt.outline, Stmt.toTree, Stmt.toTree, Codegen.faultsIn_expression,
        Codegen.faultsIn_expression]
      rfl
  | .declaration declared => by
      rw [Stmt.outline, Stmt.toTree, Stmt.toTree, Codegen.faultsIn_localDeclaration,
        Codegen.faultsIn_localDeclaration]
      rfl
  | .block block => block.faultsIn_outline h
  | .ifElse _ condition thenBlock none => by
      rw [Stmt.outline, Stmt.toTree, Stmt.toTree, Codegen.faultsIn_of_plain (by simp),
        Codegen.faultsIn_of_plain (by simp)]
      simp [Codegen.faultsIn_expression, thenBlock.faultsIn_outline (h.cons _)]
  | .ifElse _ condition thenBlock (some elseBlock) => by
      rw [Stmt.outline, Stmt.toTree, Stmt.toTree, Codegen.faultsIn_of_plain (by simp),
        Codegen.faultsIn_of_plain (by simp)]
      simp [Codegen.faultsIn_expression, thenBlock.faultsIn_outline (h.cons _),
        elseBlock.faultsIn_outline (h.cons _)]
  | .whileLoop _ condition body => by
      rw [Stmt.outline, Stmt.toTree, Stmt.toTree, Codegen.faultsIn_of_plain (by simp),
        Codegen.faultsIn_of_plain (by simp)]
      simp [Codegen.faultsIn_expression, body.faultsIn_outline (h.cons _)]
  | .returnValue _ value => by
      rw [Stmt.outline, Stmt.toTree, Stmt.toTree, Codegen.faultsIn_of_plain (by simp),
        Codegen.faultsIn_of_plain (by simp), Codegen.faultsInAll_optional,
        Codegen.faultsInAll_optional]
      rfl
  | .breakLoop _ => by
      rw [Stmt.outline, Stmt.toTree, Stmt.toTree, Tree.leaf, Tree.leaf, Codegen.faultsIn_node,
        Codegen.faultsIn_node, Codegen.fault?, Codegen.fault?]
      -- the only fault that looks upwards; it asks whether there is a loop, not where
      by_cases hloop : Kind.whileStatement ∈ above
      · rw [if_pos hloop, if_pos (h.mpr hloop)]
        rfl
      · rw [if_neg hloop, if_neg fun hother => hloop (h.mp hother)]
        rfl

theorem Block.faultsIn_outline {above other : List Kind} (h : AgreeOnLoops above other) :
    (block : Block) → faultsIn other block.outline.toTree =
      (faultsIn above block.toTree).map Fault.outline
  | ⟨_, statements⟩ => by
      rw [Block.outline, Block.toTree, Block.toTree, Codegen.faultsIn_of_plain (by simp),
        Codegen.faultsIn_of_plain (by simp), faultsInAll_outline (h.cons _) statements]
      simp

theorem faultsInAll_outline {above other : List Kind} (h : AgreeOnLoops above other) :
    (statements : List Stmt) → faultsInAll other (statementTrees (outlineStatements statements)) =
      (faultsInAll above (statementTrees statements)).map Fault.outline
  | [] => rfl
  | statement :: statements => by
      rw [outlineStatements, statementTrees, statementTrees, Codegen.faultsInAll_cons,
        Codegen.faultsInAll_cons, statement.faultsIn_outline h, faultsInAll_outline h statements,
        List.map_append]

end

theorem Item.faultsIn_outline (item : Item) :
    faultsIn [.compileUnit] item.outline.toTree =
      (faultsIn [.compileUnit] item.toTree).map Fault.outline := by
  cases item with
  | function definition =>
      rw [outline, toTree, toTree, Codegen.faultsIn_function, Codegen.faultsIn_function]
      exact definition.body.faultsIn_outline (by simp [AgreeOnLoops])
  | external declared =>
      rw [outline, toTree, toTree, Codegen.faultsIn_external, Codegen.faultsIn_external]
      rfl
  | global declared =>
      rw [outline, toTree, toTree, Codegen.faultsIn_globalDeclaration,
        Codegen.faultsIn_globalDeclaration, Declaration.outline]
      cases declared.initializer with
      | none => rfl
      | some value =>
          simp only [Option.map_some, Option.bind_some, value.initialFault?_outline]
          cases initialFault? value.toTree <;> rfl

/-- What is wrong with the outline of a program is what is wrong with the program. -/
theorem CompileUnit.faults_outline (unit : CompileUnit) :
    unit.outline.toTree.faults = unit.toTree.faults.map Fault.outline := by
  rw [Codegen.faults_unit, Codegen.faults_unit, outline]
  induction unit.items with
  | nil => rfl
  | cons item items ih =>
      rw [List.map_cons, List.map_cons, List.map_cons, Codegen.faultsInAll_cons,
        Codegen.faultsInAll_cons, item.faultsIn_outline, ih, List.map_append]

end MiniC
