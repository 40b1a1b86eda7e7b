import MiniC.Emission.Layout
import MiniC.Proofs.Translation.Expression

/-!
# The code of statements and functions

A translation of statements by recursion on the statement, which makes lines in
the order in which they stand in the file.  It knows no emission nodes; a
`Cursor` only counts those that code generation has made so far, because the
labels of an `if` or a `while` carry the number of its node, and keeps the frame
with the names declared so far.
-/

namespace MiniC

open Asm (Entry Instruction Register)
open Emission (epilogue jumpIfZero nameOf prologue)

/-- Instructions at one nesting level. -/
def lay (level : Nat) (code : List Instruction) : List Entry := code.map (Entry.mk level)

@[simp] theorem lay_append (level : Nat) (code more : List Instruction) :
    lay level (code ++ more) = lay level code ++ lay level more :=
  List.map_append

/-- Where a translation has got to in a function. -/
structure Cursor where
  /-- The number of emission nodes made so far. -/
  serial : Nat
  /-- The function with the names declared so far. -/
  frame : Frame

namespace Cursor

/-- The cursor after more emission nodes. -/
def skip (cursor : Cursor) (count : Nat) : Cursor :=
  { cursor with serial := cursor.serial + count }

/-- The cursor after the declaration of a local, which makes a comment if the name
is new. -/
def declareLocal (cursor : Cursor) (name : String) : Cursor :=
  let (_, isNew, frame) := cursor.frame.addLocal name
  ⟨cursor.serial + (if isNew then 1 else 0), frame⟩

/-- The cursor after a parameter: a comment if the name is new, and a blank leaf. -/
def declareParameter (cursor : Cursor) (name : String) : Cursor :=
  let (_, isNew, frame) := cursor.frame.addParameter name
  ⟨cursor.serial + (if isNew then 1 else 0) + 1, frame⟩

@[simp] theorem serial_skip (cursor : Cursor) (count : Nat) :
    (cursor.skip count).serial = cursor.serial + count := rfl

theorem skip_skip (cursor : Cursor) (count more : Nat) :
    (cursor.skip count).skip more = cursor.skip (count + more) := by
  simp [skip, Nat.add_assoc]

end Cursor

/-- The label of the `if` or `while` with a number. -/
def labelOf (kind : Emission.Kind) (serial : Nat) (suffix : String) : String :=
  nameOf kind serial ++ "_" ++ suffix

/-! ## Statements -/

/-- The declaration of a local.  The initial value is computed before the name is
declared. -/
def Declaration.translate (level : Nat) (declaration : Declaration) (cursor : Cursor) :
    List Entry × Cursor :=
  let offset := (cursor.frame.addLocal declaration.name).1
  match declaration.initializer with
  | none => ([], (cursor.declareLocal declaration.name).skip 1)
  | some value =>
      (lay level (value.code cursor.frame ++ [.mov (.frame offset) Register.eax]),
        ((cursor.skip value.size).declareLocal declaration.name).skip 1)

/-- The code of a `return`, which jumps to the end of the function. -/
def returnCode (frame : Frame) (value : Option Expr) : List Instruction :=
  (value.map (·.code frame)).getD [] ++ [.jmp frame.exitLabel]

mutual

/-- The lines of a statement at a nesting level, with the label that a `break` in
it jumps to. -/
def Stmt.translate (level : Nat) (loopEnd : Option String) : Stmt → Cursor → List Entry × Cursor
  | .expression value, cursor => (lay level (value.code cursor.frame), cursor.skip value.size)
  | .declaration declared, cursor => declared.translate level cursor
  | .block block, cursor => block.translate level loopEnd cursor
  | .ifElse _ condition thenBlock elseBlock, cursor =>
      let label := labelOf .conditional cursor.serial
      let conditionCode := condition.code cursor.frame
      let (thenLines, cursor) :=
        thenBlock.translate level loopEnd (cursor.skip (1 + condition.size))
      let (elseLines, cursor) :=
        match elseBlock with
        | none => ([], cursor)
        | some block => block.translate level loopEnd cursor
      (lay level (conditionCode ++ jumpIfZero (label "else")) ++ thenLines ++
        lay level [.jmp (label "endif"), .label (label "else")] ++ elseLines ++
        lay level [.label (label "endif")], cursor)
  | .whileLoop _ condition body, cursor =>
      let label := labelOf .loop cursor.serial
      let conditionCode := condition.code cursor.frame
      let (bodyLines, cursor) :=
        body.translate level (some (label "end")) (cursor.skip (1 + condition.size))
      (lay level ([.label (label "loop")] ++ conditionCode ++ jumpIfZero (label "end")) ++
        bodyLines ++ lay level [.jmp (label "loop"), .label (label "end")], cursor)
  | .returnValue _ value, cursor =>
      (lay level (returnCode cursor.frame value),
        cursor.skip (1 + (value.map Expr.size).getD 0))
  | .breakLoop _, cursor =>
      (lay level (loopEnd.map Instruction.jmp).toList, cursor.skip 1)

/-- The lines of a block, whose statements are one level deeper. -/
def Block.translate (level : Nat) (loopEnd : Option String) : Block → Cursor → List Entry × Cursor
  | ⟨_, statements⟩, cursor => translateAll (level + 1) loopEnd statements (cursor.skip 1)

/-- The lines of statements one after another. -/
def translateAll (level : Nat) (loopEnd : Option String) :
    List Stmt → Cursor → List Entry × Cursor
  | [], cursor => ([], cursor)
  | statement :: statements, cursor =>
      let (lines, cursor) := statement.translate level loopEnd cursor
      let (more, cursor) := translateAll level loopEnd statements cursor
      (lines ++ more, cursor)

end

/-! ## How far a translation gets -/

/-- A cursor is further on: more emission nodes, and more locals after the old ones. -/
structure Cursor.Precedes (cursor next : Cursor) : Prop where
  serial_le : cursor.serial ≤ next.serial
  name_eq : next.frame.name = cursor.frame.name
  parameters_eq : next.frame.parameters = cursor.frame.parameters
  locals_prefix : cursor.frame.locals <+: next.frame.locals

namespace Cursor.Precedes

variable {cursor middle next : Cursor}

protected theorem refl (cursor : Cursor) : cursor.Precedes cursor :=
  ⟨Nat.le_refl _, rfl, rfl, List.prefix_refl _⟩

theorem trans (h : cursor.Precedes middle) (hmore : middle.Precedes next) : cursor.Precedes next :=
  ⟨Nat.le_trans h.serial_le hmore.serial_le, hmore.name_eq.trans h.name_eq,
    hmore.parameters_eq.trans h.parameters_eq, h.locals_prefix.trans hmore.locals_prefix⟩

theorem skip (h : cursor.Precedes next) (count : Nat) : cursor.Precedes (next.skip count) :=
  ⟨Nat.le_trans h.serial_le (Nat.le_add_right _ _), h.name_eq, h.parameters_eq, h.locals_prefix⟩

theorem declareLocal (h : cursor.Precedes next) (name : String) :
    cursor.Precedes (next.declareLocal name) := by
  apply h.trans
  unfold Cursor.declareLocal Frame.addLocal
  -- a local that is declared again keeps its place, and no node is made
  cases next.frame.localOffset? name with
  | some offset => exact .refl next
  | none => exact ⟨Nat.le_add_right _ _, rfl, rfl, List.prefix_append _ _⟩

end Cursor.Precedes

theorem Declaration.precedes (declaration : Declaration) (level : Nat) (cursor : Cursor) :
    cursor.Precedes (declaration.translate level cursor).2 := by
  unfold Declaration.translate
  cases declaration.initializer with
  | none => exact ((Cursor.Precedes.refl cursor).declareLocal _).skip 1
  | some value => exact (((Cursor.Precedes.refl cursor).skip _).declareLocal _).skip 1

mutual

theorem Stmt.precedes (level : Nat) (loopEnd : Option String) : (statement : Stmt) →
    (cursor : Cursor) → cursor.Precedes (statement.translate level loopEnd cursor).2
  | .expression value, cursor => (Cursor.Precedes.refl cursor).skip value.size
  | .declaration declared, cursor => declared.precedes level cursor
  | .block block, cursor => block.precedes level loopEnd cursor
  | .ifElse _ condition thenBlock none, cursor =>
      ((Cursor.Precedes.refl cursor).skip (1 + condition.size)).trans
        (thenBlock.precedes level loopEnd _)
  | .ifElse _ condition thenBlock (some elseBlock), cursor =>
      (((Cursor.Precedes.refl cursor).skip (1 + condition.size)).trans
        (thenBlock.precedes level loopEnd _)).trans (elseBlock.precedes level loopEnd _)
  | .whileLoop _ condition body, cursor =>
      ((Cursor.Precedes.refl cursor).skip (1 + condition.size)).trans (body.precedes level _ _)
  | .returnValue _ _, cursor => (Cursor.Precedes.refl cursor).skip _
  | .breakLoop _, cursor => (Cursor.Precedes.refl cursor).skip 1

theorem Block.precedes (level : Nat) (loopEnd : Option String) : (block : Block) →
    (cursor : Cursor) → cursor.Precedes (block.translate level loopEnd cursor).2
  | ⟨_, statements⟩, cursor =>
      ((Cursor.Precedes.refl cursor).skip 1).trans (translateAll_precedes _ loopEnd statements _)

theorem translateAll_precedes (level : Nat) (loopEnd : Option String) :
    (statements : List Stmt) → (cursor : Cursor) →
    cursor.Precedes (translateAll level loopEnd statements cursor).2
  | [], cursor => .refl cursor
  | statement :: statements, cursor =>
      (statement.precedes level loopEnd cursor).trans
        (translateAll_precedes level loopEnd statements _)

end

/-! ## Functions -/

/-- The comment on a parameter at a position. -/
def parameterComment (position : Nat) (name : String) : Instruction :=
  .comment ("param " ++ name ++ " at [ebp+" ++
    toString (Frame.parameterOffsetAt position).toInt ++ "]")

/-- The comment on a local at a position. -/
def localComment (position : Nat) (name : String) : Instruction :=
  .comment ("local " ++ name ++ " at [ebp-" ++
    toString (-Frame.localOffsetAt position).toInt ++ "]")

/-- The comments on the names of a function. -/
def Frame.comments (frame : Frame) : List Instruction :=
  frame.parameters.mapIdx parameterComment ++ frame.locals.mapIdx localComment

/-- The cursor after parameters. -/
def declareParameters (parameters : List Parameter) (cursor : Cursor) : Cursor :=
  parameters.foldl (fun cursor parameter => cursor.declareParameter parameter.name) cursor

/-- The cursor after the parameter list of a function, if there is one. -/
def declareParameterList (list : Option ParameterList) (cursor : Cursor) : Cursor :=
  match list with
  | none => cursor
  | some list => (declareParameters list.parameters cursor).skip 1

namespace FunctionDefinition

/-- The cursor at the start of the body of the function with a number. -/
def start (definition : FunctionDefinition) (serial : Nat) : Cursor :=
  declareParameterList definition.parameters ⟨serial + 1, { name := definition.name }⟩

/-- The lines of the body of the function with a number, and the cursor after
them. -/
def translateBody (definition : FunctionDefinition) (serial : Nat) : List Entry × Cursor :=
  definition.body.translate 1 none (definition.start serial)

/-- The frame of a function with all its names. -/
def finalFrame (definition : FunctionDefinition) (serial : Nat) : Frame :=
  (definition.translateBody serial).2.frame

/-- The lines of a function: the body between prologue and epilogue, for all the
names that the body declares. -/
def translate (definition : FunctionDefinition) (serial : Nat) : List Entry :=
  let frame := definition.finalFrame serial
  lay 0 [.proc definition.name] ++ lay 1 (prologue frame ++ frame.comments) ++
    (definition.translateBody serial).1 ++ lay 1 (epilogue frame) ++
    lay 0 [.endp definition.name]

/-- The number of emission nodes after a function, which ends with a blank leaf for
its return type. -/
def nextSerial (definition : FunctionDefinition) (serial : Nat) : Nat :=
  (definition.translateBody serial).2.serial + 1

theorem name_declareParameters (parameters : List Parameter) (cursor : Cursor) :
    (declareParameters parameters cursor).frame.name = cursor.frame.name := by
  unfold declareParameters
  induction parameters generalizing cursor with
  | nil => rfl
  | cons parameter parameters ih =>
      rw [List.foldl_cons, ih]
      unfold Cursor.declareParameter Frame.addParameter
      cases cursor.frame.parameterOffset? parameter.name <;> rfl

@[simp] theorem name_start (definition : FunctionDefinition) (serial : Nat) :
    (definition.start serial).frame.name = definition.name := by
  unfold start declareParameterList
  cases definition.parameters with
  | none => rfl
  | some list => exact name_declareParameters list.parameters _

theorem start_precedes (definition : FunctionDefinition) (serial : Nat) :
    (definition.start serial).Precedes (definition.translateBody serial).2 :=
  definition.body.precedes 1 none _

@[simp] theorem name_finalFrame (definition : FunctionDefinition) (serial : Nat) :
    (definition.finalFrame serial).name = definition.name :=
  (definition.start_precedes serial).name_eq.trans (definition.name_start serial)

end FunctionDefinition

end MiniC
