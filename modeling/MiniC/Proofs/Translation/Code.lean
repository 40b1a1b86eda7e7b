import MiniC.Proofs.Translation.Statement

/-!
# The instructions of statements

What a machine runs of the lines of a statement: the instructions without their
nesting levels (`Stmt.code`), and where the translation gets to, which depends
neither on the level nor on the loop around (`Stmt.after`).
-/

namespace MiniC

open Asm (Entry Instruction Register)
open Emission (epilogue jumpIfZero prologue)

/-- The cursor after a declaration. -/
def Declaration.after (declaration : Declaration) (cursor : Cursor) : Cursor :=
  let valued := cursor.skip ((declaration.initializer.map Expr.size).getD 0)
  (valued.declareLocal declaration.name).skip 1

/-- The instructions of a declaration: the initial value is stored in the new local. -/
def Declaration.code (declaration : Declaration) (frame : Frame) : List Instruction :=
  match declaration.initializer with
  | none => []
  | some value =>
      value.code frame ++ [.mov (.frame (frame.addLocal declaration.name).1) Register.eax]

mutual

/-- The cursor after a statement. -/
def Stmt.after : Stmt → Cursor → Cursor
  | .expression value, cursor => cursor.skip value.size
  | .declaration declared, cursor => declared.after cursor
  | .block block, cursor => block.after cursor
  | .ifElse _ condition thenBlock elseBlock, cursor =>
      let chosen := thenBlock.after (cursor.skip (1 + condition.size))
      match elseBlock with
      | none => chosen
      | some block => block.after chosen
  | .whileLoop _ condition body, cursor => body.after (cursor.skip (1 + condition.size))
  | .returnValue _ value, cursor => cursor.skip (1 + (value.map Expr.size).getD 0)
  | .breakLoop _, cursor => cursor.skip 1

/-- The cursor after a block. -/
def Block.after : Block → Cursor → Cursor
  | ⟨_, statements⟩, cursor => afterAll statements (cursor.skip 1)

/-- The cursor after statements. -/
def afterAll : List Stmt → Cursor → Cursor
  | [], cursor => cursor
  | statement :: statements, cursor => afterAll statements (statement.after cursor)

end

mutual

/-- The instructions of a statement. -/
def Stmt.code (loopEnd : Option String) : Stmt → Cursor → List Instruction
  | .expression value, cursor => value.code cursor.frame
  | .declaration declared, cursor => declared.code cursor.frame
  | .block block, cursor => block.code loopEnd cursor
  | .ifElse _ condition thenBlock elseBlock, cursor =>
      let label := labelOf .conditional cursor.serial
      let inner := cursor.skip (1 + condition.size)
      condition.code cursor.frame ++ jumpIfZero (label "else") ++ thenBlock.code loopEnd inner ++
        [.jmp (label "endif"), .label (label "else")] ++
        (match elseBlock with
          | none => []
          | some block => block.code loopEnd (thenBlock.after inner)) ++
        [.label (label "endif")]
  | .whileLoop _ condition body, cursor =>
      let label := labelOf .loop cursor.serial
      [.label (label "loop")] ++ condition.code cursor.frame ++ jumpIfZero (label "end") ++
        body.code (some (label "end")) (cursor.skip (1 + condition.size)) ++
        [.jmp (label "loop"), .label (label "end")]
  | .returnValue _ value, cursor => returnCode cursor.frame value
  | .breakLoop _, _ => (loopEnd.map Instruction.jmp).toList

/-- The instructions of a block. -/
def Block.code (loopEnd : Option String) : Block → Cursor → List Instruction
  | ⟨_, statements⟩, cursor => codeAll loopEnd statements (cursor.skip 1)

/-- The instructions of statements one after another. -/
def codeAll (loopEnd : Option String) : List Stmt → Cursor → List Instruction
  | [], _ => []
  | statement :: statements, cursor =>
      statement.code loopEnd cursor ++ codeAll loopEnd statements (statement.after cursor)

end

/-! ## Lines and instructions -/

/-- The instructions in lines. -/
def instructionsIn (entries : List Entry) : List Instruction := entries.map (·.instruction)

@[simp] theorem instructionsIn_nil : instructionsIn [] = [] := rfl

@[simp] theorem instructionsIn_append (entries more : List Entry) :
    instructionsIn (entries ++ more) = instructionsIn entries ++ instructionsIn more :=
  List.map_append

@[simp] theorem instructionsIn_lay (level : Nat) (code : List Instruction) :
    instructionsIn (lay level code) = code := by
  simp [instructionsIn, lay, Function.comp_def]

theorem Declaration.translate_eq (declaration : Declaration) (level : Nat) (cursor : Cursor) :
    instructionsIn (declaration.translate level cursor).1 = declaration.code cursor.frame ∧
      (declaration.translate level cursor).2 = declaration.after cursor := by
  unfold Declaration.translate Declaration.code Declaration.after
  cases declaration.initializer <;> simp [Cursor.skip]

mutual

theorem Stmt.translate_eq (level : Nat) (loopEnd : Option String) : (statement : Stmt) →
    (cursor : Cursor) →
    instructionsIn (statement.translate level loopEnd cursor).1 = statement.code loopEnd cursor ∧
      (statement.translate level loopEnd cursor).2 = statement.after cursor
  | .expression value, cursor => ⟨instructionsIn_lay _ _, rfl⟩
  | .declaration declared, cursor => declared.translate_eq level cursor
  | .block block, cursor => block.translate_eq level loopEnd cursor
  | .ifElse _ condition thenBlock none, cursor => by
      obtain ⟨hthen, hchosen⟩ :=
        thenBlock.translate_eq level loopEnd (cursor.skip (1 + condition.size))
      simp [Stmt.translate, Stmt.code, Stmt.after, hthen, hchosen]
  | .ifElse _ condition thenBlock (some elseBlock), cursor => by
      -- the cursor after one part is where the next part starts, so lines and cursor go together
      obtain ⟨hthen, hchosen⟩ :=
        thenBlock.translate_eq level loopEnd (cursor.skip (1 + condition.size))
      obtain ⟨helse, hlast⟩ := elseBlock.translate_eq level loopEnd
        (thenBlock.after (cursor.skip (1 + condition.size)))
      simp [Stmt.translate, Stmt.code, Stmt.after, hthen, hchosen, helse, hlast]
  | .whileLoop _ condition body, cursor => by
      obtain ⟨hbody, hlast⟩ := body.translate_eq level (some (labelOf .loop cursor.serial "end"))
        (cursor.skip (1 + condition.size))
      simp [Stmt.translate, Stmt.code, Stmt.after, hbody, hlast]
  | .returnValue _ value, cursor => ⟨instructionsIn_lay _ _, rfl⟩
  | .breakLoop _, cursor => ⟨instructionsIn_lay _ _, rfl⟩

theorem Block.translate_eq (level : Nat) (loopEnd : Option String) : (block : Block) →
    (cursor : Cursor) →
    instructionsIn (block.translate level loopEnd cursor).1 = block.code loopEnd cursor ∧
      (block.translate level loopEnd cursor).2 = block.after cursor
  | ⟨_, statements⟩, cursor => translateAll_eq (level + 1) loopEnd statements (cursor.skip 1)

theorem translateAll_eq (level : Nat) (loopEnd : Option String) : (statements : List Stmt) →
    (cursor : Cursor) →
    instructionsIn (translateAll level loopEnd statements cursor).1 =
        codeAll loopEnd statements cursor ∧
      (translateAll level loopEnd statements cursor).2 = afterAll statements cursor
  | [], _ => ⟨rfl, rfl⟩
  | statement :: statements, cursor => by
      obtain ⟨hfirst, hnext⟩ := statement.translate_eq level loopEnd cursor
      obtain ⟨hrest, hlast⟩ := translateAll_eq level loopEnd statements (statement.after cursor)
      simp [translateAll, codeAll, afterAll, hfirst, hnext, hrest, hlast]

end

theorem Stmt.precedes_after (statement : Stmt) (cursor : Cursor) :
    cursor.Precedes (statement.after cursor) :=
  (statement.translate_eq 0 none cursor).2 ▸ statement.precedes 0 none cursor

theorem Block.precedes_after (block : Block) (cursor : Cursor) :
    cursor.Precedes (block.after cursor) :=
  (block.translate_eq 0 none cursor).2 ▸ block.precedes 0 none cursor

theorem precedes_afterAll (statements : List Stmt) (cursor : Cursor) :
    cursor.Precedes (afterAll statements cursor) :=
  (translateAll_eq 0 none statements cursor).2 ▸ translateAll_precedes 0 none statements cursor

/-- The instructions of a function. -/
def FunctionDefinition.code (definition : FunctionDefinition) (serial : Nat) : List Instruction :=
  let frame := definition.finalFrame serial
  [.proc definition.name] ++ (prologue frame ++ frame.comments) ++
    definition.body.code none (definition.start serial) ++ epilogue frame ++
    [.endp definition.name]

theorem FunctionDefinition.instructionsIn_translate (definition : FunctionDefinition)
    (serial : Nat) : instructionsIn (definition.translate serial) = definition.code serial := by
  obtain ⟨hbody, -⟩ := definition.body.translate_eq 1 none (definition.start serial)
  simp [FunctionDefinition.translate, FunctionDefinition.code,
    FunctionDefinition.translateBody, hbody]

end MiniC
