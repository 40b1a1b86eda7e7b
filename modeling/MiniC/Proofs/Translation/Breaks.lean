import MiniC.Proofs.Translation.Labels

/-!
# Leaving loops

`Stmt.breaks` lists the `break`s of a statement in the order of the text, each by the
number of the innermost `while` around it, and `loopExits` finds in code the jumps
to the ends of loops.  They are the same, one by one (`Stmt.loopExits_code`), as long
as no `break` stands outside of all loops (`Stmt.BreaksInLoops`).
-/

namespace MiniC

open Asm (Instruction jumps)
open Emission (epilogue jumpIfZero prologue)

mutual

/-- The `break`s of a statement, by the innermost loop around each, if there is one.
The loop around the statement itself is `enclosing`. -/
def Stmt.breaks (enclosing : Option Nat) : Stmt → Cursor → List (Option Nat)
  | .breakLoop _, _ => [enclosing]
  | .block block, cursor => block.breaks enclosing cursor
  | .ifElse _ condition thenBlock elseBlock, cursor =>
      let inner := cursor.skip (1 + condition.size)
      thenBlock.breaks enclosing inner ++
        match elseBlock with
        | none => []
        | some block => block.breaks enclosing (thenBlock.after inner)
  | .whileLoop _ condition body, cursor =>
      body.breaks (some cursor.serial) (cursor.skip (1 + condition.size))
  | .expression _, _ | .declaration _, _ | .returnValue _ _, _ => []

/-- The `break`s of a block. -/
def Block.breaks (enclosing : Option Nat) : Block → Cursor → List (Option Nat)
  | ⟨_, statements⟩, cursor => breaksAll enclosing statements (cursor.skip 1)

/-- The `break`s of statements. -/
def breaksAll (enclosing : Option Nat) : List Stmt → Cursor → List (Option Nat)
  | [], _ => []
  | statement :: statements, cursor =>
      statement.breaks enclosing cursor ++ breaksAll enclosing statements (statement.after cursor)

end

mutual

/-- No `break` of a statement stands outside of all loops in it. -/
def Stmt.BreaksInLoops : Stmt → Prop
  | .breakLoop _ => False
  | .block block => block.BreaksInLoops
  | .ifElse _ _ thenBlock elseBlock =>
      thenBlock.BreaksInLoops ∧
        match elseBlock with
        | none => True
        | some block => block.BreaksInLoops
  | .expression _ | .declaration _ | .whileLoop _ _ _ | .returnValue _ _ => True

/-- No `break` of a block stands outside of all loops in it. -/
def Block.BreaksInLoops : Block → Prop
  | ⟨_, statements⟩ => AllBreaksInLoops statements

/-- No `break` of statements stands outside of all loops in them. -/
def AllBreaksInLoops : List Stmt → Prop
  | [] => True
  | statement :: statements => statement.BreaksInLoops ∧ AllBreaksInLoops statements

end

/-! ## Jumps to the ends of loops -/

/-- The label at the end of the loop with a number. -/
def loopEndOf (serial : Nat) : String := labelOf .loop serial "end"

/-- Whether a label is at the end of a loop. -/
def isLoopEnd (label : String) : Bool := (sections label).getLast? == some "end".toList

/-- The targets of the jumps to the ends of loops in code that depend on nothing. -/
def loopExits (code : List Instruction) : List String := (jumps code).filter isLoopEnd

@[simp] theorem loopExits_nil : loopExits [] = [] := rfl

@[simp] theorem loopExits_cons (instruction : Instruction) (code : List Instruction) :
    loopExits (instruction :: code) =
      instruction.jump?.toList.filter isLoopEnd ++ loopExits code := by
  simp [loopExits]

@[simp] theorem loopExits_append (code more : List Instruction) :
    loopExits (code ++ more) = loopExits code ++ loopExits more := by
  simp [loopExits]

theorem Plain.loopExits_eq {code : List Instruction} (h : Plain code) : loopExits code = [] := by
  rw [loopExits, h.jumps_eq]
  rfl

theorem isLoopEnd_labelOf {kind : Emission.Kind} {suffix : String} (serial : Nat)
    (hsuffix : '_' ∉ suffix.toList) :
    isLoopEnd (labelOf kind serial suffix) = (some suffix.toList == some "end".toList) := by
  rw [isLoopEnd, sections_labelOf_of_plain kind serial hsuffix]
  rfl

@[simp] theorem isLoopEnd_loopEndOf (serial : Nat) : isLoopEnd (loopEndOf serial) = true := by
  rw [loopEndOf, isLoopEnd_labelOf serial (by decide)]
  decide

@[simp] theorem isLoopEnd_loop (serial : Nat) :
    isLoopEnd (labelOf .loop serial "loop") = false := by
  rw [isLoopEnd_labelOf serial (by decide)]
  decide

@[simp] theorem isLoopEnd_endif (serial : Nat) :
    isLoopEnd (labelOf .conditional serial "endif") = false := by
  rw [isLoopEnd_labelOf serial (by decide)]
  decide

@[simp] theorem isLoopEnd_exitLabel (frame : Frame) : isLoopEnd frame.exitLabel = false := by
  rw [isLoopEnd, Frame.exitLabel, sections_exit, List.getLast?_concat]
  decide

/-! ## Statements -/

mutual

/-- The jumps to the ends of loops in the code of a statement are its `break`s, and each
of them goes to the end of the innermost loop around it. -/
theorem Stmt.loopExits_code (enclosing : Option Nat) : (statement : Stmt) → (cursor : Cursor) →
    (enclosing = none → statement.BreaksInLoops) →
    (loopExits (statement.code (enclosing.map loopEndOf) cursor)).map some =
      (statement.breaks enclosing cursor).map (Option.map loopEndOf)
  | .expression value, cursor, _ => by
      simp [Stmt.code, Stmt.breaks, (value.plain cursor.frame).loopExits_eq]
  | .declaration declared, cursor, _ => by
      simp [Stmt.code, Stmt.breaks, (declared.plain cursor.frame).loopExits_eq]
  | .block block, cursor, h => block.loopExits_code enclosing cursor h
  | .ifElse _ condition thenBlock none, cursor, h => by
      have hthen := thenBlock.loopExits_code enclosing (cursor.skip (1 + condition.size))
        fun hnone => (h hnone).1
      simpa [Stmt.code, Stmt.breaks, (condition.plain cursor.frame).loopExits_eq, jumpIfZero,
        Instruction.jump?] using hthen
  | .ifElse _ condition thenBlock (some elseBlock), cursor, h => by
      have hthen := thenBlock.loopExits_code enclosing (cursor.skip (1 + condition.size))
        fun hnone => (h hnone).1
      have helse := elseBlock.loopExits_code enclosing
        (thenBlock.after (cursor.skip (1 + condition.size))) fun hnone => (h hnone).2
      simp [Stmt.code, Stmt.breaks, (condition.plain cursor.frame).loopExits_eq, jumpIfZero,
        Instruction.jump?, hthen, helse]
  | .whileLoop _ condition body, cursor, _ => by
      -- inside the loop `enclosing` is the loop itself, so the body may break whatever is around
      have hbody := body.loopExits_code (some cursor.serial) (cursor.skip (1 + condition.size))
        fun hnone => nomatch hnone
      rw [Option.map_some, loopEndOf] at hbody
      simpa [Stmt.code, Stmt.breaks, (condition.plain cursor.frame).loopExits_eq, jumpIfZero,
        Instruction.jump?] using hbody
  | .returnValue _ none, cursor, _ => by
      simp [Stmt.code, Stmt.breaks, returnCode, Instruction.jump?]
  | .returnValue _ (some value), cursor, _ => by
      simp [Stmt.code, Stmt.breaks, returnCode, Instruction.jump?,
        (value.plain cursor.frame).loopExits_eq]
  | .breakLoop _, cursor, h => by
      cases enclosing with
      -- a `break` outside of all loops has no code, which the hypothesis rules out
      | none => exact (h rfl).elim
      | some serial => simp [Stmt.code, Stmt.breaks, Instruction.jump?]

theorem Block.loopExits_code (enclosing : Option Nat) : (block : Block) → (cursor : Cursor) →
    (enclosing = none → block.BreaksInLoops) →
    (loopExits (block.code (enclosing.map loopEndOf) cursor)).map some =
      (block.breaks enclosing cursor).map (Option.map loopEndOf)
  | ⟨_, statements⟩, cursor, h => loopExits_codeAll enclosing statements (cursor.skip 1) h

theorem loopExits_codeAll (enclosing : Option Nat) : (statements : List Stmt) →
    (cursor : Cursor) → (enclosing = none → AllBreaksInLoops statements) →
    (loopExits (codeAll (enclosing.map loopEndOf) statements cursor)).map some =
      (breaksAll enclosing statements cursor).map (Option.map loopEndOf)
  | [], _, _ => rfl
  | statement :: statements, cursor, h => by
      have hfirst := statement.loopExits_code enclosing cursor fun hnone => (h hnone).1
      have hrest := loopExits_codeAll enclosing statements (statement.after cursor)
        fun hnone => (h hnone).2
      simp [codeAll, breaksAll, hfirst, hrest]

end

/-! ## Functions -/

namespace FunctionDefinition

variable (definition : FunctionDefinition) (serial : Nat)

/-- The `break`s of the function with a number. -/
def breaks : List (Option Nat) := definition.body.breaks none (definition.start serial)

theorem loopExits_code (h : definition.body.BreaksInLoops) :
    (loopExits (definition.code serial)).map some =
      (definition.breaks serial).map (Option.map loopEndOf) := by
  have hbody := definition.body.loopExits_code none (definition.start serial) fun _ => h
  simpa [code, breaks, (plain_prologue _).loopExits_eq, (Frame.plain_comments _).loopExits_eq,
    epilogue, Instruction.jump?] using hbody

end FunctionDefinition

end MiniC
