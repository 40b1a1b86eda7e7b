import MiniC.Proofs.Meaning.Expression

/-!
# What statements do

An interpreter of statements.  A statement ends in the normal way, at a `break` or at
a `return`; it has a fault if an expression in it has no value, and it is unfinished
if some loop in it would go on after as many rounds as the budget allows.

Names are looked up in the frame with the names declared so far in the text of the
function, whatever path the execution takes.  A block hides nothing: what is declared
in it is declared from there to the end of the function.
-/

namespace MiniC

/-- How a statement ends. -/
inductive Ending where
  | normal (world : World)
  | broke (world : World)
  | returned (value : Option Int32) (world : World)
  /-- An expression has no value. -/
  | fault
  /-- The budget is used up. -/
  | unfinished

namespace Ending

/-- Goes on after a normal end. -/
def andThen (ending : Ending) (next : World → Ending) : Ending :=
  match ending with
  | normal world => next world
  | other => other

/-- Goes on with a value, if there is one. -/
def ofValue (outcome : Option (Int32 × World)) (next : Int32 → World → Ending) : Ending :=
  match outcome with
  | some (value, world) => next value world
  | none => fault

/-- Goes around a loop while a test has a value other than zero, as often as a budget
allows. -/
def iterate (test : World → Option (Int32 × World)) (body : World → Ending) :
    Nat → World → Ending
  | 0, _ => unfinished
  | budget + 1, world =>
      ofValue (test world) fun value world =>
        if value = 0 then normal world
        else
          match body world with
          | normal world => iterate test body budget world
          | broke world => normal world
          | other => other

/-- What a function has come to at the end of its body: the value that is returned, if
any, and the world. -/
def finished? : Ending → Option (Option Int32 × World)
  | normal world => some (none, world)
  | returned value world => some (value, world)
  | broke _ | fault | unfinished => none

end Ending

/-! ## Declared names -/

/-- The frame after a declaration. -/
def Declaration.frameAfter (declaration : Declaration) (frame : Frame) : Frame :=
  (frame.addLocal declaration.name).2.2

mutual

/-- The frame after a statement. -/
def Stmt.frameAfter : Stmt → Frame → Frame
  | .declaration declared, frame => declared.frameAfter frame
  | .block block, frame => block.frameAfter frame
  | .ifElse _ _ thenBlock elseBlock, frame =>
      match elseBlock with
      | none => thenBlock.frameAfter frame
      | some block => block.frameAfter (thenBlock.frameAfter frame)
  | .whileLoop _ _ body, frame => body.frameAfter frame
  | .expression _, frame | .returnValue _ _, frame | .breakLoop _, frame => frame

/-- The frame after a block. -/
def Block.frameAfter : Block → Frame → Frame
  | ⟨_, statements⟩, frame => frameAfterAll statements frame

/-- The frame after statements. -/
def frameAfterAll : List Stmt → Frame → Frame
  | [], frame => frame
  | statement :: statements, frame => frameAfterAll statements (statement.frameAfter frame)

end

/-! ## Running -/

section Run

variable (oracle : Oracle) (budget : Nat)

/-- The initial value is computed before the name is declared. -/
def Declaration.run (declaration : Declaration) (frame : Frame) (world : World) : Ending :=
  match declaration.initializer with
  | none => .normal world
  | some value =>
      .ofValue (value.evaluate oracle frame world) fun value world =>
        .normal (world.set ((declaration.frameAfter frame).resolve declaration.name) value)

mutual

/-- What a statement does. -/
def Stmt.run : Stmt → Frame → World → Ending
  | .expression value, frame, world =>
      .ofValue (value.evaluate oracle frame world) fun _ world => .normal world
  | .declaration declared, frame, world => declared.run oracle frame world
  | .block block, frame, world => block.run frame world
  | .ifElse _ condition thenBlock elseBlock, frame, world =>
      .ofValue (condition.evaluate oracle frame world) fun value world =>
        if value = 0 then
          match elseBlock with
          | none => .normal world
          | some block => block.run (thenBlock.frameAfter frame) world
        else thenBlock.run frame world
  | .whileLoop _ condition body, frame, world =>
      .iterate (condition.evaluate oracle frame) (fun world => body.run frame world) budget world
  | .returnValue _ value, frame, world =>
      match value with
      | none => .returned none world
      | some value =>
          .ofValue (value.evaluate oracle frame world) fun value world =>
            .returned (some value) world
  | .breakLoop _, _, world => .broke world

/-- What a block does. -/
def Block.run : Block → Frame → World → Ending
  | ⟨_, statements⟩, frame, world => runAll statements frame world

/-- What statements do one after another. -/
def runAll : List Stmt → Frame → World → Ending
  | [], _, world => .normal world
  | statement :: statements, frame, world =>
      (statement.run frame world).andThen fun world =>
        runAll statements (statement.frameAfter frame) world

end

end Run

/-! ## Larger budgets -/

/-- A run with a larger budget ends in the same way, unless the smaller one was used up. -/
def Ending.Persists (ending later : Ending) : Prop := ending = .unfinished ∨ later = ending

namespace Ending.Persists

variable {ending later : Ending}

protected theorem refl (ending : Ending) : ending.Persists ending := .inr rfl

theorem andThen {next laterNext : World → Ending} (h : ending.Persists later)
    (hnext : ∀ world, (next world).Persists (laterNext world)) :
    (ending.andThen next).Persists (later.andThen laterNext) := by
  rcases h with rfl | rfl
  · exact .inl rfl
  · cases later with
    | normal world => exact hnext world
    | broke | returned | fault | unfinished => exact .refl _

theorem ofValue {outcome : Option (Int32 × World)} {next laterNext : Int32 → World → Ending}
    (hnext : ∀ value world, (next value world).Persists (laterNext value world)) :
    (Ending.ofValue outcome next).Persists (.ofValue outcome laterNext) := by
  cases outcome with
  | none => exact .refl _
  | some answer => exact hnext answer.1 answer.2

/-- The rounds that a loop has made stay, and there may be more of them. -/
theorem iterate {test : World → Option (Int32 × World)} {body laterBody : World → Ending}
    (hbody : ∀ world, (body world).Persists (laterBody world)) {budget more : Nat}
    (hle : budget ≤ more) (world : World) :
    (Ending.iterate test body budget world).Persists (.iterate test laterBody more world) := by
  induction budget generalizing more world with
  | zero => exact .inl rfl
  | succ budget ih =>
      obtain ⟨more, rfl⟩ : ∃ rest, more = rest + 1 := ⟨more - 1, by omega⟩
      apply ofValue
      intro value world
      split
      next => exact .refl _
      next =>
        -- a round that uses up its budget ends the loop, any other is the same with both
        rcases hbody world with hround | hround
        · rw [hround]
          exact .inl rfl
        · rw [hround]
          cases body world with
          | normal world => exact ih (Nat.le_of_succ_le_succ hle) world
          | broke | returned | fault | unfinished => exact .refl _

end Ending.Persists

section Budget

variable {oracle : Oracle} {budget more : Nat}

mutual

theorem Stmt.run_persists (hle : budget ≤ more) : (statement : Stmt) → (frame : Frame) →
    (world : World) →
    (statement.run oracle budget frame world).Persists (statement.run oracle more frame world)
  | .expression _, _, _ | .declaration _, _, _ | .returnValue _ _, _, _ | .breakLoop _, _, _ =>
      .refl _
  | .block block, frame, world => block.run_persists hle frame world
  | .ifElse _ _ thenBlock none, frame, world => by
      refine .ofValue ?_
      intro value world
      split
      next => exact .refl _
      next => exact thenBlock.run_persists hle frame world
  | .ifElse _ _ thenBlock (some elseBlock), frame, world => by
      refine .ofValue ?_
      intro value world
      split
      next => exact elseBlock.run_persists hle (thenBlock.frameAfter frame) world
      next => exact thenBlock.run_persists hle frame world
  | .whileLoop _ _ body, frame, world =>
      .iterate (fun world => body.run_persists hle frame world) hle world

theorem Block.run_persists (hle : budget ≤ more) : (block : Block) → (frame : Frame) →
    (world : World) →
    (block.run oracle budget frame world).Persists (block.run oracle more frame world)
  | ⟨_, statements⟩, frame, world => runAll_persists hle statements frame world

theorem runAll_persists (hle : budget ≤ more) : (statements : List Stmt) → (frame : Frame) →
    (world : World) →
    (runAll oracle budget statements frame world).Persists
      (runAll oracle more statements frame world)
  | [], _, _ => .refl _
  | statement :: statements, frame, world =>
      (statement.run_persists hle frame world).andThen fun world =>
        runAll_persists hle statements (statement.frameAfter frame) world

end

end Budget

/-! ## Expressions in statements -/

mutual

/-- The expressions in a statement, each with the frame that its names are looked up
in. -/
def Stmt.expressions : Stmt → Frame → List (Frame × Expr)
  | .expression value, frame => [(frame, value)]
  | .declaration declared, frame => (declared.initializer.map ((frame, ·))).toList
  | .block block, frame => block.expressions frame
  | .ifElse _ condition thenBlock elseBlock, frame =>
      (frame, condition) :: thenBlock.expressions frame ++
        match elseBlock with
        | none => []
        | some block => block.expressions (thenBlock.frameAfter frame)
  | .whileLoop _ condition body, frame => (frame, condition) :: body.expressions frame
  | .returnValue _ value, frame => (value.map ((frame, ·))).toList
  | .breakLoop _, _ => []

/-- The expressions in a block. -/
def Block.expressions : Block → Frame → List (Frame × Expr)
  | ⟨_, statements⟩, frame => expressionsIn statements frame

/-- The expressions in statements. -/
def expressionsIn : List Stmt → Frame → List (Frame × Expr)
  | [], _ => []
  | statement :: statements, frame =>
      statement.expressions frame ++ expressionsIn statements (statement.frameAfter frame)

end

/-! ## Functions -/

namespace FunctionDefinition

variable (definition : FunctionDefinition)

/-- The frame of a function with its parameters. -/
def parameterFrame : Frame :=
  ((definition.parameters.map (·.parameters)).getD []).foldl
    (fun frame parameter => (frame.addParameter parameter.name).2.2) { name := definition.name }

/-- The frame of a function with all its names. -/
def frame : Frame := definition.body.frameAfter definition.parameterFrame

/-- The expressions in a function. -/
def expressions : List (Frame × Expr) := definition.body.expressions definition.parameterFrame

/-- What a function does, from a world with the arguments in the places of the
parameters. -/
def run (oracle : Oracle) (budget : Nat) (world : World) : Ending :=
  definition.body.run oracle budget definition.parameterFrame world

/-- What a function comes to does not depend on the budget. -/
theorem finished?_unique {oracle : Oracle} {budget other : Nat} {world : World}
    {outcome outcomeOther : Option Int32 × World}
    (h : (definition.run oracle budget world).finished? = some outcome)
    (hother : (definition.run oracle other world).finished? = some outcomeOther) :
    outcome = outcomeOther := by
  have hlarger : ∀ {budget more : Nat} {outcome : Option Int32 × World}, budget ≤ more →
      (definition.run oracle budget world).finished? = some outcome →
      (definition.run oracle more world).finished? = some outcome := by
    intro budget more outcome hle hfinished
    rcases definition.body.run_persists hle definition.parameterFrame world with hending | hending
    · rw [run, hending] at hfinished
      cases hfinished
    · rw [run, hending]
      exact hfinished
  -- the larger of the two budgets comes to what the smaller one came to
  rcases Nat.le_total budget other with hle | hle
  · exact Option.some.inj ((hlarger hle h).symm.trans hother)
  · exact Option.some.inj (h.symm.trans (hlarger hle hother))

end FunctionDefinition

end MiniC
