import MiniC.Codegen.Generate
import MiniC.Proofs.Emission.Operations

/-!
# Code generation does not read the options

The options are kept in the emission from the start and are first read when it is
assembled.  So every operation commutes with a change of the options
(`Emit.Oblivious`), and the emission of a tree is the same for all options up to the
options that it holds (`emissionOfTree_setOptions`).

The induction is on the tree.  It needs nothing of the emission that the generation
starts from, for a computation that fails does so with any options.
-/

namespace MiniC

namespace Emission

/-- An emission with other options. -/
def setOptions (options : Asm.Options) (emission : Emission) : Emission :=
  { emission with options }

@[simp] theorem setOptions_empty (options old : Asm.Options) :
    (empty old).setOptions options = empty options := rfl

@[simp] theorem setOptions_setOptions (options old : Asm.Options) (emission : Emission) :
    (emission.setOptions old).setOptions options = emission.setOptions options := rfl

end Emission

namespace Emit

open Emission
open Asm (Instruction)

variable {α β : Type}

/-- How a computation ends, with other options in the emission. -/
def withOptions (options : Asm.Options) :
    EStateM.Result Error Emission α → EStateM.Result Error Emission α
  | .ok value emission => .ok value (emission.setOptions options)
  | .error error emission => .error error (emission.setOptions options)

/-- A computation neither reads nor changes the options: with others it ends in the
same way, and those are kept. -/
def Oblivious (action : Emit α) : Prop :=
  ∀ (options : Asm.Options) (emission : Emission),
    action (emission.setOptions options) = withOptions options (action emission)

namespace Oblivious

/-! ## Steps -/

theorem pure (value : α) : Oblivious (Pure.pure value : Emit α) := fun _ _ => rfl

theorem throw (error : Error) : Oblivious (MonadExcept.throw error : Emit α) := fun _ _ => rfl

theorem bind {action : Emit α} {next : α → Emit β} (h : Oblivious action)
    (hnext : ∀ value, Oblivious (next value)) : Oblivious (action >>= next) := by
  intro options emission
  simp only [Bind.bind, EStateM.bind, h options emission]
  cases action emission with
  | ok value after => exact hnext value options after
  | error error after => rfl

theorem discard {action : Emit α} (h : Oblivious action) : Oblivious (discard action) :=
  h.bind fun _ => .pure ()

theorem ask {question : Emission → Except Error α}
    (h : ∀ options emission, question (setOptions options emission) = question emission) :
    Oblivious (Emit.ask question) := by
  intro options emission
  simp only [Emit.ask, h]
  cases question emission <;> rfl

theorem require {question : Emission → Except Error α}
    (h : ∀ options emission, question (setOptions options emission) = question emission) :
    Oblivious (Emit.require question) :=
  .ask fun options emission => by rw [h]

theorem update {change : Emission → Emission}
    (h : ∀ options emission,
      change (setOptions options emission) = setOptions options (change emission)) :
    Oblivious (Emit.update change) := by
  intro options emission
  exact congrArg (EStateM.Result.ok ()) (h options emission)

theorem push (parent : Nat) (body : Nat → Body) : Oblivious (Emit.push parent body) :=
  fun _ _ => rfl

/-! ## Operations -/

theorem create (kind : Kind) (parent : Nat) : Oblivious (Emit.create kind parent) := by
  have hnode : Oblivious (Emit.require (·.node parent)) := .require fun _ _ => rfl
  cases kind with
  | leaf | conditional | loop | compound => exact hnode.bind fun _ => .push _ _
  | file | function => exact .throw _

theorem createFunction (name : String) : Oblivious (Emit.createFunction name) := .push _ _

theorem enter (id : Nat) : Oblivious (Emit.enter id) :=
  .bind (.require fun _ _ => rfl) fun _ => .update fun _ _ => rfl

theorem leave (id : Nat) : Oblivious (Emit.leave id) :=
  .bind (.ask fun _ _ => rfl) fun _ => .update fun _ _ => rfl

theorem addChild (parent : Nat) (context : Context) (child : Nat) :
    Oblivious (Emit.addChild parent context child) :=
  .bind (.require fun _ _ => rfl) fun _ => .bind (.require fun _ _ => rfl) fun _ =>
    .update fun _ _ => rfl

theorem add (id : Nat) (instruction : Instruction) : Oblivious (Emit.add id instruction) :=
  .bind (.require fun _ _ => rfl) fun _ => .update fun _ _ => rfl

theorem addAll (id : Nat) (instructions : List Instruction) :
    Oblivious (Emit.addAll id instructions) := by
  induction instructions with
  | nil => exact .pure ()
  | cons instruction instructions ih => exact (add id instruction).bind fun _ => ih

theorem absorb (target source : Nat) : Oblivious (Emit.absorb target source) :=
  .bind (.ask fun _ _ => rfl) fun _ => .bind (.require fun _ _ => rfl) fun _ =>
    .update fun _ _ => rfl

theorem addLine (parent : Nat) (context : Context) (instruction : Instruction) :
    Oblivious (Emit.addLine parent context instruction) :=
  (create _ parent).bind fun leaf => (add leaf instruction).bind fun _ =>
    addChild parent context leaf

/-- A choice between two computations. -/
theorem ite {first second : Emit α} (condition : Prop) [Decidable condition]
    (hfirst : Oblivious first) (hsecond : Oblivious second) :
    Oblivious (if condition then first else second) := by
  split
  · exact hfirst
  · exact hsecond

theorem declareVariable (name : String) (value : Option Int32) :
    Oblivious (Emit.declareVariable name value) :=
  .bind (.ask fun _ _ => rfl) fun known => .ite (known = true) (.pure false) <|
    .bind (.update fun _ _ => rfl) fun _ => .bind (addLine _ _ _) fun _ => .pure true

theorem registerFunction (name : String) : Oblivious (Emit.registerFunction name) :=
  .bind (.ask fun _ _ => rfl) fun known => .ite (known = true) (.pure false) <|
    .bind (.update fun _ _ => rfl) fun _ => .pure true

theorem declareFunction (name : String) (arity : Nat) :
    Oblivious (Emit.declareFunction name arity) :=
  (registerFunction name).bind fun isNew => .ite (isNew = true)
    (.bind (addLine _ _ _) fun _ => .pure true) (.pure false)

theorem declareInFrame (function : Nat) (add : Frame → Int32 × Bool × Frame)
    (comment : Int32 → Instruction) : Oblivious (Emit.declareInFrame function add comment) := by
  refine .bind (.ask fun _ _ => rfl) ?_
  rintro ⟨offset, isNew, frame⟩
  exact .ite (isNew = true)
    (.bind (.update fun _ _ => rfl) fun _ => .bind (addLine _ _ _) fun _ => .pure offset)
    (.pure offset)

theorem declareParameter (function : Nat) (name : String) :
    Oblivious (Emit.declareParameter function name) := by
  rw [declareParameter_eq]
  exact declareInFrame function _ _

theorem declareLocal (function : Nat) (name : String) :
    Oblivious (Emit.declareLocal function name) := by
  rw [declareLocal_eq]
  exact declareInFrame function _ _

end Oblivious

end Emit

namespace Codegen

open Ast (Arena Tree)
open Asm (Register)
open Emit (Oblivious)

theorem oblivious_blank (scope : Scope) : Oblivious (blank scope) := .create _ _

/-! ## Trees -/

mutual

/-- **Code generation does not read the options.** -/
theorem oblivious_generate (scope : Scope) : (tree : Tree) → Oblivious (generate scope tree)
  | .node kind location first second third => by
      unfold generate
      cases kind with
      | compileUnit => exact (oblivious_generateItems scope first).bind fun _ => .pure _
      | functionDefinition name returnType =>
          refine .bind (.discard (.registerFunction name)) fun _ =>
            .bind (.createFunction name) fun function => .bind (.enter function) fun _ => ?_
          refine .bind (oblivious_generateAll _ first) fun _ =>
            .bind (oblivious_generateInto _ function _ second) fun _ =>
            .bind (oblivious_generateInto _ function _ third) fun _ => ?_
          exact .bind (.leave function) fun _ => .pure function
      | functionDeclaration name returnType =>
          exact .bind (.discard (.declareFunction _ _)) fun _ => oblivious_blank scope
      | globalDeclaration =>
          refine .bind (.ask fun _ _ => rfl) ?_
          rintro ⟨name, others⟩
          exact .bind (.ask fun _ _ => rfl) fun _ =>
            .bind (.discard (.declareVariable _ _)) fun _ => oblivious_blank scope
      | localDeclaration =>
          refine .bind (.ask fun _ _ => rfl) fun function => .bind (.ask fun _ _ => rfl) ?_
          rintro ⟨name, others⟩
          refine .bind (oblivious_generateInitializer scope first) fun value =>
            .bind (.declareLocal function name) fun offset => .bind (.create _ _) fun leaf => ?_
          cases value with
          | none => exact .pure leaf
          | some value =>
              exact .bind (.absorb leaf value) fun _ => .bind (.add leaf _) fun _ => .pure leaf
      | block =>
          exact .bind (.create _ _) fun compound => .bind (.enter compound) fun _ =>
            .bind (oblivious_generateInto _ compound _ first) fun _ =>
            .bind (.leave compound) fun _ => .pure compound
      | ifStatement =>
          refine .ite _ (.throw _) (.bind (.create _ _) fun conditional => ?_)
          exact .bind (oblivious_generateInto _ conditional _ first) fun _ =>
            .bind (oblivious_generateInto _ conditional _ second) fun _ =>
            .bind (oblivious_generateInto _ conditional _ third) fun _ => .pure conditional
      | whileStatement =>
          refine .ite _ (.throw _) (.bind (.create _ _) fun loop => ?_)
          exact .bind (.ask fun _ _ => rfl) fun loopEnd =>
            .bind (oblivious_generateInto _ loop _ first) fun _ =>
            .bind (oblivious_generateInto _ loop _ second) fun _ => .pure loop
      | returnStatement =>
          refine .bind (.ask fun _ _ => rfl) fun function => .bind (.create _ _) fun leaf => ?_
          -- the jump is the same with a value and without one
          have jump : Oblivious (do
              let frame ← Emit.ask (·.frame function)
              Emit.add leaf (.jmp frame.exitLabel)
              return leaf) :=
            .bind (.ask fun _ _ => rfl) fun frame => .bind (.add leaf _) fun _ => .pure leaf
          cases first with
          | nil => exact jump
          | cons value others =>
              exact .bind (oblivious_generate scope value) fun code =>
                .bind (.absorb leaf code) fun _ => jump
      | breakStatement =>
          cases scope.loopEnd with
          | none => exact .throw _
          | some loopEnd =>
              exact .bind (.create _ _) fun leaf => .bind (.add leaf _) fun _ => .pure leaf
      | binary op =>
          match first, second with
          | [], _ | _ :: _, [] => exact .throw _
          | left :: _, right :: _ =>
              refine .bind (.create _ _) fun leaf =>
                .bind (oblivious_generate scope left) fun code => .bind (.absorb leaf code) fun _ =>
                .bind (.add leaf _) fun _ => ?_
              exact .bind (oblivious_generate scope right) fun code =>
                .bind (.absorb leaf code) fun _ => .bind (.add leaf _) fun _ =>
                .bind (.addAll leaf _) fun _ => .pure leaf
      | unary op =>
          match first with
          | [] => exact .throw _
          | operand :: _ =>
              exact .bind (.create _ _) fun leaf =>
                .bind (oblivious_generate scope operand) fun code =>
                .bind (.absorb leaf code) fun _ => .bind (.addAll leaf _) fun _ => .pure leaf
      | assignment =>
          match first, second with
          | [], _ | _ :: _, [] => exact .throw _
          | target :: _, value :: _ =>
              refine .bind (.ask fun _ _ => rfl) fun name => .bind (.create _ _) fun leaf =>
                .bind (oblivious_generate scope value) fun code =>
                .bind (.absorb leaf code) fun _ => ?_
              exact .bind (.ask fun _ _ => rfl) fun place => .bind (.add leaf _) fun _ => .pure leaf
      | call name =>
          exact .bind (.create _ _) fun leaf =>
            .bind (oblivious_generateLists scope leaf first) fun _ =>
            .bind (.add leaf _) fun _ => .bind (.addAll leaf _) fun _ => .pure leaf
      | number value =>
        exact .bind (.create _ _) fun leaf => .bind (.add leaf _) fun _ => .pure leaf
      | identifier name =>
          exact .bind (.ask fun _ _ => rfl) fun place => .bind (.create _ _) fun leaf =>
            .bind (.add leaf _) fun _ => .pure leaf
      | parameter name type =>
          exact .bind (.ask fun _ _ => rfl) fun function =>
            .bind (.discard (.declareParameter function name)) fun _ => oblivious_blank scope
      | parameterList =>
          exact .bind (oblivious_generateAll scope first) fun _ => oblivious_blank scope
      | typeSpecifier | argumentList => exact oblivious_blank scope

theorem oblivious_generateAll (scope : Scope) : (trees : List Tree) →
    Oblivious (generateAll scope trees)
  | [] => by rw [generateAll]; exact .pure ()
  | tree :: trees => by
      rw [generateAll]
      exact .bind (.discard (oblivious_generate scope tree)) fun _ =>
        oblivious_generateAll scope trees

theorem oblivious_generateInto (scope : Scope) (composite : Nat) (context : Emission.Context) :
    (trees : List Tree) → Oblivious (generateInto scope composite context trees)
  | [] => by rw [generateInto]; exact .pure ()
  | tree :: trees => by
      rw [generateInto]
      exact .bind (oblivious_generate scope tree) fun code =>
        .bind (.addChild composite context code) fun _ =>
        oblivious_generateInto scope composite context trees

theorem oblivious_generateItems (scope : Scope) : (trees : List Tree) →
    Oblivious (generateItems scope trees)
  | [] => by rw [generateItems]; exact .pure ()
  | tree :: trees => by
      rw [generateItems]
      exact .bind (oblivious_generate scope tree) fun code => .bind (.addChild _ _ code) fun _ =>
        oblivious_generateItems scope trees

theorem oblivious_generateLists (scope : Scope) (leaf : Nat) : (lists : List Tree) →
    Oblivious (generateLists scope leaf lists)
  | [] => by rw [generateLists]; exact .pure ()
  | .node _ _ arguments _ _ :: lists => by
      rw [generateLists]
      exact .bind (oblivious_generateLists scope leaf lists) fun _ =>
        oblivious_generateArguments scope leaf arguments

theorem oblivious_generateArguments (scope : Scope) (leaf : Nat) : (arguments : List Tree) →
    Oblivious (generateArguments scope leaf arguments)
  | [] => by rw [generateArguments]; exact .pure ()
  | argument :: arguments => by
      rw [generateArguments]
      exact .bind (oblivious_generateArguments scope leaf arguments) fun _ =>
        .bind (oblivious_generate scope argument) fun code =>
        .bind (.absorb leaf code) fun _ => .add leaf _

theorem oblivious_generateInitializer (scope : Scope) : (parts : List Tree) →
    Oblivious (generateInitializer scope parts)
  | [] => by rw [generateInitializer]; exact .pure none
  | part :: parts => by
      rw [generateInitializer]
      exact .ite _ (oblivious_generateInitializer scope parts) (oblivious_generateValue scope parts)

theorem oblivious_generateValue (scope : Scope) : (parts : List Tree) →
    Oblivious (generateValue scope parts)
  | [] => by rw [generateValue]; exact .pure none
  | part :: parts => by
      rw [generateValue]
      exact .ite _ (oblivious_generateValue scope parts)
        (.bind (oblivious_generate scope part) fun code => .pure (some code))

end

/-- The emission of a tree with other options, if there is one. -/
theorem emissionOfTree_setOptions (options old : Asm.Options) (tree : Tree) :
    emissionOfTree options tree = (emissionOfTree old tree).map (·.setOptions options) := by
  have hgenerate : (generate Scope.file tree).run (Emission.empty options) =
      Emit.withOptions options ((generate Scope.file tree).run (Emission.empty old)) :=
    oblivious_generate Scope.file tree options (Emission.empty old)
  unfold emissionOfTree
  split
  · rw [hgenerate]
    cases (generate Scope.file tree).run (Emission.empty old) <;> rfl
  · rfl

theorem emissionOfArena_setOptions (options old : Asm.Options) (arena : Arena) :
    emissionOfArena options arena = (emissionOfArena old arena).map (·.setOptions options) := by
  unfold emissionOfArena
  split
  · exact emissionOfTree_setOptions options old _
  · rfl

end Codegen

end MiniC
