import MiniC.Codegen.Scope

/-!
# Code generation

The code of a syntax tree is generated in one walk over the tree.  The code of a
node of the tree is an emission node, which the caller puts where it belongs.

Every expression leaves its value in `eax`.  A binary operator keeps the left
operand on the stack while the right one is computed.  Arguments are pushed
from the last to the first, and the caller takes them off the stack.  The
initial value of a local is computed before the local is declared, so that it
still sees what the local hides.
-/

namespace MiniC.Codegen

open Ast (Arena Tree)
open Asm (Instruction Register)
open Emit

/-- A leaf for a node that stands for no code. -/
def blank (scope : Scope) : Emit Emission.Id := create (.leaf .other) scope.parent

mutual

/-- The emission node with the code of a tree. -/
def generate (scope : Scope) : Tree → Emit Emission.Id
  | .node kind location first second third =>
      match kind with
      | .compileUnit => do
          generateItems scope first
          return Emission.fileId
      | .functionDefinition name _ => do
          discard (registerFunction name)
          let function ← createFunction name
          enter function
          -- a loop around a function does not reach into it
          let inner : Scope := ⟨function, some function, none⟩
          generateAll inner first
          generateInto inner function .functionBody second
          generateInto inner function .functionBody third
          leave function
          return function
      | .functionDeclaration name _ => do
          discard (declareFunction name (listedCount first))
          blank scope
      | .globalDeclaration => do
          let (name, others) ← ask fun _ => declaredName location first
          let value ← ask fun _ => others.head?.mapM constantValue
          -- the line of the variable goes to the file and not to this node
          discard (declareVariable name value)
          blank scope
      | .localDeclaration => do
          let function ← ask fun _ => requireFunction scope location "local declaration"
          let (name, _) ← ask fun _ => declaredName location first
          -- before the name is declared, so that the value does not see it
          let value ← generateInitializer scope first
          let offset ← declareLocal function name
          let leaf ← create (.leaf .assignment) scope.parent
          if let some value := value then
            absorb leaf value
            add leaf (.mov (.frame offset) Register.eax)
          return leaf
      | .block => do
          let compound ← create .compound scope.parent
          enter compound
          generateInto (scope.under compound) compound .compoundBody first
          leave compound
          return compound
      | .ifStatement => do
          if first.isEmpty then throw ((Obstacle.missing kind.tag "condition").at location)
          let conditional ← create .conditional scope.parent
          let inner := scope.under conditional
          generateInto inner conditional .ifCondition first
          generateInto inner conditional .ifThen second
          generateInto inner conditional .ifElse third
          return conditional
      | .whileStatement => do
          if first.isEmpty then throw ((Obstacle.missing kind.tag "condition").at location)
          let loop ← create .loop scope.parent
          -- the label itself is laid when the loop is assembled
          let loopEnd ← ask (·.label loop "end")
          let inner := { scope.under loop with loopEnd := some loopEnd }
          generateInto inner loop .whileCondition first
          generateInto inner loop .whileBody second
          return loop
      | .returnStatement => do
          let function ← ask fun _ => requireFunction scope location "return"
          let leaf ← create (.leaf .result) scope.parent
          match first with
          | [] => pure ()
          | value :: _ => do
              let code ← generate scope value
              absorb leaf code
          let frame ← ask (·.frame function)
          add leaf (.jmp frame.exitLabel)
          return leaf
      | .breakStatement =>
          match scope.loopEnd with
          | none => throw (Obstacle.outsideLoop.at location)
          | some loopEnd => do
              let leaf ← create (.leaf .other) scope.parent
              add leaf (.jmp loopEnd)
              return leaf
      | .binary op =>
          match first, second with
          | [], _ => throw ((Obstacle.missing kind.tag "left operand").at location)
          | _, [] => throw ((Obstacle.missing kind.tag "right operand").at location)
          | left :: _, right :: _ => do
              let leaf ← create (.leaf .expression) scope.parent
              let code ← generate scope left
              absorb leaf code
              add leaf (.push Register.eax)
              let code ← generate scope right
              absorb leaf code
              add leaf (.pop .ebx)
              addAll leaf (binarySequence op)
              return leaf
      | .unary op =>
          match first with
          | [] => throw ((Obstacle.missing kind.tag "operand").at location)
          | operand :: _ => do
              let leaf ← create (.leaf .expression) scope.parent
              let code ← generate scope operand
              absorb leaf code
              addAll leaf (unarySequence op)
              return leaf
      | .assignment =>
          match first, second with
          | [], _ => throw ((Obstacle.missing kind.tag "target").at location)
          | _, [] => throw ((Obstacle.missing kind.tag "value").at location)
          | target :: _, value :: _ => do
              let name ← ask fun _ => identifierName target
              let leaf ← create (.leaf .assignment) scope.parent
              let code ← generate scope value
              absorb leaf code
              let place ← ask (resolve scope name)
              add leaf (.mov place.operand Register.eax)
              return leaf
      | .call name => do
          let leaf ← create (.leaf .expression) scope.parent
          generateLists scope leaf first
          add leaf (.call name)
          addAll leaf (dropArguments (listedCount first))
          return leaf
      | .number value => do
          let leaf ← create (.leaf .expression) scope.parent
          add leaf (.mov Register.eax (.immediate value))
          return leaf
      | .identifier name => do
          let place ← ask (resolve scope name)
          let leaf ← create (.leaf .expression) scope.parent
          add leaf (.mov Register.eax place.operand)
          return leaf
      | .parameter name _ => do
          let function ← ask fun _ => requireFunction scope location "parameter"
          discard (declareParameter function name)
          blank scope
      | .parameterList => do
          generateAll scope first
          blank scope
      | .typeSpecifier _ | .argumentList => blank scope

/-- Generates the code of trees for what they declare, and leaves it aside. -/
def generateAll (scope : Scope) : List Tree → Emit Unit
  | [] => pure ()
  | tree :: trees => do
      discard (generate scope tree)
      generateAll scope trees

/-- Appends the code of trees to a context of a composite. -/
def generateInto (scope : Scope) (composite : Emission.Id) (context : Emission.Context) :
    List Tree → Emit Unit
  | [] => pure ()
  | tree :: trees => do
      let code ← generate scope tree
      addChild composite context code
      generateInto scope composite context trees

/-- Appends the emission nodes of the items of a file to the file: those of
variables to its data section, and all others to its code section. -/
def generateItems (scope : Scope) : List Tree → Emit Unit
  | [] => pure ()
  | tree :: trees => do
      let code ← generate scope tree
      let context := if tree.kind = .globalDeclaration then .fileData else .fileCode
      addChild Emission.fileId context code
      generateItems scope trees

/-- Pushes the arguments in lists of them, from the last to the first. -/
def generateLists (scope : Scope) (leaf : Emission.Id) : List Tree → Emit Unit
  | [] => pure ()
  | .node _ _ arguments _ _ :: lists => do
      generateLists scope leaf lists
      generateArguments scope leaf arguments

/-- Pushes arguments, from the last to the first. -/
def generateArguments (scope : Scope) (leaf : Emission.Id) : List Tree → Emit Unit
  | [] => pure ()
  | argument :: arguments => do
      generateArguments scope leaf arguments
      let code ← generate scope argument
      absorb leaf code
      add leaf (.push Register.eax)

/-- The code of the initial value among the parts of a declaration: the
part after the name, types not counted. -/
def generateInitializer (scope : Scope) : List Tree → Emit (Option Emission.Id)
  | [] => pure none
  | part :: parts =>
      if part.kind.isType then generateInitializer scope parts else generateValue scope parts

/-- The code of the first part that is no type. -/
def generateValue (scope : Scope) : List Tree → Emit (Option Emission.Id)
  | [] => pure none
  | part :: parts =>
      if part.kind.isType then generateValue scope parts
      else do
        let code ← generate scope part
        return some code

end

/-- The emission of a syntax tree whose root is a compile unit. -/
def emissionOfTree (options : Asm.Options) (tree : Tree) : Except Error Emission :=
  if tree.kind = .compileUnit then
    match (generate Scope.file tree).run (Emission.empty options) with
    | .ok _ emission => .ok emission
    | .error error _ => .error error
  else .error ((Obstacle.notCompileUnit tree.kind).at tree.location)

/-- The emission of the tree below the root of an arena. -/
def emissionOfArena (options : Asm.Options) (arena : Arena) : Except Error Emission :=
  match arena.root >>= arena.tree? with
  | some tree => emissionOfTree options tree
  | none => .error (.internal "AST has no compile unit root")

/-- The assembly text of the tree below the root of an arena. -/
def assembly (options : Asm.Options) (arena : Arena) : Except Error String := do
  (← emissionOfArena options arena).text

end MiniC.Codegen
