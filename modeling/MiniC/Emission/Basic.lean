import MiniC.Asm.Buffer
import MiniC.Emission.Kind
import MiniC.Symbols.Frame
import MiniC.Symbols.Globals

/-!
# Emissions

An `Emission` is the file under construction: its emission nodes, numbered in
the order of creation from the file itself, the names that the file has
declared, and the options.

The operations run in the monad `Emit`, whose state stays what it was when an
operation fails.  Each of them checks all that it needs before it changes
anything.
-/

namespace MiniC

namespace Emission

open Asm (Buffer Instruction)

/-- The number of an emission node. -/
abbrev Id := Nat

/-- What a node holds. -/
inductive Body where
  | leaf (sort : Leaf) (buffer : Buffer)
  | file (data code : List Id)
  | function (header body : List Id) (frame : Frame)
  | conditional (condition thenPart elsePart : List Id)
  | loop (condition body : List Id)
  | compound (body : List Id)

namespace Body

/-- The kind of the node that holds a body. -/
def kind : Body → Kind
  | .leaf sort _ => .leaf sort
  | .file _ _ => .file
  | .function _ _ _ => .function
  | .conditional _ _ _ => .conditional
  | .loop _ _ => .loop
  | .compound _ => .compound

/-- The child nodes in each context, in the order of the contexts. -/
def lists : Body → List (Context × List Id)
  | .leaf _ _ => []
  | .file data code => [(.fileData, data), (.fileCode, code)]
  | .function header body _ => [(.functionHeader, header), (.functionBody, body)]
  | .conditional condition thenPart elsePart =>
      [(.ifCondition, condition), (.ifThen, thenPart), (.ifElse, elsePart)]
  | .loop condition body => [(.whileCondition, condition), (.whileBody, body)]
  | .compound body => [(.compoundBody, body)]

/-- The child nodes in a context, if the body has it. -/
def children? (body : Body) (context : Context) : Option (List Id) := body.lists.lookup context

/-- A body with one more child node at the end of a context.  A context that
the body does not have is left out. -/
def append (child : Id) : Context → Body → Body
  | .fileData, .file data code => .file (data ++ [child]) code
  | .fileCode, .file data code => .file data (code ++ [child])
  | .functionHeader, .function header body frame => .function (header ++ [child]) body frame
  | .functionBody, .function header body frame => .function header (body ++ [child]) frame
  | .ifCondition, .conditional condition thenPart elsePart =>
      .conditional (condition ++ [child]) thenPart elsePart
  | .ifThen, .conditional condition thenPart elsePart =>
      .conditional condition (thenPart ++ [child]) elsePart
  | .ifElse, .conditional condition thenPart elsePart =>
      .conditional condition thenPart (elsePart ++ [child])
  | .whileCondition, .loop condition body => .loop (condition ++ [child]) body
  | .whileBody, .loop condition body => .loop condition (body ++ [child])
  | .compoundBody, .compound body => .compound (body ++ [child])
  | _, body => body

/-- The lists of a body are those that its kind declares, in order. -/
@[simp] theorem map_fst_lists (body : Body) : body.lists.map Prod.fst = body.kind.contexts := by
  cases body <;> rfl

@[simp] theorem kind_append (child : Id) (context : Context) (body : Body) :
    (body.append child context).kind = body.kind := by
  cases context <;> cases body <;> rfl

end Body

/-- A node of an emission. -/
structure Node where
  parent : Option Id
  /-- The nesting at which the node was created, where its own lines start. -/
  base : Nat
  /-- The nesting now, which nodes created under this one start from. -/
  nesting : Nat
  body : Body

namespace Node

/-- What a node stands for. -/
def kind (node : Node) : Kind := node.body.kind

/-- A node whose lines are changed, if it is a leaf. -/
def mapBuffer (change : Buffer → Buffer) (node : Node) : Node :=
  match node with
  | ⟨parent, base, nesting, .leaf sort buffer⟩ =>
      ⟨parent, base, nesting, .leaf sort (change buffer)⟩
  | _ => node

/-- A node with another frame, if it is a function. -/
def setFrame (frame : Frame) (node : Node) : Node :=
  match node with
  | ⟨parent, base, nesting, .function header body _⟩ =>
      ⟨parent, base, nesting, .function header body frame⟩
  | _ => node

section Changes

variable (change : Buffer → Buffer) (frame : Frame) (node : Node)

@[simp] theorem parent_mapBuffer : (node.mapBuffer change).parent = node.parent := by
  unfold mapBuffer
  split <;> rfl

@[simp] theorem base_mapBuffer : (node.mapBuffer change).base = node.base := by
  unfold mapBuffer
  split <;> rfl

@[simp] theorem nesting_mapBuffer : (node.mapBuffer change).nesting = node.nesting := by
  unfold mapBuffer
  split <;> rfl

@[simp] theorem kind_mapBuffer : (node.mapBuffer change).kind = node.kind := by
  unfold mapBuffer
  split <;> rfl

@[simp] theorem lists_mapBuffer : (node.mapBuffer change).body.lists = node.body.lists := by
  unfold mapBuffer
  split <;> rfl

@[simp] theorem parent_setFrame : (node.setFrame frame).parent = node.parent := by
  unfold setFrame
  split <;> rfl

@[simp] theorem base_setFrame : (node.setFrame frame).base = node.base := by
  unfold setFrame
  split <;> rfl

@[simp] theorem nesting_setFrame : (node.setFrame frame).nesting = node.nesting := by
  unfold setFrame
  split <;> rfl

@[simp] theorem kind_setFrame : (node.setFrame frame).kind = node.kind := by
  unfold setFrame
  split <;> rfl

@[simp] theorem lists_setFrame : (node.setFrame frame).body.lists = node.body.lists := by
  unfold setFrame
  split <;> rfl

end Changes

/-- A node one nesting level deeper, with the lines that it gets from now on. -/
def enter (node : Node) : Node :=
  { node.mapBuffer Buffer.enter with nesting := node.nesting + 1 }

/-- A node one nesting level further out, with the lines that it gets from now
on; `name` reports that there is no level to leave. -/
def leave (name : String) (node : Node) : Except Error Node :=
  match node.nesting with
  | 0 => .error (.unbalanced name)
  | nesting + 1 =>
      match node.body with
      | .leaf sort buffer => do
          return { node with nesting, body := .leaf sort (← buffer.leave name) }
      | _ => .ok { node with nesting }

end Node

end Emission

/-- A file under construction. -/
structure Emission where
  nodes : Array Emission.Node
  globals : Globals
  options : Asm.Options

namespace Emission

open Asm (Buffer Instruction)

/-- The number of the node of the file itself. -/
def fileId : Id := 0

/-- A file without contents. -/
def empty (options : Asm.Options) : Emission :=
  { nodes := #[⟨none, 0, 0, .file [] []⟩], globals := {}, options }

/-- How an emission is used against its rules. -/
inductive Misuse where
  /-- A number that no node has. -/
  | foreign (id : Id)
  /-- A kind of which `create` makes no nodes. -/
  | notCreated (kind : Kind)
  | noContext (name : String) (context : Context)
  | notLeaf (name : String)
  | notFunction (name : String)
  /-- A composite that is below itself. -/
  | cyclic (name : String)

/-- The wording of a misuse. -/
def Misuse.message : Misuse → String
  | foreign id => "emission handle " ++ toString id ++ " is not part of this tree"
  | notCreated kind => kind.label ++ " nodes are not created through create()"
  | noContext name context => name ++ " has no " ++ context.text ++ " context"
  | notLeaf name => name ++ " is not a leaf"
  | notFunction name => name ++ " is not a function"
  | cyclic name => name ++ " contains itself"

/-- A misuse, as an error of the compiler. -/
def Misuse.toError (misuse : Misuse) : Error := .internal misuse.message

/-! ## Looking at nodes -/

variable (emission : Emission)

/-- A node. -/
def node (id : Id) : Except Error Node :=
  match emission.nodes[id]? with
  | some node => .ok node
  | none => .error (Misuse.foreign id).toError

/-- The name of a node of a kind: the label of the kind and the number. -/
def nameOf (kind : Kind) (id : Id) : String := kind.label ++ "_" ++ toString id

/-- The name of a node, unique in its emission. -/
def name (id : Id) : Except Error String := do
  return nameOf (← emission.node id).kind id

/-- A label that belongs to a node. -/
def label (id : Id) (suffix : String) : Except Error String := do
  return (← emission.name id) ++ "_" ++ suffix

/-- The children of a node in a context. -/
def children (id : Id) (context : Context) : Except Error (List Id) := do
  let node ← emission.node id
  match node.body.children? context with
  | some children => .ok children
  | none => .error (Misuse.noContext (nameOf node.kind id) context).toError

/-- The lines of a leaf. -/
def leaf (id : Id) : Except Error Buffer := do
  let node ← emission.node id
  match node.body with
  | .leaf _ buffer => .ok buffer
  | _ => .error (Misuse.notLeaf (nameOf node.kind id)).toError

/-- The frame of a function. -/
def frame (id : Id) : Except Error Frame := do
  let node ← emission.node id
  match node.body with
  | .function _ _ frame => .ok frame
  | _ => .error (Misuse.notFunction (nameOf node.kind id)).toError

/-- Changes a node. -/
def modifyNode (id : Id) (change : Node → Node) : Emission :=
  { emission with nodes := emission.nodes.modify id change }

/-- Adds a node under another, at the nesting of that one. -/
def push (parent : Id) (body : Nat → Body) : Emission :=
  let nesting := (emission.nodes[parent]?.map Node.nesting).getD 0
  let node : Node := { parent := some parent, base := nesting, nesting, body := body nesting }
  { emission with nodes := emission.nodes.push node }

end Emission

/-- Computations on a file under construction. -/
abbrev Emit (α : Type) : Type := EStateM Error Emission α

namespace Emit

open Emission
open Asm (Buffer Instruction)

/-- The answer to a question about the emission, or its error. -/
def ask {α : Type} (question : Emission → Except Error α) : Emit α := fun emission =>
  match question emission with
  | .ok answer => .ok answer emission
  | .error error => .error error emission

/-- Asks a question whose answer does not matter. -/
def require {α : Type} (question : Emission → Except Error α) : Emit Unit :=
  ask fun emission => discard (question emission)

/-- Changes the emission. -/
def update (change : Emission → Emission) : Emit Unit := modify change

/-- Adds a node under another: its number. -/
def push (parent : Id) (body : Nat → Body) : Emit Id := fun emission =>
  .ok emission.nodes.size (emission.push parent body)

/-! ## Nodes -/

/-- Adds an empty node of a kind under another.  The file is there from the
start, and functions are added by `createFunction`. -/
def create (kind : Kind) (parent : Id) : Emit Id :=
  match kind with
  | .leaf sort => do
      require (·.node parent)
      push parent fun nesting => .leaf sort (.empty nesting)
  | .conditional => do
      require (·.node parent)
      push parent fun _ => .conditional [] [] []
  | .loop => do
      require (·.node parent)
      push parent fun _ => .loop [] []
  | .compound => do
      require (·.node parent)
      push parent fun _ => .compound []
  | .file | .function => throw (Misuse.notCreated kind).toError

/-- Adds an empty function to the file. -/
def createFunction (name : String) : Emit Id :=
  push fileId fun _ => .function [] [] { name }

/-- Lets the lines and nodes that follow under a node start one level deeper. -/
def enter (id : Id) : Emit Unit := do
  require (·.node id)
  update (·.modifyNode id Node.enter)

/-- Lets the lines and nodes that follow under a node start one level further
out. -/
def leave (id : Id) : Emit Unit := do
  let node ← ask fun emission => do
    let node ← emission.node id
    node.leave (nameOf node.kind id)
  update (·.modifyNode id fun _ => node)

/-- Appends a node to a context of a composite, which becomes its parent. -/
def addChild (parent : Id) (context : Context) (child : Id) : Emit Unit := do
  require (·.node child)
  require (·.children parent context)
  update fun emission =>
    (emission.modifyNode parent fun node => { node with body := node.body.append child context })
      |>.modifyNode child fun node => { node with parent := some parent }

/-! ## Lines -/

/-- Adds code to a leaf. -/
def addCode (id : Id) (code : String) : Emit Unit := do
  require (·.leaf id)
  update (·.modifyNode id (·.mapBuffer (·.addCode code)))

/-- Adds an instruction to a leaf. -/
def add (id : Id) (instruction : Instruction) : Emit Unit := do
  require (·.leaf id)
  update (·.modifyNode id (·.mapBuffer (·.add instruction)))

/-- Adds instructions to a leaf, in order. -/
def addAll (id : Id) : List Instruction → Emit Unit
  | [] => pure ()
  | instruction :: instructions => do
      add id instruction
      addAll id instructions

/-- Adds the lines of one leaf to another, which becomes its parent. -/
def absorb (target source : Id) : Emit Unit := do
  let lines ← ask (·.leaf source)
  require (·.leaf target)
  update fun emission =>
    (emission.modifyNode target (·.mapBuffer (·.absorb lines)))
      |>.modifyNode source fun node => { node with parent := some target }

/-- Adds a leaf of one instruction under a composite and appends it to a
context. -/
def addLine (parent : Id) (context : Context) (instruction : Instruction) : Emit Unit := do
  let leaf ← create (.leaf .other) parent
  add leaf instruction
  addChild parent context leaf

/-! ## Names -/

/-- Declares a variable of the file: whether its name is new.  A new one gets
a line in the data section. -/
def declareVariable (name : String) (value : Option Int32) : Emit Bool := do
  if ← ask fun emission => .ok (emission.globals.hasVariable name) then return false
  update fun emission => { emission with globals := emission.globals.addVariable name }
  addLine fileId .fileData (.dword name value)
  return true

/-- Records the name of a function of the file: whether it is new. -/
def registerFunction (name : String) : Emit Bool := do
  if ← ask fun emission => .ok (emission.globals.hasFunction name) then return false
  update fun emission => { emission with globals := emission.globals.addFunction name }
  return true

/-- Declares a function that is defined elsewhere: whether its name is new.  A
new one gets a prototype in the data section. -/
def declareFunction (name : String) (arity : Nat) : Emit Bool := do
  if ← registerFunction name then
    addLine fileId .fileData (.proto name arity)
    return true
  return false

/-- Declares a parameter of a function: its offset.  A new one gets a comment
in the header of the function. -/
def declareParameter (function : Id) (name : String) : Emit Int32 := do
  let (offset, isNew, frame) ← ask fun emission => do
    return (← emission.frame function).addParameter name
  if isNew then
    update (·.modifyNode function (·.setFrame frame))
    let text := "param " ++ name ++ " at [ebp+" ++ toString offset.toInt ++ "]"
    addLine function .functionHeader (.comment text)
  return offset

/-- Declares a local of a function: its offset.  A new one gets a comment in
the header of the function. -/
def declareLocal (function : Id) (name : String) : Emit Int32 := do
  let (offset, isNew, frame) ← ask fun emission => do
    return (← emission.frame function).addLocal name
  if isNew then
    update (·.modifyNode function (·.setFrame frame))
    let text := "local " ++ name ++ " at [ebp-" ++ toString (-offset).toInt ++ "]"
    addLine function .functionHeader (.comment text)
  return offset

end Emit

end MiniC
