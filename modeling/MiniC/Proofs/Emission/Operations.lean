import MiniC.Emission.Basic

/-!
# What the operations on an emission do

The nodes of an emission are read by `nodes[id]?`, and every operation is
described by what it does to them: `push` adds one node at the end, and
`modifyNode` changes one.  An operation that finds the nodes that it asks for
runs to its end, and the equations below say in which emission it ends.

Two facts serve to put operations after each other: `bind_of_ok` runs the first
of two computations, and `bind_eq_ok` takes a successful run apart.
-/

namespace MiniC

namespace Asm.Buffer

/-- The buffer that holds some instructions at one level. -/
def holding (level : Nat) (code : List Instruction) : Buffer := (empty level).addAll code

@[simp] theorem entries_holding (level : Nat) (code : List Instruction) :
    (holding level code).entries.toList = code.map (Entry.mk level) := by
  simp [holding, empty]

@[simp] theorem instructions_holding (level : Nat) (code : List Instruction) :
    (holding level code).instructions = code := by
  simp [instructions, Function.comp_def]

theorem addAll_holding (level : Nat) (code more : List Instruction) :
    (holding level code).addAll more = holding level (code ++ more) := by
  simp [holding, addAll, List.foldl_append]

theorem add_holding (level : Nat) (code : List Instruction) (instruction : Instruction) :
    (holding level code).add instruction = holding level (code ++ [instruction]) :=
  addAll_holding level code [instruction]

theorem absorb_holding (level other : Nat) (code more : List Instruction) :
    (holding level code).absorb (holding other more) = holding level (code ++ more) := by
  rw [absorb_eq_addAll, instructions_holding, addAll_holding]

end Asm.Buffer

namespace Emission

open Asm (Buffer Entry Instruction)

variable {emission : Emission}

/-- The nesting that nodes created under a node start from. -/
def nestingAt (emission : Emission) (id : Nat) : Nat :=
  (emission.nodes[id]?.map Node.nesting).getD 0

theorem nestingAt_of_eq {before after : Emission} {id : Nat}
    (h : after.nodes[id]? = before.nodes[id]?) : after.nestingAt id = before.nestingAt id := by
  rw [nestingAt, nestingAt, h]

theorem nestingAt_of_some {id : Nat} {node : Node} (h : emission.nodes[id]? = some node) :
    emission.nestingAt id = node.nesting := by
  simp [nestingAt, h]

theorem lt_size_of_some {id : Nat} {node : Node} (h : emission.nodes[id]? = some node) :
    id < emission.nodes.size := by
  obtain ⟨hlt, -⟩ := Array.getElem?_eq_some_iff.mp h
  exact hlt

theorem exists_node_of_lt {id : Nat} (h : id < emission.nodes.size) :
    ∃ node, emission.nodes[id]? = some node :=
  ⟨emission.nodes[id], Array.getElem?_eq_getElem h⟩

theorem node_of_some {id : Nat} {node : Node} (h : emission.nodes[id]? = some node) :
    emission.node id = .ok node := by
  simp [Emission.node, h]

/-! ## Adding and changing nodes -/

section Push

variable (emission) (parent : Nat) (body : Nat → Body)

@[simp] theorem size_push : (emission.push parent body).nodes.size = emission.nodes.size + 1 := by
  simp [push]

theorem getElem?_push_old {id : Nat} (h : id < emission.nodes.size) :
    (emission.push parent body).nodes[id]? = emission.nodes[id]? := by
  simp [push, Array.getElem?_push, Nat.ne_of_lt h]

theorem getElem?_push_new :
    (emission.push parent body).nodes[emission.nodes.size]? =
      some ⟨some parent, emission.nestingAt parent, emission.nestingAt parent,
        body (emission.nestingAt parent)⟩ := by
  simp [push, nestingAt]

end Push

section Modify

variable (emission) (id : Nat) (change : Node → Node)

@[simp] theorem size_modifyNode :
    (emission.modifyNode id change).nodes.size = emission.nodes.size := by
  simp [modifyNode]

theorem getElem?_modifyNode (other : Nat) :
    (emission.modifyNode id change).nodes[other]? =
      if id = other then emission.nodes[other]?.map change else emission.nodes[other]? := by
  simp [modifyNode, Array.getElem?_modify]

theorem getElem?_modifyNode_self :
    (emission.modifyNode id change).nodes[id]? = emission.nodes[id]?.map change := by
  rw [getElem?_modifyNode, if_pos rfl]

theorem getElem?_modifyNode_of_ne {other : Nat} (h : id ≠ other) :
    (emission.modifyNode id change).nodes[other]? = emission.nodes[other]? := by
  rw [getElem?_modifyNode, if_neg h]

end Modify

end Emission

/-! ## Children -/

section Children

open Emission (Body Context)

variable {body : Body} {child : Nat} {context : Context} {ids : List Nat}

theorem children?_append (h : body.children? context = some ids) :
    (body.append child context).children? context = some (ids ++ [child]) := by
  cases context <;> cases body <;> cases h <;> rfl

theorem children?_append_of_ne {other : Context} (h : context ≠ other) :
    (body.append child context).children? other = body.children? other := by
  cases context <;> cases body <;>
    first | rfl | (cases other <;> first | rfl | exact absurd rfl h)

end Children

namespace Emit

open Emission
open Asm (Buffer Instruction)

variable {α β : Type} {emission after : Emission}

/-! ## One computation after another -/

theorem bind_of_ok {action : Emit α} {value : α} (h : action emission = .ok value after)
    (next : α → Emit β) : (action >>= next) emission = next value after := by
  simp only [bind, EStateM.bind, h]

theorem bind_eq_ok {action : Emit α} {next : α → Emit β} {result : β} :
    (action >>= next) emission = .ok result after ↔
      ∃ value middle, action emission = .ok value middle ∧
        next value middle = .ok result after := by
  simp only [bind, EStateM.bind]
  cases h : action emission with
  | ok value middle =>
      constructor
      · exact fun hnext => ⟨value, middle, rfl, hnext⟩
      · rintro ⟨_, _, heq, hnext⟩
        cases heq
        exact hnext
  | error error middle => simp

theorem pure_eq_ok {value result : α} :
    (pure value : Emit α) emission = .ok result after ↔ value = result ∧ emission = after := by
  simp [pure, EStateM.pure]

theorem ask_of_ok {question : Emission → Except Error α} {answer : α}
    (h : question emission = .ok answer) : ask question emission = .ok answer emission := by
  simp only [ask, h]

theorem ask_eq_ok {question : Emission → Except Error α} {answer : α} :
    ask question emission = .ok answer after ↔
      question emission = .ok answer ∧ emission = after := by
  simp only [ask]
  split <;> simp_all

theorem require_of_ok {question : Emission → Except Error α} {answer : α}
    (h : question emission = .ok answer) : require question emission = .ok () emission := by
  simp [require, ask, h, Functor.discard, Except.map, Functor.mapConst]

theorem discard_eq_ok {action : Emit α} {result : Unit} :
    (discard action) emission = .ok result after ↔
      ∃ value, action emission = .ok value after := by
  have h : discard action = action >>= fun _ => pure () := rfl
  rw [h, bind_eq_ok]
  constructor
  · rintro ⟨value, middle, haction, hpure⟩
    obtain ⟨-, rfl⟩ := pure_eq_ok.mp hpure
    exact ⟨value, haction⟩
  · rintro ⟨value, haction⟩
    exact ⟨value, after, haction, rfl⟩

theorem discard_of_ok {action : Emit α} {value : α} (h : action emission = .ok value after) :
    (discard action) emission = .ok () after :=
  discard_eq_ok.mpr ⟨value, h⟩

/-! ## The operations -/

section Create

variable {parent : Nat} (h : parent < emission.nodes.size)
include h

/-- A node is made under a parent that is there. -/
theorem require_push (body : Nat → Body) :
    (do require (·.node parent); Emit.push parent body : Emit Nat) emission =
      .ok emission.nodes.size (emission.push parent body) := by
  obtain ⟨node, hnode⟩ := exists_node_of_lt h
  rw [bind_of_ok (require_of_ok (node_of_some hnode))]
  rfl

theorem create_leaf (sort : Leaf) :
    create (.leaf sort) parent emission =
      .ok emission.nodes.size (emission.push parent fun nesting => .leaf sort (.empty nesting)) :=
  require_push h _

theorem create_conditional :
    create .conditional parent emission =
      .ok emission.nodes.size (emission.push parent fun _ => .conditional [] [] []) :=
  require_push h _

theorem create_loop :
    create .loop parent emission =
      .ok emission.nodes.size (emission.push parent fun _ => .loop [] []) :=
  require_push h _

theorem create_compound :
    create .compound parent emission =
      .ok emission.nodes.size (emission.push parent fun _ => .compound []) :=
  require_push h _

end Create

theorem enter_of_lt {id : Nat} (h : id < emission.nodes.size) :
    enter id emission = .ok () (emission.modifyNode id Node.enter) := by
  obtain ⟨node, hnode⟩ := exists_node_of_lt h
  rw [enter, bind_of_ok (require_of_ok (node_of_some hnode))]
  rfl

theorem leave_of_some {id : Nat} {node outer : Node} (hnode : emission.nodes[id]? = some node)
    (houter : node.leave (nameOf node.kind id) = .ok outer) :
    leave id emission = .ok () (emission.modifyNode id fun _ => outer) := by
  have hask : (do
      let node ← emission.node id
      node.leave (nameOf node.kind id)) = .ok outer := by
    simp only [node_of_some hnode, bind, Except.bind, houter]
  rw [leave, bind_of_ok (ask_of_ok hask)]
  rfl

theorem addChild_of_some {parent child : Nat} {context : Context} {node : Node} {ids : List Nat}
    (hparent : emission.nodes[parent]? = some node)
    (hcontext : node.body.children? context = some ids) (hchild : child < emission.nodes.size) :
    addChild parent context child emission =
      .ok () ((emission.modifyNode parent fun node =>
          { node with body := node.body.append child context }).modifyNode child
        fun node => { node with parent := some parent }) := by
  obtain ⟨other, hother⟩ := exists_node_of_lt hchild
  have hchildren : emission.children parent context = .ok ids := by
    simp [Emission.children, node_of_some hparent, bind, Except.bind, hcontext]
  rw [addChild, bind_of_ok (require_of_ok (node_of_some hother)),
    bind_of_ok (require_of_ok hchildren)]
  rfl

/-- Declares a name in the frame of a function: its offset.  A new one gets a comment in the header
of the function. -/
def declareInFrame (function : Nat) (add : Frame → Int32 × Bool × Frame)
    (comment : Int32 → Instruction) : Emit Int32 := do
  let (offset, isNew, frame) ← ask fun emission => do
    return add (← emission.frame function)
  if isNew then
    update (·.modifyNode function (·.setFrame frame))
    addLine function .functionHeader (comment offset)
  return offset

/-- Parameters and locals are declared in the same way. -/
theorem declareParameter_eq (function : Nat) (name : String) :
    declareParameter function name =
      declareInFrame function (·.addParameter name) fun offset =>
        .comment ("param " ++ name ++ " at [ebp+" ++ toString offset.toInt ++ "]") :=
  rfl

theorem declareLocal_eq (function : Nat) (name : String) :
    declareLocal function name =
      declareInFrame function (·.addLocal name) fun offset =>
        .comment ("local " ++ name ++ " at [ebp-" ++ toString (-offset).toInt ++ "]") :=
  rfl

section Lines

variable {id : Nat} {node : Node} {sort : Leaf} {buffer : Buffer}
  (hnode : emission.nodes[id]? = some node) (hbody : node.body = .leaf sort buffer)
include hnode hbody

theorem leaf_of_some : emission.leaf id = .ok buffer := by
  simp [Emission.leaf, node_of_some hnode, bind, Except.bind, hbody]

theorem add_of_some (instruction : Instruction) :
    add id instruction emission =
      .ok () (emission.modifyNode id (·.mapBuffer (·.add instruction))) := by
  rw [add, bind_of_ok (require_of_ok (leaf_of_some hnode hbody))]
  rfl

theorem absorb_of_some {source : Nat} {lines : Buffer}
    (hsource : emission.leaf source = .ok lines) :
    absorb id source emission =
      .ok () ((emission.modifyNode id (·.mapBuffer (·.absorb lines))).modifyNode source
        fun node => { node with parent := some id }) := by
  rw [absorb, bind_of_ok (ask_of_ok hsource),
    bind_of_ok (require_of_ok (leaf_of_some hnode hbody))]
  rfl

end Lines

end Emit

end MiniC
