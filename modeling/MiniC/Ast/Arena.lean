import MiniC.Ast.Tree
import MiniC.Error

/-!
# Arenas of syntax tree nodes

An `Arena` holds the nodes of a compile unit and numbers them in the order of
creation.  A node is created on its own and then attached to a slot of
another; `attach` refuses what would give a node two parents or a slot that its
kind does not have.

`Arena.insert` stores a whole `Tree`, nodes before their children, and
`Arena.tree?` reads the tree below a node back.
-/

namespace MiniC.Ast

/-- The number of a node in its arena. -/
abbrev Id := Nat

/-- A counter that numbers nodes from zero.  It has no greatest number, so that the numbers
are those of a counter of 32 bits as long as there are at most 2³² nodes. -/
structure Serials where
  following : Nat := 0
deriving DecidableEq, Repr

/-- The next number, and the counter after it. -/
def Serials.next (serials : Serials) : Nat × Serials :=
  (serials.following, ⟨serials.following + 1⟩)

/-- A node of an arena. -/
structure Node where
  serial : Nat
  kind : Kind
  location : Location
  parent : Option Id
  /-- The children in each slot, in the order in which they were attached. -/
  slots : List (List Id)
deriving DecidableEq

namespace Node

/-- A short name for a node. -/
def debugName (node : Node) : String := "_" ++ toString node.serial

/-- What a node is called in the report of another. -/
def label (node : Node) : String := node.kind.tag ++ "#" ++ toString node.serial

/-- The children in a slot, none in a slot that the node does not have. -/
def childrenIn (node : Node) (slot : Nat) : List Id := node.slots.getD slot []

/-- The children in all slots. -/
def children (node : Node) : List Id := node.slots.flatten

/-- A node with one more child at the end of a slot. -/
def adopt (node : Node) (slot : Nat) (child : Id) : Node :=
  { node with slots := node.slots.modify slot (· ++ [child]) }

end Node

/-- The nodes of a compile unit. -/
structure Arena where
  nodes : Array Node := #[]
  root : Option Id := none
  serials : Serials := {}
deriving DecidableEq

/-- Why a node is not attached to another. -/
inductive Refusal where
  | slotless
  | outOfRange (slotCount : Nat)
  | itself
  | owned (owner : String)

/-- The wording of a refusal. -/
def Refusal.message : Refusal → String
  | slotless => "node declares no slots"
  | outOfRange slotCount => "slot index out of range 0.." ++ toString slotCount
  | itself => "node cannot be its own child"
  | owned owner => "child already attached to " ++ owner

namespace Arena

/-- An arena without nodes. -/
def empty : Arena := {}

/-- The number of nodes. -/
def size (arena : Arena) : Nat := arena.nodes.size

/-- A node, or the error for a number that no node has. -/
def node (arena : Arena) (id : Id) : Except Error Node :=
  match arena.nodes[id]? with
  | some node => .ok node
  | none => .error (.internal ("node handle " ++ toString id ++ " is not part of this tree"))

/-- Adds a node without parent or children: its number, and the arena with it. -/
def create (arena : Arena) (kind : Kind) (location : Location) : Id × Arena :=
  let (serial, serials) := arena.serials.next
  let node : Node :=
    { serial, kind, location, parent := none, slots := List.replicate kind.slotCount [] }
  (arena.nodes.size, { arena with nodes := arena.nodes.push node, serials })

/-- Makes a node the last child in a slot of another. -/
def link (arena : Arena) (parent child : Id) (slot : Nat) : Arena :=
  let nodes := arena.nodes.modify child fun node => { node with parent := some parent }
  { arena with nodes := nodes.modify parent (·.adopt slot child) }

/-- The reason not to attach a child, if there is one. -/
def refusal? (arena : Arena) (parentId childId slot : Nat) (parent child : Node) :
    Option Refusal :=
  let slotCount := parent.slots.length
  if slotCount = 0 then some .slotless
  else if slotCount ≤ slot then some (.outOfRange slotCount)
  else if parentId = childId then some .itself
  else
    child.parent.map fun ownerId =>
      .owned ((arena.nodes[ownerId]?.map Node.label).getD "")

/-- Attaches a child at the end of a slot. -/
def attach (arena : Arena) (parentId childId slot : Nat) : Except Error Arena := do
  let parent ← arena.node parentId
  let child ← arena.node childId
  match arena.refusal? parentId childId slot parent child with
  | some refusal => .error (.structural parent.label slot parent.location refusal.message)
  | none => .ok (arena.link parentId childId slot)

/-- Names the root of the arena. -/
def setRoot (arena : Arena) (id : Id) : Arena := { arena with root := some id }

/-! ## Trees in an arena -/

mutual

/-- Stores a tree: the number of its root, and the arena with it. -/
def insert (arena : Arena) : Tree → Id × Arena
  | .node kind location first second third =>
      let (id, arena) := arena.create kind location
      let arena := arena.insertAll id 0 first
      let arena := arena.insertAll id 1 second
      (id, arena.insertAll id 2 third)

/-- Stores trees as the children in a slot of a node. -/
def insertAll (arena : Arena) (parent : Id) (slot : Nat) : List Tree → Arena
  | [] => arena
  | tree :: trees =>
      -- the child is stored with all that is below it before it is attached
      let (child, arena) := arena.insert tree
      (arena.link parent child slot).insertAll parent slot trees

end

/-- The arena that holds a tree and nothing else. -/
def ofTree (tree : Tree) : Arena :=
  let (root, arena) := empty.insert tree
  arena.setRoot root

/-- The tree below a node, cut off at a depth. -/
def treeTo? (arena : Arena) : Nat → Id → Option Tree
  | 0, id => arena.nodes[id]?.map fun node => .leaf node.kind node.location
  | depth + 1, id =>
      arena.nodes[id]?.map fun node =>
        let slot (index : Nat) := (node.childrenIn index).filterMap (arena.treeTo? depth)
        .node node.kind node.location (slot 0) (slot 1) (slot 2)

/-- The tree below a node.  In an arena where no node is below itself, no node
is deeper than the arena has nodes. -/
def tree? (arena : Arena) (id : Id) : Option Tree := arena.treeTo? (arena.size + 2) id

end Arena

end MiniC.Ast
