import MiniC.Proofs.Ast.Arena

/-!
# Arenas made by hand

An arena after a list of changes, each of which creates a node, attaches one to another
or names the root.  An attachment that is refused leaves the arena as it is.

An attachment is recorded twice: the child names its parent, and a slot of the parent
lists the child.  Only `attach` changes either record, and it changes both, so that they
agree after any changes (`Linked.changeAll`).
-/

namespace MiniC.Ast

/-- A change to an arena. -/
inductive Change where
  | create (kind : Kind) (location : Location)
  | attach (parent child slot : Nat)
  | setRoot (id : Nat)
deriving DecidableEq

namespace Arena

/-- The arena after a change. -/
def change (arena : Arena) : Change → Arena
  | .create kind location => (arena.create kind location).2
  | .attach parent child slot => (arena.attach parent child slot).toOption.getD arena
  | .setRoot id => arena.setRoot id

/-- The arena after changes. -/
def changeAll (arena : Arena) (changes : List Change) : Arena := changes.foldl change arena

/-- The parent that a node names. -/
def parentOf? (arena : Arena) (id : Nat) : Option Nat := arena.nodes[id]?.bind Node.parent

/-- The nodes that a node lists as its children. -/
def childrenOf (arena : Arena) (id : Nat) : List Nat :=
  (arena.nodes[id]?.map Node.children).getD []

variable {arena : Arena} {parent child slot id : Nat}

theorem lt_size_of_parentOf? (h : arena.parentOf? child = some parent) : child < arena.size := by
  obtain ⟨node, hnode, -⟩ := Option.bind_eq_some_iff.mp h
  exact (Array.getElem?_eq_some_iff.mp hnode).1

/-! ## Creating -/

theorem getElem?_create (arena : Arena) (kind : Kind) (location : Location) (id : Nat) :
    (arena.create kind location).2.nodes[id]? =
      if id = arena.size then
        some ⟨arena.serials.following, kind, location, none, List.replicate kind.slotCount []⟩
      else arena.nodes[id]? :=
  Array.getElem?_push

/-- A new node has no parent. -/
@[simp] theorem parentOf?_create (arena : Arena) (kind : Kind) (location : Location) (id : Nat) :
    (arena.create kind location).2.parentOf? id = arena.parentOf? id := by
  rw [parentOf?, getElem?_create, parentOf?]
  split
  next hnew => rw [hnew, show arena.nodes[arena.size]? = none from Array.getElem?_size]; rfl
  next => rfl

/-- A new node has no children. -/
@[simp] theorem childrenOf_create (arena : Arena) (kind : Kind) (location : Location) (id : Nat) :
    (arena.create kind location).2.childrenOf id = arena.childrenOf id := by
  rw [childrenOf, getElem?_create, childrenOf]
  split
  next hnew =>
    rw [hnew, show arena.nodes[arena.size]? = none from Array.getElem?_size]
    simp [Node.children]
  next => rfl

/-! ## Attaching -/

theorem getElem?_link (arena : Arena) (parent child slot id : Nat) :
    (arena.link parent child slot).nodes[id]? =
      arena.nodes[id]?.map fun node =>
        let owned := if child = id then { node with parent := some parent } else node
        if parent = id then owned.adopt slot child else owned := by
  rw [link, Array.getElem?_modify, Array.getElem?_modify]
  cases arena.nodes[id]? <;> split <;> split <;> rfl

theorem parentOf?_link (hchild : child < arena.size) (id : Nat) :
    (arena.link parent child slot).parentOf? id =
      if child = id then some parent else arena.parentOf? id := by
  rw [parentOf?, getElem?_link, parentOf?]
  split
  next hsame =>
    rw [← hsame, Array.getElem?_eq_getElem hchild]
    simp only [Option.map_some, Option.bind_some]
    split <;> rfl
  next =>
    cases arena.nodes[id]? with
    | none => rfl
    | some node =>
        simp only [Option.map_some, Option.bind_some]
        split <;> rfl

theorem mem_children_adopt {node : Node} (hslot : slot < node.slots.length) (child other : Nat) :
    other ∈ (node.adopt slot child).children ↔ other ∈ node.children ∨ other = child := by
  have hsplit : node.slots =
      node.slots.take slot ++ node.slots[slot] :: node.slots.drop (slot + 1) := by
    rw [List.getElem_cons_drop, List.take_append_drop]
  have hadopted : (node.adopt slot child).slots =
      node.slots.take slot ++ (node.slots[slot] ++ [child]) :: node.slots.drop (slot + 1) :=
    List.modify_eq_take_cons_drop hslot
  have hchildren := congrArg List.flatten hsplit
  rw [Node.children, hadopted, Node.children, hchildren]
  simp only [List.flatten_append, List.flatten_cons, List.mem_append, List.mem_singleton]
  grind

/-- The parent lists the new child, and nothing else is listed anew. -/
theorem mem_childrenOf_link {node : Node} (hparent : arena.nodes[parent]? = some node)
    (hslot : slot < node.slots.length) (other : Nat) :
    other ∈ (arena.link parent child slot).childrenOf id ↔
      other ∈ arena.childrenOf id ∨ (parent = id ∧ other = child) := by
  -- the parent that a node names is no part of what it lists
  have howned : ∀ (owned : Node), (if child = id then { owned with parent := some parent }
      else owned).slots = owned.slots := by
    intro owned
    split <;> rfl
  rw [childrenOf, getElem?_link, childrenOf]
  by_cases hid : parent = id
  · subst hid
    have hlisted := mem_children_adopt (howned node ▸ hslot) child other
    simpa [hparent, Node.children, howned node] using hlisted
  · cases arena.nodes[id]? with
    | none => simp [hid]
    | some node => simp [hid, Node.children, howned node]

theorem refusal?_eq_none_iff (arena : Arena) (parent child slot : Nat)
    (parentNode childNode : Node) :
    arena.refusal? parent child slot parentNode childNode = none ↔
      slot < parentNode.slots.length ∧ parent ≠ child ∧ childNode.parent = none := by
  by_cases hslotless : parentNode.slots.length = 0
  · simp [refusal?, hslotless]
  · by_cases hrange : parentNode.slots.length ≤ slot
    · simp [refusal?, hslotless, hrange, Nat.not_lt.mpr hrange]
    · by_cases hitself : parent = child <;>
        simp [refusal?, hslotless, hrange, Nat.lt_of_not_le hrange, hitself]

/-- A node is attached if nothing is in the way: both nodes are there, the parent has the
slot, and the child is another node without a parent. -/
theorem attach_eq_ok_iff {after : Arena} :
    arena.attach parent child slot = .ok after ↔
      ∃ node, arena.nodes[parent]? = some node ∧ child < arena.size ∧
        slot < node.slots.length ∧ parent ≠ child ∧ arena.parentOf? child = none ∧
        after = arena.link parent child slot := by
  rw [attach, node, node, parentOf?]
  cases hparent : arena.nodes[parent]? with
  | none => simp [bind, Except.bind]
  | some parentNode =>
      cases hchild : arena.nodes[child]? with
      | none =>
          have hsize : ¬ child < arena.size := Nat.not_lt.mpr (Array.getElem?_eq_none_iff.mp hchild)
          simp [bind, Except.bind, hsize]
      | some childNode =>
          have hsize : child < arena.size := (Array.getElem?_eq_some_iff.mp hchild).1
          have hrefusal := refusal?_eq_none_iff arena parent child slot parentNode childNode
          simp only [bind, Except.bind]
          split
          next refusal hrefused => grind
          next haccepted => grind

/-- A node that is refused stays where it is. -/
theorem change_attach (arena : Arena) (parent child slot : Nat) :
    arena.change (.attach parent child slot) = arena ∨
      arena.attach parent child slot = .ok (arena.change (.attach parent child slot)) := by
  rw [change]
  cases arena.attach parent child slot with
  | error => exact .inl rfl
  | ok => exact .inr rfl

/-! ## Both records -/

/-- A node lists as its children those nodes that name it as their parent, and the
parents that nodes name are there. -/
structure Linked (arena : Arena) : Prop where
  parent_lt : ∀ {child parent}, arena.parentOf? child = some parent → parent < arena.size
  mem_childrenOf_iff : ∀ {child parent},
    child ∈ arena.childrenOf parent ↔ arena.parentOf? child = some parent

theorem linked_empty : empty.Linked where
  parent_lt h := by cases h
  mem_childrenOf_iff := by simp [childrenOf, parentOf?, empty]

namespace Linked

theorem create (linked : arena.Linked) (kind : Kind) (location : Location) :
    (arena.create kind location).2.Linked where
  parent_lt h := by
    rw [parentOf?_create] at h
    have := linked.parent_lt h
    simp only [Arena.create, size, Array.size_push] at this ⊢
    omega
  mem_childrenOf_iff := by simp [linked.mem_childrenOf_iff]

theorem attach (linked : arena.Linked) {after : Arena}
    (h : arena.attach parent child slot = .ok after) : after.Linked := by
  obtain ⟨node, hparent, hchild, hslot, -, hfree, rfl⟩ := attach_eq_ok_iff.mp h
  refine ⟨fun {other owner} howner => ?_, fun {other owner} => ?_⟩
  · rw [parentOf?_link hchild] at howner
    rw [size_link]
    split at howner
    next =>
      cases howner
      exact (Array.getElem?_eq_some_iff.mp hparent).1
    next => exact linked.parent_lt howner
  · rw [mem_childrenOf_link hparent hslot, parentOf?_link hchild, linked.mem_childrenOf_iff]
    by_cases hsame : child = other
    · simp [← hsame, hfree]
    · simp [hsame, Ne.symm hsame]

theorem change (linked : arena.Linked) (change : Change) : (arena.change change).Linked := by
  cases change with
  | create kind location => exact linked.create kind location
  | attach parent child slot =>
      rcases change_attach arena parent child slot with hrefused | haccepted
      · rw [hrefused]
        exact linked
      · exact linked.attach haccepted
  | setRoot id => exact ⟨linked.parent_lt, linked.mem_childrenOf_iff⟩

end Linked

/-- The two records agree after any changes. -/
theorem Linked.changeAll (linked : arena.Linked) (changes : List Change) :
    (arena.changeAll changes).Linked := by
  induction changes generalizing arena with
  | nil => exact linked
  | cons change changes ih => exact ih (linked.change change)

end Arena

end MiniC.Ast
