import MiniC.Proofs.Ast.Listings

/-!
# Arenas after any changes

What holds of the nodes of an arena, however it was made, and what an attachment needs and
does (`contract_of_changes`).
-/

namespace MiniC.Ast

namespace Arena

variable {arena : Arena} {parent child slot : Nat}

/-- What an attachment needs: both nodes are there, the kind of the parent has the slot, and
the child is another node without a parent. -/
def Attachable (arena : Arena) (parent child slot : Nat) : Prop :=
  ∃ parentNode childNode, arena.nodes[parent]? = some parentNode ∧
    arena.nodes[child]? = some childNode ∧ slot < parentNode.kind.slotCount ∧ parent ≠ child ∧
    childNode.parent = none

/-- What an attachment does: the child has the parent, the slot of the parent ends with the
child, and nothing else is different. -/
structure Attached (before after : Arena) (parent child slot : Nat) : Prop where
  child_eq : ∀ node, before.nodes[child]? = some node →
    after.nodes[child]? = some { node with parent := some parent }
  parent_eq : ∀ node, before.nodes[parent]? = some node →
    after.nodes[parent]? = some { node with slots := node.slots.modify slot (· ++ [child]) }
  other_eq : ∀ id, id ≠ parent → id ≠ child → after.nodes[id]? = before.nodes[id]?
  size_eq : after.size = before.size
  root_eq : after.root = before.root
  serials_eq : after.serials = before.serials

theorem attached_link (hne : parent ≠ child) :
    Attached arena (arena.link parent child slot) parent child slot where
  child_eq node hnode := by
    rw [getElem?_link, hnode, Option.map_some, if_pos rfl, if_neg hne]
  parent_eq node hnode := by
    rw [getElem?_link, hnode, Option.map_some, if_neg hne.symm, if_pos rfl]
    rfl
  other_eq id hparent hchild := by
    rw [getElem?_link]
    simp only [if_neg hparent.symm, if_neg hchild.symm]
    exact Option.map_id'
  size_eq := size_link ..
  root_eq := rfl
  serials_eq := rfl

/-- In an arena where nodes have the slots of their kinds, what can be attached is
attached. -/
theorem attachable_iff (regular : arena.Regular) :
    arena.Attachable parent child slot ↔
      ∃ after, arena.attach parent child slot = .ok after := by
  constructor
  · rintro ⟨parentNode, childNode, hparent, hchild, hslot, hne, hfree⟩
    refine ⟨_, attach_eq_ok_iff.mpr ⟨parentNode, hparent, ?_, ?_, hne, ?_, rfl⟩⟩
    · exact (Array.getElem?_eq_some_iff.mp hchild).1
    · rw [regular.length_slots hparent]
      exact hslot
    · rw [parentOf?, hchild]
      exact hfree
  · rintro ⟨after, hattach⟩
    obtain ⟨parentNode, hparent, hchild, hslot, hne, hfree, -⟩ := attach_eq_ok_iff.mp hattach
    rw [parentOf?, Array.getElem?_eq_getElem hchild] at hfree
    refine ⟨parentNode, _, hparent, Array.getElem?_eq_getElem hchild, ?_, hne, hfree⟩
    rw [← regular.length_slots hparent]
    exact hslot

/-- What holds of an arena that was made by hand. -/
structure Contract (arena : Arena) : Prop where
  /-- Nodes are numbered in the order of creation. -/
  serial : ∀ (id : Nat) (node : Node), arena.nodes[id]? = some node → node.serial = id
  /-- A node has the slots of its kind. -/
  slots : ∀ (id : Nat) (node : Node), arena.nodes[id]? = some node →
    node.slots.length = node.kind.slotCount
  /-- The children of a node are those in its slots, slot by slot. -/
  children : ∀ (id : Nat) (node : Node), arena.nodes[id]? = some node →
    node.children = (List.range node.kind.slotCount).flatMap node.childrenIn
  /-- A node lists another one if and only if that one names it as its parent. -/
  parent : ∀ child parent : Nat, child ∈ arena.childrenOf parent ↔
    arena.parentOf? child = some parent
  /-- A node that has a parent is listed once among all slots of all nodes, and one without a
  parent is not listed. -/
  once : ∀ id : Nat, arena.listed.count id = if (arena.parentOf? id).isSome then 1 else 0
  /-- What can be attached is attached, and nothing else is changed. -/
  attached : ∀ parent child slot : Nat, arena.Attachable parent child slot →
    ∃ after, arena.attach parent child slot = .ok after ∧
      arena.change (.attach parent child slot) = after ∧ Attached arena after parent child slot
  /-- What cannot be attached is refused, and nothing is changed. -/
  refused : ∀ parent child slot : Nat, ¬ arena.Attachable parent child slot →
    (∃ error, arena.attach parent child slot = .error error) ∧
      arena.change (.attach parent child slot) = arena

/-- **The contract of arenas** holds after any changes to an empty arena: its numbers, slots and
listings are sound, and an attachment succeeds if and only if both nodes are there, the parent
has the slot, and the child is another node without a parent (`Attachable`). -/
theorem contract_of_changes (changes : List Change) : (empty.changeAll changes).Contract where
  serial _ _ hnode := (regular_empty.changeAll changes).serial_eq hnode
  slots _ _ hnode := (regular_empty.changeAll changes).length_slots hnode
  children id node hnode := by
    rw [← (regular_empty.changeAll changes).length_slots hnode]
    exact node.children_eq_flatMap
  parent _ _ := (linked_empty.changeAll changes).mem_childrenOf_iff
  once := listedOnce_empty.changeAll changes
  attached parent child slot hattachable := by
    obtain ⟨after, hattach⟩ :=
      (attachable_iff (regular_empty.changeAll changes)).mp hattachable
    obtain ⟨-, -, -, -, hne, -, rfl⟩ := attach_eq_ok_iff.mp hattach
    refine ⟨_, hattach, ?_, attached_link hne⟩
    rw [Arena.change, hattach]
    rfl
  refused parent child slot hrefused := by
    rw [attachable_iff (regular_empty.changeAll changes)] at hrefused
    rw [Arena.change]
    cases hattach : (empty.changeAll changes).attach parent child slot with
    | error error => exact ⟨⟨error, rfl⟩, rfl⟩
    | ok after => exact absurd ⟨after, hattach⟩ hrefused

end Arena

end MiniC.Ast
