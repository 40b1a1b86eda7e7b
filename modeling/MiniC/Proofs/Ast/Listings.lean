import MiniC.Proofs.Ast.Changes

/-!
# What arenas made by hand list

After any changes the nodes of an arena are numbered in order, each has the slots of its
kind (`Regular.changeAll`), and a node that has a parent is listed once among all slots of
all nodes (`ListedOnce.changeAll`).  Listings are counted, as this says at once that no
node is listed twice and that an attachment adds one listing and takes none away
(`count_listed_link`).
-/

namespace MiniC.Ast

namespace Node

/-- The children of a node are those in its slots, slot by slot. -/
theorem children_eq_flatMap (node : Node) :
    node.children = (List.range node.slots.length).flatMap node.childrenIn := by
  have hslots : (List.range node.slots.length).map node.childrenIn = node.slots := by
    apply List.ext_getElem (by simp)
    intro slot _ hslot
    simp [childrenIn, List.getD_eq_getElem?_getD, List.getElem?_eq_getElem hslot]
  rw [List.flatMap_def, hslots, children]

end Node

/-- An element of a list is exchanged, and so is what it contributes to a count. -/
theorem count_flatMap_modify {α β : Type} [BEq β] {values : List α} {index : Nat}
    (h : index < values.length) (change : α → α) (lists : α → List β) (value : β) :
    ((values.modify index change).flatMap lists).count value + (lists values[index]).count value =
      (values.flatMap lists).count value + (lists (change values[index])).count value := by
  have hsplit : values = values.take index ++ values[index] :: values.drop (index + 1) := by
    rw [List.getElem_cons_drop, List.take_append_drop]
  have hcount := congrArg (fun values => (values.flatMap lists).count value) hsplit
  simp only [List.flatMap_append, List.flatMap_cons, List.count_append] at hcount
  rw [List.modify_eq_take_cons_drop h, hcount]
  simp only [List.flatMap_append, List.flatMap_cons, List.count_append]
  omega

namespace Arena

variable {arena : Arena} {parent child slot id : Nat}

/-- The nodes that are listed in the slots of all nodes. -/
def listed (arena : Arena) : List Nat := arena.nodes.toList.flatMap Node.children

/-! ## Numbers and slots -/

/-- The nodes are numbered in order, and each has the slots of its kind. -/
structure Regular (arena : Arena) : Prop where
  following_eq : arena.serials.following = arena.size
  serial_eq : ∀ {id : Nat} {node : Node}, arena.nodes[id]? = some node → node.serial = id
  length_slots : ∀ {id : Nat} {node : Node}, arena.nodes[id]? = some node →
    node.slots.length = node.kind.slotCount

theorem regular_empty : empty.Regular where
  following_eq := rfl
  serial_eq h := by cases h
  length_slots h := by cases h

namespace Regular

theorem create (regular : arena.Regular) (kind : Kind) (location : Location) :
    (arena.create kind location).2.Regular := by
  refine ⟨?_, fun {id node} hnode => ?_, fun {id node} hnode => ?_⟩
  · simp [Arena.create, Serials.next, size, regular.following_eq]
  · rw [getElem?_create] at hnode
    split at hnode
    next hid =>
      cases hnode
      rw [hid, regular.following_eq]
    next => exact regular.serial_eq hnode
  · rw [getElem?_create] at hnode
    split at hnode
    next =>
      cases hnode
      exact List.length_replicate
    next => exact regular.length_slots hnode

/-- An attachment keeps the numbers, the kinds and how many slots there are. -/
theorem link (regular : arena.Regular) : (arena.link parent child slot).Regular := by
  have hold : ∀ (id : Nat) (node : Node), (arena.link parent child slot).nodes[id]? = some node →
      ∃ old, arena.nodes[id]? = some old ∧ node.serial = old.serial ∧ node.kind = old.kind ∧
        node.slots.length = old.slots.length := by
    intro id node hnode
    rw [getElem?_link] at hnode
    obtain ⟨old, hold, rfl⟩ := Option.map_eq_some_iff.mp hnode
    refine ⟨old, hold, ?_⟩
    dsimp only
    split <;> split <;> simp [Node.adopt]
  refine ⟨?_, fun hnode => ?_, fun hnode => ?_⟩
  · rw [size_link]
    exact regular.following_eq
  · obtain ⟨old, hnode, hserial, -, -⟩ := hold _ _ hnode
    rw [hserial, regular.serial_eq hnode]
  · obtain ⟨old, hnode, -, hkind, hlength⟩ := hold _ _ hnode
    rw [hlength, hkind, regular.length_slots hnode]

theorem change (regular : arena.Regular) (change : Change) : (arena.change change).Regular := by
  cases change with
  | create kind location => exact regular.create kind location
  | attach parent child slot =>
      rcases change_attach arena parent child slot with hrefused | haccepted
      · rw [hrefused]
        exact regular
      · obtain ⟨node, -, -, -, -, -, hafter⟩ := attach_eq_ok_iff.mp haccepted
        rw [hafter]
        exact regular.link
  | setRoot id => exact ⟨regular.following_eq, regular.serial_eq, regular.length_slots⟩

end Regular

theorem Regular.changeAll (regular : arena.Regular) (changes : List Change) :
    (arena.changeAll changes).Regular := by
  induction changes generalizing arena with
  | nil => exact regular
  | cons change changes ih => exact ih (regular.change change)

/-! ## Listings -/

/-- A new node lists nothing. -/
theorem listed_create (arena : Arena) (kind : Kind) (location : Location) :
    (arena.create kind location).2.listed = arena.listed := by
  simp [Arena.create, listed, Node.children]

/-- The slots of all nodes after an attachment. -/
theorem slots_link (arena : Arena) (parent child slot : Nat) :
    (arena.link parent child slot).nodes.toList.map Node.slots =
      (arena.nodes.toList.map Node.slots).modify parent (·.modify slot (· ++ [child])) := by
  apply List.ext_getElem?
  intro id
  rw [List.getElem?_map, List.getElem?_modify, List.getElem?_map, Array.getElem?_toList,
    Array.getElem?_toList, getElem?_link]
  cases arena.nodes[id]? with
  | none => split <;> rfl
  | some node =>
      simp only [Option.map_some]
      split <;> split <;> rfl

theorem listed_eq_flatMap (arena : Arena) :
    arena.listed = (arena.nodes.toList.map Node.slots).flatMap List.flatten := by
  rw [List.flatMap_map]
  rfl

/-- An attachment adds one listing, that of the child. -/
theorem count_listed_link {node : Node} (hparent : arena.nodes[parent]? = some node)
    (hslot : slot < node.slots.length) (child other : Nat) :
    (arena.link parent child slot).listed.count other =
      arena.listed.count other + if other = child then 1 else 0 := by
  have hlisted : parent < (arena.nodes.toList.map Node.slots).length := by
    simpa using (Array.getElem?_eq_some_iff.mp hparent).1
  have hslots : (arena.nodes.toList.map Node.slots)[parent] = node.slots := by
    simp [(Array.getElem?_eq_some_iff.mp hparent).2]
  have hall := count_flatMap_modify hlisted (·.modify slot (· ++ [child])) List.flatten other
  have hone := count_flatMap_modify hslot (· ++ [child]) id other
  rw [hslots] at hall
  have hchild : [child].count other = if other = child then 1 else 0 := by
    by_cases heq : other = child
    · simp [heq]
    · simp [heq, Ne.symm heq]
  rw [List.flatMap_id, List.flatMap_id, id, id, List.count_append, hchild] at hone
  rw [listed_eq_flatMap, listed_eq_flatMap, slots_link]
  omega

/-- A node that has a parent is listed once, and one without a parent is not listed. -/
def ListedOnce (arena : Arena) : Prop :=
  ∀ id, arena.listed.count id = if (arena.parentOf? id).isSome then 1 else 0

theorem listedOnce_empty : empty.ListedOnce := fun _ => rfl

namespace ListedOnce

theorem attach (once : arena.ListedOnce) {after : Arena}
    (h : arena.attach parent child slot = .ok after) : after.ListedOnce := by
  obtain ⟨node, hparent, hchild, hslot, -, hfree, rfl⟩ := attach_eq_ok_iff.mp h
  intro id
  rw [count_listed_link hparent hslot, parentOf?_link hchild, once id]
  by_cases hid : id = child
  · subst hid
    simp [hfree]
  · simp [hid, Ne.symm hid]

theorem change (once : arena.ListedOnce) (change : Change) : (arena.change change).ListedOnce := by
  cases change with
  | create kind location =>
      intro id
      rw [Arena.change, listed_create, parentOf?_create]
      exact once id
  | attach parent child slot =>
      rcases change_attach arena parent child slot with hrefused | haccepted
      · rw [hrefused]
        exact once
      · exact once.attach haccepted
  | setRoot id => exact once

end ListedOnce

theorem ListedOnce.changeAll (once : arena.ListedOnce) (changes : List Change) :
    (arena.changeAll changes).ListedOnce := by
  induction changes generalizing arena with
  | nil => exact once
  | cons change changes ih => exact ih (once.change change)

end Arena

end MiniC.Ast
