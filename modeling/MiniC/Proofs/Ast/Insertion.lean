import MiniC.Proofs.Ast.Changes

/-!
# Storing trees by single steps

`Arena.insertAll` stores a tree completely before it attaches the root to a node.  A
builder that knows the place of a node before it knows what is below attaches the node
first and then goes on below it, and `attach` may refuse it.  Both ways lead to the same
arena: what is stored later changes neither the node that was attached nor the one that
it was attached to (`insertAll_commute`), so that the attachment can be moved to the end
(`insertAll_cons`).  And a new node is never refused at a slot that is there
(`attach_create`).
-/

namespace MiniC.Ast.Arena

variable {arena : Arena} {parent slot : Nat}

/-- A node of the arena has a slot. -/
def HasSlot (arena : Arena) (id slot : Nat) : Prop :=
  ∃ node, arena.nodes[id]? = some node ∧ slot < node.slots.length

theorem HasSlot.lt_size (h : arena.HasSlot parent slot) : parent < arena.size := by
  obtain ⟨node, hnode, -⟩ := h
  exact (Array.getElem?_eq_some_iff.mp hnode).1

@[simp] theorem size_create (arena : Arena) (kind : Kind) (location : Location) :
    (arena.create kind location).2.size = arena.size + 1 :=
  Array.size_push _

theorem HasSlot.create (h : arena.HasSlot parent slot) (kind : Kind) (location : Location) :
    (arena.create kind location).2.HasSlot parent slot := by
  have hlt := h.lt_size
  obtain ⟨node, hnode, hslot⟩ := h
  refine ⟨node, ?_, hslot⟩
  rw [getElem?_create, if_neg (Nat.ne_of_lt hlt), hnode]

/-- A new node has the slots of its kind. -/
theorem hasSlot_create {kind : Kind} (h : slot < kind.slotCount) (arena : Arena)
    (location : Location) : (arena.create kind location).2.HasSlot arena.size slot := by
  refine ⟨_, (getElem?_create ..).trans (if_pos rfl), ?_⟩
  rwa [List.length_replicate]

theorem HasSlot.link (h : arena.HasSlot parent slot) (other child place : Nat) :
    (arena.link other child place).HasSlot parent slot := by
  obtain ⟨node, hnode, hslot⟩ := h
  refine ⟨_, (getElem?_link ..).trans (congrArg (Option.map _) hnode), ?_⟩
  dsimp only
  split <;> split <;> simpa [Node.adopt] using hslot

/-- A new node is attached wherever there is a slot. -/
theorem attach_create (h : arena.HasSlot parent slot) (kind : Kind) (location : Location) :
    (arena.create kind location).2.attach parent arena.size slot =
      .ok ((arena.create kind location).2.link parent arena.size slot) := by
  obtain ⟨node, hnode, hslot⟩ := h.create kind location
  have hfree : (arena.create kind location).2.parentOf? arena.size = none := by
    rw [parentOf?_create, parentOf?, show arena.nodes[arena.size]? = none from Array.getElem?_size]
    rfl
  refine attach_eq_ok_iff.mpr ⟨node, hnode, ?_, hslot, Nat.ne_of_lt h.lt_size, hfree, rfl⟩
  rw [size_create]
  exact Nat.lt_succ_self _

/-! ## Storing one tree after another -/

@[simp] theorem fst_insert (arena : Arena) (tree : Tree) : (arena.insert tree).1 = arena.size := by
  cases tree
  rfl

theorem insertAll_append (trees more : List Tree) (arena : Arena) :
    arena.insertAll parent slot (trees ++ more) =
      (arena.insertAll parent slot trees).insertAll parent slot more := by
  induction trees generalizing arena with
  | nil => rfl
  | cons tree trees ih => exact ih _

mutual

theorem size_le_insert (arena : Arena) : (tree : Tree) → arena.size ≤ (arena.insert tree).2.size
  | .node kind location first second third => by
      let created := (arena.create kind location).2
      let one := created.insertAll arena.size 0 first
      let two := one.insertAll arena.size 1 second
      calc arena.size
          ≤ created.size := size_create arena kind location ▸ Nat.le_succ _
        _ ≤ one.size := size_le_insertAll created arena.size 0 first
        _ ≤ two.size := size_le_insertAll one arena.size 1 second
        _ ≤ (two.insertAll arena.size 2 third).size := size_le_insertAll two arena.size 2 third

theorem size_le_insertAll (arena : Arena) (parent slot : Nat) : (trees : List Tree) →
    arena.size ≤ (arena.insertAll parent slot trees).size
  | [] => Nat.le_refl _
  | tree :: trees => by
      have hinsert := size_le_insert arena tree
      have hrest := size_le_insertAll
        ((arena.insert tree).2.link parent (arena.insert tree).1 slot) parent slot trees
      rw [size_link] at hrest
      exact Nat.le_trans hinsert hrest

end

mutual

theorem HasSlot.insert {arena : Arena} {id index : Nat} (h : arena.HasSlot id index) :
    (tree : Tree) → (arena.insert tree).2.HasSlot id index
  | .node kind location first second third =>
      (((h.create kind location).insertAll _ 0 first).insertAll _ 1 second).insertAll _ 2 third

theorem HasSlot.insertAll {arena : Arena} {id index : Nat} (h : arena.HasSlot id index)
    (parent slot : Nat) : (trees : List Tree) →
    (arena.insertAll parent slot trees).HasSlot id index
  | [] => h
  | tree :: trees => ((h.insert tree).link parent _ slot).insertAll parent slot trees

end

/-! ## Moving a change past what is stored later -/

/-- A change to an arena of `bound` nodes or more that can be made before a node is
created as well as after that, and before a new node is attached to a node that is apart
from the change. -/
structure Commutes (change : Arena → Arena) (bound : Nat) (Apart : Nat → Prop) : Prop where
  size_eq : ∀ arena, (change arena).size = arena.size
  apart_of_le : ∀ {id}, bound ≤ id → Apart id
  create_eq : ∀ {arena}, bound ≤ arena.size → ∀ kind location,
    (change arena).create kind location = (arena.size, change (arena.create kind location).2)
  link_eq : ∀ arena {other child}, Apart other → bound ≤ child → ∀ slot,
    (change arena).link other child slot = change (arena.link other child slot)

/-- Nothing that is stored reads the root. -/
theorem commutes_setRoot (root : Nat) : Commutes (setRoot · root) 0 fun _ => True where
  size_eq _ := rfl
  apart_of_le _ := trivial
  create_eq _ _ _ := rfl
  link_eq _ _ _ _ _ _ := rfl

theorem ext_nodes {arena other : Arena} (hnodes : ∀ id : Nat, arena.nodes[id]? = other.nodes[id]?)
    (hroot : arena.root = other.root) (hserials : arena.serials = other.serials) :
    arena = other := by
  obtain ⟨nodes, root, serials⟩ := arena
  obtain ⟨others, otherRoot, otherSerials⟩ := other
  obtain rfl : nodes = others := Array.ext_getElem? hnodes
  cases hroot
  cases hserials
  rfl

/-- An attachment changes none of the nodes that come later. -/
theorem commutes_link (parent child slot : Nat) :
    Commutes (link · parent child slot) (max parent child + 1) (· ≠ parent) where
  size_eq arena := size_link arena parent child slot
  apart_of_le h := by omega
  create_eq {arena} hbound kind location := by
    refine Prod.ext (size_link arena parent child slot) (ext_nodes (fun id => ?_) rfl rfl)
    rw [getElem?_create, getElem?_link, getElem?_link, getElem?_create, size_link]
    by_cases hid : id = arena.size
    · have hparent : parent ≠ id := by omega
      have hchild : child ≠ id := by omega
      rw [if_pos hid, if_pos hid, Option.map_some]
      dsimp only
      rw [if_neg hparent, if_neg hchild]
      rfl
    · rw [if_neg hid, if_neg hid]
  link_eq arena {other} {newChild} hother hchild place := by
    have hne : child ≠ newChild := by omega
    refine ext_nodes (fun id => ?_) rfl rfl
    simp only [getElem?_link, Option.map_map]
    congr 1
    funext node
    dsimp only [Function.comp_def]
    -- a node that both change is the parent of the one and the child of the other
    split <;> split <;> split <;> split <;> first | rfl | (exfalso; omega)

section Commute

variable {change : Arena → Arena} {bound : Nat} {Apart : Nat → Prop}

mutual

theorem insert_commute (commutes : Commutes change bound Apart) {arena : Arena}
    (hbound : bound ≤ arena.size) : (tree : Tree) →
    (change arena).insert tree = ((arena.insert tree).1, change (arena.insert tree).2)
  | .node kind location first second third => by
      have hnew := commutes.apart_of_le hbound
      let created := (arena.create kind location).2
      have hcreated : bound ≤ created.size :=
        Nat.le_trans hbound (size_create arena kind location ▸ Nat.le_succ _)
      have hone := Nat.le_trans hcreated (size_le_insertAll created arena.size 0 first)
      have htwo := Nat.le_trans hone (size_le_insertAll _ arena.size 1 second)
      rw [insert, commutes.create_eq hbound]
      dsimp only
      rw [insertAll_commute commutes hcreated hnew 0 first,
        insertAll_commute commutes hone hnew 1 second,
        insertAll_commute commutes htwo hnew 2 third]
      rfl

/-- A change can be made before trees are stored as well as after that. -/
theorem insertAll_commute (commutes : Commutes change bound Apart) {arena : Arena}
    (hbound : bound ≤ arena.size) {other : Nat} (hother : Apart other) (slot : Nat) :
    (trees : List Tree) →
    (change arena).insertAll other slot trees = change (arena.insertAll other slot trees)
  | [] => rfl
  | tree :: trees => by
      have hinserted :
          bound ≤ ((arena.insert tree).2.link other (arena.insert tree).1 slot).size := by
        rw [size_link]
        exact Nat.le_trans hbound (size_le_insert arena tree)
      have hchild : bound ≤ (arena.insert tree).1 := by
        rw [fst_insert]
        exact hbound
      rw [insertAll, insert_commute commutes hbound tree]
      dsimp only
      rw [commutes.link_eq _ hother hchild, insertAll_commute commutes hinserted hother slot trees,
        insertAll]

end

end Commute

/-- A tree is stored in a slot by attaching its root and then storing what is below it. -/
theorem insertAll_node (hparent : parent < arena.size) (kind : Kind) (location : Location)
    (first second third : List Tree) :
    arena.insertAll parent slot [.node kind location first second third] =
      ((((arena.create kind location).2.link parent arena.size slot).insertAll arena.size 0
        first).insertAll arena.size 1 second).insertAll arena.size 2 third := by
  have hne : arena.size ≠ parent := Nat.ne_of_gt hparent
  have hcommutes := commutes_link parent arena.size slot
  let created := (arena.create kind location).2
  have hcreated : max parent arena.size + 1 ≤ created.size := by
    rw [size_create]
    omega
  have hone := Nat.le_trans hcreated (size_le_insertAll created arena.size 0 first)
  have htwo := Nat.le_trans hone (size_le_insertAll _ arena.size 1 second)
  rw [insertAll_commute hcommutes hcreated hne 0 first,
    insertAll_commute hcommutes hone hne 1 second,
    insertAll_commute hcommutes htwo hne 2 third]
  rfl

end MiniC.Ast.Arena
