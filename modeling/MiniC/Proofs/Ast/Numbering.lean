import MiniC.Ast.Arena

/-!
# The numbering of a stored tree

An arena that a tree is stored in holds the nodes of the tree in preorder: the root
comes first, then what is below it, slot by slot.  `Tree.nodesFrom` lists these nodes
with their numbers, parents and slots, by recursion on the tree, and
`insert_ofNodes` says that storing a tree adds this very list.

What an arena holds from a number on (`Arena.HoldsAt`) is then taken apart along the
tree: `HoldsAt.parts` for the slots of a node, `HoldsAt.first` for the trees in a slot.
-/

namespace MiniC.Ast

mutual

/-- The number of nodes of a tree. -/
def Tree.size : Tree → Nat
  | .node _ _ first second third => 1 + sizeAll first + sizeAll second + sizeAll third

/-- The number of nodes of several trees. -/
def sizeAll : List Tree → Nat
  | [] => 0
  | tree :: trees => tree.size + sizeAll trees

end

theorem Tree.size_pos (tree : Tree) : 0 < tree.size := by
  cases tree
  rw [Tree.size]
  omega

/-- The numbers of the roots of trees that are numbered one after another. -/
def rootsFrom (start : Nat) : List Tree → List Nat
  | [] => []
  | tree :: trees => start :: rootsFrom (start + tree.size) trees

mutual

/-- The nodes of a tree in preorder, numbered from `id` on. -/
def Tree.nodesFrom (id : Nat) (parent : Option Nat) : Tree → List Node
  | .node kind location first second third =>
      let one := id + 1
      let two := one + sizeAll first
      let three := two + sizeAll second
      let slots := [rootsFrom one first, rootsFrom two second, rootsFrom three third]
      ⟨id, kind, location, parent, slots.take kind.slotCount⟩ ::
        (nodesFromAll one id first ++ nodesFromAll two id second ++ nodesFromAll three id third)

/-- The nodes of trees with the same parent, numbered from `start` on. -/
def nodesFromAll (start parent : Nat) : List Tree → List Node
  | [] => []
  | tree :: trees =>
      tree.nodesFrom start (some parent) ++ nodesFromAll (start + tree.size) parent trees

end

mutual

@[simp] theorem length_nodesFrom (id : Nat) (parent : Option Nat) : (tree : Tree) →
    (tree.nodesFrom id parent).length = tree.size
  | .node _ _ first second third => by
      simp only [Tree.nodesFrom, Tree.size, List.length_cons, List.length_append,
        length_nodesFromAll]
      omega

@[simp] theorem length_nodesFromAll (start parent : Nat) : (trees : List Tree) →
    (nodesFromAll start parent trees).length = sizeAll trees
  | [] => rfl
  | tree :: trees => by
      simp only [nodesFromAll, sizeAll, List.length_append, length_nodesFrom, length_nodesFromAll]

end

namespace Node

/-- A node with more children at the end of a slot. -/
def adoptAll (node : Node) (slot : Nat) (children : List Nat) : Node :=
  { node with slots := node.slots.modify slot (· ++ children) }

@[simp] theorem adoptAll_nil (node : Node) (slot : Nat) : node.adoptAll slot [] = node := by
  have hsame : (fun children : List Nat => children ++ []) = id := by
    funext children
    exact List.append_nil children
  rw [adoptAll, hsame, List.modify_id]

theorem adoptAll_adopt (node : Node) (slot child : Nat) (children : List Nat) :
    (node.adopt slot child).adoptAll slot children = node.adoptAll slot (child :: children) := by
  simp [adopt, adoptAll, List.modify_modify_eq, Function.comp_def]

end Node

namespace Arena

/-! ## Storing a tree -/

/-- The arena of nodes that are numbered by their positions. -/
def ofNodes (nodes : List Node) : Arena := { nodes := nodes.toArray, serials := ⟨nodes.length⟩ }

theorem modify_at (front back : List Node) (node : Node) (change : Node → Node) :
    (front ++ node :: back).modify front.length change = front ++ change node :: back := by
  induction front with
  | nil => rfl
  | cons other front ih =>
      rw [List.cons_append, List.length_cons, List.modify_succ_cons, ih, List.cons_append]

/-- A tree that was stored at the end becomes a child. -/
theorem link_ofNodes (front back : List Node) (node : Node) (slot : Nat) (tree : Tree) :
    let child := (front ++ node :: back).length
    (ofNodes ((front ++ node :: back) ++ tree.nodesFrom child none)).link front.length child slot =
      ofNodes (front ++ node.adopt slot child ::
        (back ++ tree.nodesFrom child (some front.length))) := by
  intro child
  obtain ⟨kind, location, first, second, third⟩ := tree
  simp only [ofNodes, link, Tree.nodesFrom, List.modify_toArray]
  rw [modify_at (front ++ node :: back), List.append_assoc, List.cons_append, modify_at front]
  simp

mutual

/-- **Storing a tree** adds its nodes in preorder. -/
theorem insert_ofNodes (nodes : List Node) : (tree : Tree) →
    (ofNodes nodes).insert tree =
      (nodes.length, ofNodes (nodes ++ tree.nodesFrom nodes.length none))
  | .node kind location first second third => by
      let created : Node :=
        ⟨nodes.length, kind, location, none, List.replicate kind.slotCount []⟩
      have hcreate : (ofNodes nodes).create kind location =
          (nodes.length, ofNodes (nodes ++ [created])) := by
        simp [create, ofNodes, Serials.next, created]
      rw [insert, hcreate]
      dsimp only
      rw [insertAll_ofNodes nodes [] created 0 first, insertAll_ofNodes nodes _ _ 1 second,
        insertAll_ofNodes nodes _ _ 2 third]
      have hslots : ∀ (count : Nat), count ≤ 3 → ∀ one two three : List Nat,
          (((List.replicate count []).modify 0 (· ++ one)).modify 1 (· ++ two)).modify 2
            (· ++ three) = [one, two, three].take count := by
        intro count hcount one two three
        match count, hcount with
        | 0, _ | 1, _ | 2, _ | 3, _ => rfl
      have htwo : nodes.length + (sizeAll first + 1) = nodes.length + 1 + sizeAll first := by omega
      have hthree : nodes.length + (sizeAll first + sizeAll second + 1) =
          nodes.length + 1 + sizeAll first + sizeAll second := by omega
      simp [Tree.nodesFrom, Node.adoptAll, created, hslots _ kind.slotCount_le, htwo, hthree]

/-- Storing trees as children of a node adds their nodes, one tree after another. -/
theorem insertAll_ofNodes (front back : List Node) (node : Node) (slot : Nat) :
    (trees : List Tree) →
    (ofNodes (front ++ node :: back)).insertAll front.length slot trees =
      ofNodes (front ++
        node.adoptAll slot (rootsFrom (front ++ node :: back).length trees) ::
          (back ++ nodesFromAll (front ++ node :: back).length front.length trees))
  | [] => by simp [insertAll, rootsFrom, nodesFromAll]
  | tree :: trees => by
      rw [insertAll, insert_ofNodes (front ++ node :: back) tree]
      dsimp only
      rw [link_ofNodes, insertAll_ofNodes front _ _ slot trees, Node.adoptAll_adopt]
      have hlength : (front ++ node.adopt slot (front ++ node :: back).length ::
          (back ++ tree.nodesFrom (front ++ node :: back).length (some front.length))).length =
          (front ++ node :: back).length + tree.size := by
        simp only [List.length_append, List.length_cons, length_nodesFrom]
        omega
      rw [hlength, rootsFrom, nodesFromAll, List.append_assoc]

end

/-- The arena of a tree. -/
theorem ofTree_eq (tree : Tree) :
    ofTree tree = (ofNodes (tree.nodesFrom 0 none)).setRoot 0 := by
  have hempty : empty = ofNodes [] := rfl
  rw [ofTree, hempty, insert_ofNodes]
  rfl

/-! ## Nodes at a place of an arena -/

/-- An arena has nodes at the numbers from `start` on. -/
def HoldsAt (arena : Arena) (start : Nat) (nodes : List Node) : Prop :=
  ∀ index node, nodes[index]? = some node → arena.nodes[start + index]? = some node

variable {arena : Arena} {start : Nat}

theorem holdsAt_ofTree (tree : Tree) : (ofTree tree).HoldsAt 0 (tree.nodesFrom 0 none) := by
  intro index node hnode
  rw [ofTree_eq, setRoot, ofNodes, Nat.zero_add]
  simpa using hnode

theorem HoldsAt.head {node : Node} {nodes : List Node} (h : arena.HoldsAt start (node :: nodes)) :
    arena.nodes[start]? = some node :=
  h 0 node rfl

theorem HoldsAt.tail {node : Node} {nodes : List Node} (h : arena.HoldsAt start (node :: nodes)) :
    arena.HoldsAt (start + 1) nodes := by
  intro index other hother
  rw [Nat.add_assoc, Nat.add_comm 1]
  exact h (index + 1) other hother

theorem HoldsAt.left {nodes more : List Node} (h : arena.HoldsAt start (nodes ++ more)) :
    arena.HoldsAt start nodes := by
  intro index node hnode
  obtain ⟨hlt, -⟩ := List.getElem?_eq_some_iff.mp hnode
  exact h index node (by rw [List.getElem?_append_left hlt, hnode])

theorem HoldsAt.right {nodes more : List Node} (h : arena.HoldsAt start (nodes ++ more)) :
    arena.HoldsAt (start + nodes.length) more := by
  intro index node hnode
  rw [Nat.add_assoc]
  apply h (nodes.length + index) node
  rw [List.getElem?_append_right (Nat.le_add_right _ _), Nat.add_sub_cancel_left, hnode]

/-- What an arena with a tree holds: the root, and the trees in its slots. -/
theorem HoldsAt.parts {id : Nat} {parent : Option Nat} {kind : Kind} {location : Location}
    {first second third : List Tree}
    (h : arena.HoldsAt id ((Tree.node kind location first second third).nodesFrom id parent)) :
    let one := id + 1
    let two := one + sizeAll first
    let three := two + sizeAll second
    arena.nodes[id]? = some ⟨id, kind, location, parent,
        [rootsFrom one first, rootsFrom two second, rootsFrom three third].take kind.slotCount⟩ ∧
      arena.HoldsAt one (nodesFromAll one id first) ∧
      arena.HoldsAt two (nodesFromAll two id second) ∧
      arena.HoldsAt three (nodesFromAll three id third) := by
  rw [Tree.nodesFrom] at h
  have hbelow := h.tail
  have hthird := hbelow.right
  have hsecond := hbelow.left.right
  rw [List.length_append, length_nodesFromAll, length_nodesFromAll, ← Nat.add_assoc] at hthird
  rw [length_nodesFromAll] at hsecond
  exact ⟨h.head, hbelow.left.left, hsecond, hthird⟩

theorem HoldsAt.first {parent : Nat} {tree : Tree} {trees : List Tree}
    (h : arena.HoldsAt start (nodesFromAll start parent (tree :: trees))) :
    arena.HoldsAt start (tree.nodesFrom start (some parent)) ∧
      arena.HoldsAt (start + tree.size) (nodesFromAll (start + tree.size) parent trees) := by
  rw [nodesFromAll] at h
  have hrest := h.right
  rw [length_nodesFrom] at hrest
  exact ⟨h.left, hrest⟩

end Arena

end MiniC.Ast
