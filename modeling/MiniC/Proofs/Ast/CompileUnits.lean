import Mathlib.Logic.Relation
import MiniC.Proofs.Ast.Changes

/-!
# Compile units below the root

A tree is `UnitFree` if none of its nodes is a compile unit.  Where no node of an arena is
below itself and the root is the only compile unit that can be reached from it, the trees
below the root are free of them (`allUnitFree_of_tree?`).
-/

namespace MiniC.Ast

mutual

/-- No node of a tree is a compile unit. -/
def Tree.UnitFree : Tree → Prop
  | .node kind _ first second third =>
      kind ≠ .compileUnit ∧ AllUnitFree first ∧ AllUnitFree second ∧ AllUnitFree third

/-- No node of some trees is a compile unit. -/
def AllUnitFree : List Tree → Prop
  | [] => True
  | tree :: trees => tree.UnitFree ∧ AllUnitFree trees

end

theorem allUnitFree_iff {trees : List Tree} :
    AllUnitFree trees ↔ ∀ tree ∈ trees, tree.UnitFree := by
  induction trees with
  | nil => simp [AllUnitFree]
  | cons tree trees ih => simp [AllUnitFree, ih]

namespace Arena

open Relation (ReflTransGen TransGen)

variable {arena : Arena} {id depth : Nat} {node : Node}

/-- A node lists another one as its child. -/
def Lists (arena : Arena) (parent child : Nat) : Prop := child ∈ arena.childrenOf parent

/-- The children in a slot are among the listed ones. -/
theorem lists_of_mem_childrenIn {index child : Nat} (hnode : arena.nodes[id]? = some node)
    (h : child ∈ node.childrenIn index) : arena.Lists id child := by
  rw [Lists, childrenOf, hnode, Option.map_some, Option.getD_some, Node.children]
  rw [Node.childrenIn, List.getD_eq_getElem?_getD] at h
  cases hslot : node.slots[index]? with
  | none => simp [hslot] at h
  | some slot =>
      rw [hslot] at h
      exact List.mem_flatten.mpr ⟨slot, List.mem_of_getElem? hslot, h⟩

theorem unitFree_of_treeTo? {tree : Tree} (h : arena.treeTo? depth id = some tree)
    (hfree : ∀ other node, ReflTransGen arena.Lists id other → arena.nodes[other]? = some node →
      node.kind ≠ .compileUnit) : tree.UnitFree := by
  induction depth generalizing id tree with
  | zero =>
      obtain ⟨node, hnode, rfl⟩ := Option.map_eq_some_iff.mp h
      exact ⟨hfree id node .refl hnode, trivial, trivial, trivial⟩
  | succ depth ih =>
      obtain ⟨node, hnode, rfl⟩ := Option.map_eq_some_iff.mp h
      have hslot (index : Nat) :
          AllUnitFree ((node.childrenIn index).filterMap (arena.treeTo? depth)) := by
        apply allUnitFree_iff.mpr
        intro tree hmem
        obtain ⟨child, hchild, htree⟩ := List.mem_filterMap.mp hmem
        have hlists := lists_of_mem_childrenIn hnode hchild
        exact ih htree fun other node hreaches => hfree other node (hreaches.head hlists)
      exact ⟨hfree id node .refl hnode, hslot 0, hslot 1, hslot 2⟩

/-- Below the root there is no compile unit, if it is the only one that it reaches. -/
theorem allUnitFree_of_tree? {root : Nat} {kind : Kind} {location : Location}
    {first second third : List Tree}
    (h : arena.tree? root = some (.node kind location first second third))
    (hacyclic : ∀ id, ReflTransGen arena.Lists root id → ¬ TransGen arena.Lists id id)
    (honly : ∀ id node, ReflTransGen arena.Lists root id → arena.nodes[id]? = some node →
      node.kind = .compileUnit → id = root) :
    AllUnitFree first ∧ AllUnitFree second ∧ AllUnitFree third := by
  obtain ⟨node, hnode, htree⟩ := Option.map_eq_some_iff.mp h
  have hslot (index : Nat) :
      AllUnitFree ((node.childrenIn index).filterMap (arena.treeTo? (arena.size + 1))) := by
    apply allUnitFree_iff.mpr
    intro tree hmem
    obtain ⟨child, hchild, htree⟩ := List.mem_filterMap.mp hmem
    have hlists := lists_of_mem_childrenIn hnode hchild
    apply unitFree_of_treeTo? htree
    intro other inner hreaches hinner hkind
    -- the root is not below itself
    obtain rfl := honly other inner (hreaches.head hlists) hinner hkind
    exact hacyclic other .refl (TransGen.head' hlists hreaches)
  cases htree
  exact ⟨hslot 0, hslot 1, hslot 2⟩

end Arena

end MiniC.Ast
