import MiniC.Proofs.Emission.Histories

/-!
# Emissions after any operations

What holds of every node of an emission, however it was made: by any operations in any
order, with any arguments, some of which may have failed (`nodeInvariant_of_operations`).
-/

namespace MiniC

namespace Emission

/-- What holds of a node of the emission that operations on an empty one lead to. -/
structure NodeInvariant (options : Asm.Options) (operations : List Operation)
    (emission : Emission) (id : Nat) (node : Node) : Prop where
  /-- The name of a node is the label of its kind and its number. -/
  name : emission.name id = .ok (node.kind.label ++ "_" ++ toString id)
  /-- Node 0 is the file, and no other is. -/
  file : node.kind = .file ↔ id = 0
  /-- The functions have frames, and no other nodes have. -/
  frame : (∃ frame, emission.frame id = .ok frame) ↔ node.kind = .function
  /-- The lists of a node are those of its kind, in order. -/
  contexts : node.body.lists.map Prod.fst = node.kind.contexts
  /-- What is in a list is a node. -/
  listed : ∀ list ∈ node.body.lists, ∀ child ∈ list.2, child < emission.nodes.size
  /-- What is named as the parent is a node. -/
  parent : ∀ parent, node.parent = some parent → parent < emission.nodes.size
  /-- The buffer of a leaf is at the nesting of the leaf. -/
  buffer : ∀ sort buffer, node.body = .leaf sort buffer → buffer.nesting = node.nesting
  /-- A node is of the kind that it was created as.  Its nesting is that of its parent when it
  was created, zero for the file, with one more for each time that it was entered since and one
  less for each time that it was left with success.  It cannot be left if and only if that is
  zero, and the error then names it. -/
  nesting : ∃ level start since, Origin options operations id node.kind level start since ∧
    node.nesting + timesLeft id start since = level + timesEntered id since ∧
    (level + timesEntered id since = timesLeft id start since →
      Emit.leave id emission =
        .error (.unbalanced (node.kind.label ++ "_" ++ toString id)) emission) ∧
    (level + timesEntered id since ≠ timesLeft id start since →
      ∃ after, Emit.leave id emission = .ok () after)

theorem exists_frame_iff {emission : Emission} {id : Nat} {node : Node}
    (hnode : emission.nodes[id]? = some node) :
    (∃ frame, emission.frame id = .ok frame) ↔ node.kind = .function := by
  rw [Emission.frame, node_of_some hnode]
  obtain ⟨parent, base, nesting, body⟩ := node
  cases body <;> simp [bind, Except.bind, Node.kind, Body.kind]

end Emission

open Emission in
/-- **The representation of an emission is sound after any operations** on an empty one: the
file is there, and every node is as `NodeInvariant` says. -/
theorem nodeInvariant_of_operations (options : Asm.Options) (operations : List Operation) :
    let emission := (empty options).afterAll operations
    fileId < emission.nodes.size ∧
      ∀ id node, emission.nodes[id]? = some node →
        NodeInvariant options operations emission id node := by
  intro emission
  have hwellFormed : emission.WellFormed := (wellFormed_empty options).afterAll operations
  refine ⟨hwellFormed.file_lt, ?_⟩
  intro id node hnode
  have hfits := hwellFormed.fits hnode
  refine
    { name := ?_
      file := hfits.file
      frame := exists_frame_iff hnode
      contexts := node.body.map_fst_lists
      listed := hfits.listed_lt
      parent := hfits.parent_lt
      buffer := hfits.buffer_nesting
      nesting := ?_ }
  · rw [Emission.name, node_of_some hnode]
    rfl
  -- the level is the one the node was made at and what was entered and left since
  · obtain ⟨level, start, since, horigin, hcount⟩ := exists_origin options operations hnode
    refine ⟨level, start, since, horigin, hcount, ?_, ?_⟩
    · intro hzero
      exact run_leave_of_zero hnode (by omega)
    · intro hpositive
      obtain ⟨nesting, hnesting⟩ : ∃ nesting, node.nesting = nesting + 1 :=
        Nat.exists_eq_succ_of_ne_zero (by omega)
      obtain ⟨outer, -, -, -, hrun⟩ := run_leave_of_succ hwellFormed hnode hnesting
      exact ⟨_, hrun⟩

end MiniC
