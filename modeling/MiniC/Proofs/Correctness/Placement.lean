import MiniC.Proofs.Codegen.Placement
import MiniC.Proofs.Emission.StrictTree

/-!
# Emissions are strict trees

Nothing in an emission keeps a node from being listed twice, or below itself.  Code
generation does neither: each node that it makes is listed once at most, and in a composite
that was made before (`isStrictTree_of_emissionOfArena`).  So each node can be assembled, and
no leaf is laid twice.

That the root is the only compile unit is needed.  The code of another one would be the
file once more, and the file would be listed in itself.
-/

namespace MiniC

open Asm (Options)
open Ast (Arena Tree)
open Codegen (emissionOfArena emissionOfTree)
open Emission (Piece fileId)
open Relation (ReflTransGen TransGen)

/-- Code is generated for the tree at the root. -/
theorem tree_of_emissionOfArena {arena : Arena} {root : Nat} {options : Options}
    {emission : Emission} (hroot : arena.root = some root)
    (hgenerate : emissionOfArena options arena = .ok emission) :
    ∃ tree, arena.tree? root = some tree ∧ emissionOfTree options tree = .ok emission := by
  rw [emissionOfArena, hroot, Option.bind_eq_bind, Option.bind_some] at hgenerate
  split at hgenerate
  next tree htree => exact ⟨tree, htree, hgenerate⟩
  next => cases hgenerate

/-- **Emissions are strict trees.**  Let code be generated for an arena in which nothing
that the root reaches is below itself, and nothing but the root is a compile unit.  Then each
listed node has a larger number than its composite, has that one as its parent, and is in one
position of one list only, and each node has the nesting again that it was created at.

So each node is assembled, from pieces that are the lines of composites around their contexts
and whole leaves.  The text of the file is that of its pieces, and no leaf is among them
twice.  A leaf that another one has absorbed is in no list. -/
theorem isStrictTree_of_emissionOfArena {arena : Arena} {root : Nat} {options : Options}
    {emission : Emission} (hroot : arena.root = some root)
    (hacyclic : ∀ id, ReflTransGen arena.Lists root id → ¬ TransGen arena.Lists id id)
    (honly : ∀ id node, ReflTransGen arena.Lists root id → arena.nodes[id]? = some node →
      node.kind = .compileUnit → id = root)
    (hgenerate : emissionOfArena options arena = .ok emission) :
    (∀ position child, emission.listedAt? position = some child →
        position.composite < child ∧
        (∃ node, emission.nodes[child]? = some node ∧ node.parent = some position.composite) ∧
        ∀ other, emission.listedAt? other = some child → other = position) ∧
      (∀ (id : Nat) (node : Emission.Node), emission.nodes[id]? = some node →
        node.nesting = node.base) ∧
      (∀ id < emission.nodes.size, ∃ buffer, emission.assemble id = .ok buffer ∧
        buffer.entries.toList = (emission.pieces id).flatMap Piece.entries) ∧
      emission.text =
        .ok (String.join ((emission.pieces fileId).map (Piece.text emission.options.style))) ∧
      ((emission.pieces fileId).filterMap Piece.leaf?).Nodup ∧
      (∀ id entries, .leaf id entries ∈ emission.pieces fileId →
        ∃ buffer, emission.leaf id = .ok buffer ∧ buffer.entries.toList = entries) ∧
      ∀ (id : Nat) (node : Emission.Node) (target : Nat) (lines : Asm.Buffer),
        emission.nodes[id]? = some node → node.parent = some target →
        emission.leaf target = .ok lines → ∀ position, emission.listedAt? position ≠ some id := by
  obtain ⟨⟨kind, location, first, second, third⟩, htree, hemission⟩ :=
    tree_of_emissionOfArena hroot hgenerate
  obtain ⟨hfree, -, -⟩ := Arena.allUnitFree_of_tree? htree hacyclic honly
  obtain ⟨strict, hsize⟩ := Codegen.isStrictTree_of_emissionOfTree hfree hemission
  have placed := strict.toPlaced
  refine ⟨fun position child h => ⟨placed.later h, placed.parent h, fun other => placed.unique h⟩,
    fun id node => strict.level, fun id => Emission.assemble_of_placed placed,
    Emission.text_of_placed placed hsize, placed.nodup_leavesTo _ _,
    fun id entries => Emission.leaf_of_mem_piecesTo,
    fun id node target lines => placed.loose_of_absorbed⟩

namespace Sample

/-- A file with a function in a function.  The inner one stands before a local of the outer
one, whose comment is added after it. -/
def nested : Arena :=
  let node (kind : Ast.Kind) (first : List Tree) : Tree := .node kind .unknown first [] []
  let function (name : String) (statements : List Tree) : Tree :=
    .node (.functionDefinition name "int") .unknown [] [node .block statements] []
  .ofTree <| node .compileUnit [function "outer" [
    function "inner" [node .returnStatement [node (.number 1) []]],
    node .localDeclaration
      [node (.typeSpecifier "int") [], node (.identifier "x") [], node (.number 2) []]]]

end Sample

/-- Steps to larger numbers do not lead back. -/
theorem not_transGen_of_lt {step : Nat → Nat → Prop} (h : ∀ low high, step low high → low < high)
    (id : Nat) : ¬ TransGen step id id := by
  intro hcycle
  have hlt : TransGen (fun low high : Nat => low < high) id id := TransGen.mono h _ _ hcycle
  rw [Relation.transGen_eq_self] at hlt
  exact Nat.lt_irrefl id hlt

/-- Code is generated for nested functions, and its emission is a strict tree. -/
theorem isStrictTree_nested :
    ∃ emission, emissionOfArena {} Sample.nested = .ok emission ∧
      (∀ position child, emission.listedAt? position = some child → position.composite < child) ∧
      ((emission.pieces fileId).filterMap Piece.leaf?).Nodup := by
  obtain ⟨emission, hgenerate⟩ : ∃ emission, emissionOfArena {} Sample.nested = .ok emission :=
    exists_eq_ok_of_isOk (by decide +kernel)
  have hroot : Sample.nested.root = some 0 := by decide +kernel
  have hlists : ∀ low high, Sample.nested.Lists low high → low < high := by
    have hlater : ∀ id < Sample.nested.size, ∀ child ∈ Sample.nested.childrenOf id, id < child := by
      decide +kernel
    intro low high hmem
    cases hnode : Sample.nested.nodes[low]? with
    | none => simp [Arena.Lists, Arena.childrenOf, hnode] at hmem
    | some node => exact hlater low (Array.getElem?_eq_some_iff.mp hnode).1 high hmem
  have honly : ∀ id node, Sample.nested.nodes[id]? = some node → node.kind = .compileUnit →
      id = 0 := by
    have hunits : ∀ id < Sample.nested.size,
        Sample.nested.nodes[id]?.map Ast.Node.kind = some .compileUnit → id = 0 := by
      decide +kernel
    intro id node hnode hkind
    refine hunits id (Array.getElem?_eq_some_iff.mp hnode).1 ?_
    rw [hnode, Option.map_some, hkind]
  obtain ⟨htree, -, -, -, hnodup, -⟩ := isStrictTree_of_emissionOfArena hroot
    (fun id _ => not_transGen_of_lt hlists id) (fun id node _ => honly id node) hgenerate
  exact ⟨emission, hgenerate, fun position child h => (htree position child h).1, hnodup⟩

end MiniC
