import Mathlib.Data.List.Nodup
import Mathlib.Logic.Relation
import MiniC.Proofs.Asm.Buffer
import MiniC.Proofs.Emission.Assembly
import MiniC.Proofs.Emission.Positions

/-!
# Strict trees are assembled once through

Assembly walks down the lists of a node.  In a placed emission numbers grow on the way, so
that it ends (`assemble_of_placed`), and no two ways lead to the same node, so that it comes
by each leaf once at most (`nodup_leaves`).

The lines of a node are put together from `pieces`: stretches of lines that composites lay
around their contexts, and leaves.
-/

namespace MiniC.Emission

open Asm (Buffer Entry Instruction Style)
open Relation (ReflTransGen)

/-! ## Pieces -/

/-- What a node lays, in order: lines of its own, and the nodes in contexts. -/
def parts (options : Asm.Options) (id : Nat) (node : Node) : List (List Entry ⊕ Context) :=
  let label (suffix : String) := nameOf node.kind id ++ "_" ++ suffix
  let own (code : List Instruction) := code.map (Entry.mk node.base)
  let inner (code : List Instruction) := code.map (Entry.mk (node.base + 1))
  match node.body with
  | .leaf _ buffer => [.inl buffer.entries.toList]
  | .file _ _ =>
      [.inl (own (fileHead options)), .inr .fileData, .inl (own [.directive ".code"]),
        .inr .fileCode, .inl (own [.fileEnd options.entryPoint])]
  | .function _ _ frame =>
      [.inl (own [.proc frame.name] ++ inner (prologue frame)), .inr .functionHeader,
        .inr .functionBody, .inl (inner (epilogue frame) ++ own [.endp frame.name])]
  | .conditional _ _ _ =>
      [.inr .ifCondition, .inl (own (jumpIfZero (label "else"))), .inr .ifThen,
        .inl (own [.jmp (label "endif"), .label (label "else")]), .inr .ifElse,
        .inl (own [.label (label "endif")])]
  | .loop _ _ =>
      [.inl (own [.label (label "loop")]), .inr .whileCondition,
        .inl (own (jumpIfZero (label "end"))), .inr .whileBody,
        .inl (own [.jmp (label "loop"), .label (label "end")])]
  | .compound _ => [.inr .compoundBody]

/-- A stretch of the lines of an emission. -/
inductive Piece where
  /-- Lines that a composite lays around its contexts. -/
  | frame (composite : Nat) (entries : List Entry)
  /-- All lines of a leaf. -/
  | leaf (id : Nat) (entries : List Entry)

namespace Piece

/-- The lines of a piece. -/
def entries : Piece → List Entry
  | frame _ entries | leaf _ entries => entries

/-- The leaf that a piece is. -/
def leaf? : Piece → Option Nat
  | frame _ _ => none
  | leaf id _ => some id

/-- A piece as it is written in a style. -/
def text (style : Style) (piece : Piece) : String :=
  String.join ((piece.entries.flatMap Entry.lines).map (Asm.Line.text style))

end Piece

/-- The piece that lines of a node make. -/
def Node.piece (id : Nat) (node : Node) (entries : List Entry) : Piece :=
  match node.body with
  | .leaf _ _ => .leaf id entries
  | _ => .frame id entries

/-- The pieces of a node, for a node with less than a number of levels of others below it. -/
def piecesTo (emission : Emission) : Nat → Nat → List Piece
  | 0, _ => []
  | depth + 1, id =>
      match emission.nodes[id]? with
      | none => []
      | some node =>
          (parts emission.options id node).flatMap <|
            Sum.elim (fun entries => [node.piece id entries]) fun context =>
              (emission.listed id context).flatMap (emission.piecesTo depth)

/-- The pieces of a node, in the order in which they are laid. -/
def pieces (emission : Emission) (id : Nat) : List Piece := emission.piecesTo emission.nodes.size id

/-- The leaves that are laid where a node is assembled, in order. -/
def leavesTo (emission : Emission) (depth id : Nat) : List Nat :=
  (emission.piecesTo depth id).filterMap Piece.leaf?

variable {emission : Emission} {id child depth : Nat} {node : Node} {context : Context}

theorem layout_eq_parts (options : Asm.Options) (id : Nat) (node : Node)
    (gathered : Context → List Entry) :
    layout options id node gathered =
      (parts options id node).flatMap (Sum.elim (fun entries => entries) gathered) := by
  rw [layout, parts]
  cases node.body <;> simp

theorem piecesTo_succ (hnode : emission.nodes[id]? = some node) :
    emission.piecesTo (depth + 1) id =
      (parts emission.options id node).flatMap (Sum.elim (fun entries => [node.piece id entries])
        fun context => (emission.listed id context).flatMap (emission.piecesTo depth)) := by
  rw [piecesTo, hnode]

theorem entries_piece (id : Nat) (node : Node) (entries : List Entry) :
    (node.piece id entries).entries = entries := by
  rw [Node.piece]
  split <;> rfl

/-! ## Assembly ends -/

/-- The lines of the pieces from a context. -/
def gathered (emission : Emission) (depth id : Nat) (context : Context) : List Entry :=
  (emission.listed id context).flatMap fun child =>
    (emission.piecesTo depth child).flatMap Piece.entries

theorem entries_piecesTo_succ (hnode : emission.nodes[id]? = some node) :
    (emission.piecesTo (depth + 1) id).flatMap Piece.entries =
      layout emission.options id node (emission.gathered depth id) := by
  rw [layout_eq_parts, piecesTo_succ hnode, List.flatMap_assoc]
  apply List.flatMap_congr
  intro part _
  cases part with
  | inl entries => simp [entries_piece]
  | inr context => simp [gathered, List.flatMap_assoc]

/-- A node gathers the pieces of its children, where each child is assembled from its own. -/
theorem gathers_of_children (hnode : emission.nodes[id]? = some node)
    (hchild : ∀ context, ∀ child ∈ emission.listed id context,
      ∃ buffer, emission.assembleTo depth child = .ok buffer ∧
        buffer.entries.toList = (emission.piecesTo depth child).flatMap Piece.entries) :
    Gathers emission depth node (emission.gathered depth id) := by
  intro context ids hids out
  have hlisted : emission.listed id context = ids := by
    rw [listed_of_some hnode, hids, Option.getD_some]
  have hparts : ∀ part ∈ ids.map fun child =>
      (child, (emission.piecesTo depth child).flatMap Piece.entries),
      ∃ buffer, emission.assembleTo depth part.1 = .ok buffer ∧
        buffer.entries.toList = part.2 := by
    intro part hpart
    obtain ⟨child, hmem, rfl⟩ := List.mem_map.mp hpart
    rw [← hlisted] at hmem
    exact hchild context child hmem
  obtain ⟨last, hlast, hnesting, hentries⟩ := gather_of_ok _ hparts out
  refine ⟨last, by simpa [Function.comp_def] using hlast, hnesting, ?_⟩
  rw [hentries, List.flatMap_map, gathered, hlisted]

/-- Listed nodes have larger numbers, so that there is depth left for them. -/
theorem assembleTo_of_placed (placed : emission.Placed) (hlt : id < emission.nodes.size)
    (hdepth : emission.nodes.size ≤ id + depth) :
    ∃ buffer, emission.assembleTo depth id = .ok buffer ∧
      buffer.entries.toList = (emission.piecesTo depth id).flatMap Piece.entries := by
  induction depth generalizing id with
  | zero => omega
  | succ depth ih =>
      obtain ⟨node, hnode⟩ := exists_node_of_lt hlt
      have hgathers : Gathers emission depth node (emission.gathered depth id) := by
        apply gathers_of_children hnode
        intro context child hmem
        -- a listed node comes after the one that lists it, so that less depth is enough
        obtain ⟨hlater, other, hother, -⟩ := placed.of_mem_listed hmem
        exact ih (lt_size_of_some hother) (by omega)
      obtain ⟨buffer, hbuffer, hentries⟩ := assembleTo_of_gathers hnode hgathers
      exact ⟨buffer, hbuffer, hentries.trans (entries_piecesTo_succ hnode).symm⟩

/-- Each node of a placed emission is assembled, from its pieces. -/
theorem assemble_of_placed (placed : emission.Placed) (hlt : id < emission.nodes.size) :
    ∃ buffer, emission.assemble id = .ok buffer ∧
      buffer.entries.toList = (emission.pieces id).flatMap Piece.entries :=
  assembleTo_of_placed placed hlt (Nat.le_add_left _ _)

/-- The text of the file is that of its pieces. -/
theorem text_of_placed (placed : emission.Placed) (hsize : 0 < emission.nodes.size) :
    emission.text =
      .ok (String.join ((emission.pieces fileId).map (Piece.text emission.options.style))) := by
  obtain ⟨buffer, hbuffer, hentries⟩ := assemble_of_placed placed hsize
  have hjoin (pieces : List Piece) :
      String.join (((pieces.flatMap Piece.entries).flatMap Entry.lines).map
          (Asm.Line.text emission.options.style)) =
        String.join (pieces.map (Piece.text emission.options.style)) := by
    induction pieces with
    | nil => rfl
    | cons piece pieces ih =>
        rw [List.flatMap_cons, List.flatMap_append, List.map_append, String.join_append, ih,
          List.map_cons, String.join_cons, Piece.text]
  rw [text, fileId, hbuffer]
  show Except.ok (buffer.text emission.options.style) = _
  rw [Buffer.text_eq_join, Buffer.lines, hentries, hjoin]

/-! ## No leaf is laid twice -/

/-- A list of one node holds another. -/
def Holds (emission : Emission) (composite child : Nat) : Prop :=
  ∃ context, child ∈ emission.listed composite context

namespace Placed

variable (placed : emission.Placed)
include placed

theorem right_unique : Relator.RightUnique (Function.swap emission.Holds) := by
  rintro child first second ⟨context, hfirst⟩ ⟨other, hsecond⟩
  obtain ⟨-, node, hnode, hparent⟩ := placed.of_mem_listed hfirst
  obtain ⟨-, same, hsame, hsameParent⟩ := placed.of_mem_listed hsecond
  cases hnode.symm.trans hsame
  exact Option.some.inj (hparent.symm.trans hsameParent)

theorem le_of_reaches {low : Nat} (h : ReflTransGen emission.Holds id low) : id ≤ low := by
  induction h with
  | refl => exact Nat.le_refl _
  | tail _ hholds ih =>
      obtain ⟨context, hmem⟩ := hholds
      exact Nat.le_trans ih (Nat.le_of_lt (placed.of_mem_listed hmem).1)

/-- No child of a node is below another one. -/
theorem eq_of_sibling_reaches {first second : Nat} (hfirst : emission.Holds id first)
    (hsecond : emission.Holds id second) (h : ReflTransGen emission.Holds first second) :
    second = first := by
  rcases h.cases_tail with heq | ⟨parent, hreaches, hholds⟩
  · exact heq
  -- a path of one step or more would end with a step from the common parent, which comes
  -- before all that is below it
  · obtain rfl := placed.right_unique hsecond hholds
    obtain ⟨context, hmem⟩ := hfirst
    have hlater := (placed.of_mem_listed hmem).1
    exact absurd (placed.le_of_reaches hreaches) (Nat.not_le.mpr hlater)

/-- What is below two children of a node is below one of them only. -/
theorem eq_of_reaches {first second low : Nat} (hfirst : emission.Holds id first)
    (hsecond : emission.Holds id second) (hlow : ReflTransGen emission.Holds first low)
    (hsame : ReflTransGen emission.Holds second low) : first = second := by
  rcases ReflTransGen.total_of_right_unique placed.right_unique hlow.swap hsame.swap with h | h
  · exact placed.eq_of_sibling_reaches hsecond hfirst h.swap
  · exact (placed.eq_of_sibling_reaches hfirst hsecond h.swap).symm

/-- The nodes that a node lists, context by context. -/
theorem nodup_children (node : Node) :
    (node.kind.contexts.flatMap (emission.listed id)).Nodup := by
  -- within one context positions differ by their index, and between two by the context
  refine List.nodup_flatMap.mpr ⟨fun context _ => ?_, ?_⟩
  · refine List.nodup_iff_getElem?_ne_getElem?.mpr fun first second hlt hlength heq => ?_
    have hat := List.getElem?_eq_getElem hlength
    have hposition : emission.listedAt? ⟨id, context, second⟩ = _ := hat
    have hsame : emission.listedAt? ⟨id, context, first⟩ = _ := heq.trans hat
    cases placed.unique hposition hsame
    exact Nat.lt_irrefl _ hlt
  · have hcontexts : node.kind.contexts.Nodup := by
      cases node.kind <;> simp [Kind.contexts]
    refine hcontexts.imp fun {first second} hne child hfirst hsecond => hne ?_
    obtain ⟨index, hposition⟩ := mem_listed_iff.mp hfirst
    obtain ⟨other, hsame⟩ := mem_listed_iff.mp hsecond
    cases placed.unique hposition hsame
    rfl

end Placed

theorem contexts_parts (options : Asm.Options) (id : Nat) (node : Node) :
    (parts options id node).filterMap Sum.getRight? = node.kind.contexts := by
  rw [parts, Node.kind]
  cases node.body <;> rfl

/-- The leaves among pieces are those from contexts. -/
theorem filterMap_leaf?_parts (parts : List (List Entry ⊕ Context))
    (gathered : Context → List Piece) :
    (parts.flatMap (Sum.elim (fun entries => [Piece.frame id entries]) gathered)).filterMap
        Piece.leaf? =
      (parts.filterMap Sum.getRight?).flatMap fun context =>
        (gathered context).filterMap Piece.leaf? := by
  induction parts with
  | nil => rfl
  | cons part parts ih =>
      rw [List.flatMap_cons, List.filterMap_append, ih]
      cases part <;> rfl

theorem leavesTo_leaf {sort : Leaf} {buffer : Buffer} (hnode : emission.nodes[id]? = some node)
    (hbody : node.body = .leaf sort buffer) : emission.leavesTo (depth + 1) id = [id] := by
  simp [leavesTo, piecesTo_succ hnode, parts, Node.piece, hbody, Piece.leaf?]

theorem leavesTo_composite (hnode : emission.nodes[id]? = some node)
    (hbody : ∀ sort buffer, node.body ≠ .leaf sort buffer) :
    emission.leavesTo (depth + 1) id =
      (node.kind.contexts.flatMap (emission.listed id)).flatMap (emission.leavesTo depth) := by
  have hframe : node.piece id = Piece.frame id := by
    funext entries
    rw [Node.piece]
    split
    next sort buffer heq => exact absurd heq (hbody sort buffer)
    next => rfl
  rw [leavesTo, piecesTo_succ hnode, hframe, filterMap_leaf?_parts, contexts_parts,
    List.flatMap_assoc]
  apply List.flatMap_congr
  intro context _
  rw [List.filterMap_flatMap]
  rfl

theorem mem_leavesTo_succ {low : Nat} (h : low ∈ emission.leavesTo (depth + 1) id) :
    low = id ∨ ∃ child, emission.Holds id child ∧ low ∈ emission.leavesTo depth child := by
  cases hnode : emission.nodes[id]? with
  | none => simp [leavesTo, piecesTo, hnode] at h
  | some node =>
      -- a leaf is laid itself, and a composite lays what its children lay
      by_cases hleaf : ∃ sort buffer, node.body = .leaf sort buffer
      · obtain ⟨sort, buffer, hbody⟩ := hleaf
        rw [leavesTo_leaf hnode hbody] at h
        exact .inl (List.mem_singleton.mp h)
      · rw [leavesTo_composite hnode fun sort buffer hbody => hleaf ⟨sort, buffer, hbody⟩] at h
        obtain ⟨child, hchild, hlow⟩ := List.mem_flatMap.mp h
        obtain ⟨context, -, hmem⟩ := List.mem_flatMap.mp hchild
        exact .inr ⟨child, ⟨context, hmem⟩, hlow⟩

theorem reaches_of_mem_leavesTo {low : Nat} (h : low ∈ emission.leavesTo depth id) :
    ReflTransGen emission.Holds id low := by
  induction depth generalizing id with
  | zero => cases h
  | succ depth ih =>
      rcases mem_leavesTo_succ h with rfl | ⟨child, hholds, hlow⟩
      · exact .refl
      · exact (ih hlow).head hholds

/-- No leaf is laid twice. -/
theorem Placed.nodup_leavesTo (placed : emission.Placed) (depth id : Nat) :
    (emission.leavesTo depth id).Nodup := by
  induction depth generalizing id with
  | zero => exact .nil
  | succ depth ih =>
      cases hnode : emission.nodes[id]? with
      | none => simp [leavesTo, piecesTo, hnode]
      | some node =>
          by_cases hleaf : ∃ sort buffer, node.body = .leaf sort buffer
          · obtain ⟨sort, buffer, hbody⟩ := hleaf
            rw [leavesTo_leaf hnode hbody]
            exact List.nodup_singleton id
          · rw [leavesTo_composite hnode fun sort buffer hbody => hleaf ⟨sort, buffer, hbody⟩]
            refine List.nodup_flatMap.mpr ⟨fun child _ => ih child, ?_⟩
            refine (placed.nodup_children node).imp_of_mem ?_
            intro first second hfirst hsecond hne low hlow hsame
            obtain ⟨context, -, hfirst⟩ := List.mem_flatMap.mp hfirst
            obtain ⟨other, -, hsecond⟩ := List.mem_flatMap.mp hsecond
            exact hne (placed.eq_of_reaches ⟨context, hfirst⟩ ⟨other, hsecond⟩
              (reaches_of_mem_leavesTo hlow) (reaches_of_mem_leavesTo hsame))

/-- The piece of a leaf has all the lines of the leaf. -/
theorem leaf_of_mem_piecesTo {low : Nat} {entries : List Entry}
    (h : .leaf low entries ∈ emission.piecesTo depth id) :
    ∃ buffer, emission.leaf low = .ok buffer ∧ buffer.entries.toList = entries := by
  induction depth generalizing id with
  | zero => cases h
  | succ depth ih =>
      cases hnode : emission.nodes[id]? with
      | none => simp [piecesTo, hnode] at h
      | some node =>
          rw [piecesTo_succ hnode] at h
          obtain ⟨part, hpart, hmem⟩ := List.mem_flatMap.mp h
          cases part with
          | inr context =>
              obtain ⟨child, -, hchild⟩ := List.mem_flatMap.mp hmem
              exact ih hchild
          | inl own =>
              have hpiece := List.mem_singleton.mp hmem
              rw [Node.piece] at hpiece
              split at hpiece
              next sort buffer hbody =>
                cases hpiece
                simp only [parts, hbody, List.mem_singleton, Sum.inl.injEq] at hpart
                exact ⟨buffer, Emit.leaf_of_some hnode hbody, hpart.symm⟩
              next => cases hpiece

theorem exists_leaf_of_ok {lines : Buffer} (h : emission.leaf id = .ok lines) :
    ∃ node sort, emission.nodes[id]? = some node ∧ node.body = .leaf sort lines := by
  rw [Emission.leaf] at h
  cases hnode : emission.nodes[id]? with
  | none => simp [Emission.node, hnode, bind, Except.bind] at h
  | some node =>
      simp only [node_of_some hnode, bind, Except.bind] at h
      split at h
      next sort buffer hbody =>
        cases h
        exact ⟨node, sort, rfl, hbody⟩
      next => cases h

/-- A leaf that another one has absorbed is in no list. -/
theorem Placed.loose_of_absorbed (placed : emission.Placed) {target : Nat} {lines : Buffer}
    (hnode : emission.nodes[id]? = some node) (hparent : node.parent = some target)
    (htarget : emission.leaf target = .ok lines) : emission.Loose id := by
  intro position hposition
  obtain ⟨same, hsame, hcomposite⟩ := placed.parent hposition
  cases hnode.symm.trans hsame
  obtain rfl := Option.some.inj (hparent.symm.trans hcomposite)
  -- the composite would be a leaf, and leaves have no lists
  obtain ⟨leaf, sort, hleaf, hbody⟩ := exists_leaf_of_ok htarget
  rw [listedAt?, listed_of_some hleaf, hbody] at hposition
  cases hposition

end MiniC.Emission
