import MiniC.Proofs.Codegen.Expressions
import MiniC.Proofs.Emission.Assembly
import MiniC.Proofs.Translation.Statement

/-!
# Functions under construction

While the code of a function is generated, its node collects a comment for each
new name.  `FunctionAt` describes the node: it has the frame, and its header
has one leaf for each of the comments on the frame.  Parameters and locals are
declared by adding to both.

`Extends changed before after` says that all nodes of `before` but a few are still
the same in `after`.  What these lay out is then the same as well.
-/

namespace MiniC

open Asm (Buffer Entry Instruction)
open Emission (AgreeFrom Body Context Lays LaysAll Node)

/-! ## Emissions that grow -/

/-- Nodes have been added, and of the old ones only those in a list may have
changed. -/
structure Extends (changed : List Nat) (before after : Emission) : Prop where
  options_eq : after.options = before.options
  globals_eq : after.globals = before.globals
  size_le : before.nodes.size ≤ after.nodes.size
  old_eq : ∀ id < before.nodes.size, id ∉ changed → after.nodes[id]? = before.nodes[id]?

namespace Extends

variable {changed more : List Nat} {before middle after : Emission} {id : Nat}

protected theorem refl (changed : List Nat) (emission : Emission) :
    Extends changed emission emission :=
  ⟨rfl, rfl, Nat.le_refl _, fun _ _ _ => rfl⟩

theorem mono (h : Extends changed before after) (hsub : ∀ id ∈ changed, id ∈ more) :
    Extends more before after :=
  ⟨h.options_eq, h.globals_eq, h.size_le,
    fun id hid hmore => h.old_eq id hid fun hmem => hmore (hsub id hmem)⟩

theorem trans (h : Extends changed before middle) (hmore : Extends more middle after)
    (hsub : ∀ id ∈ more, id < before.nodes.size → id ∈ changed) : Extends changed before after where
  options_eq := hmore.options_eq.trans h.options_eq
  globals_eq := hmore.globals_eq.trans h.globals_eq
  size_le := Nat.le_trans h.size_le hmore.size_le
  old_eq id hid hchanged := by
    have hle := h.size_le
    rw [hmore.old_eq id (by omega) fun hmem => hchanged (hsub id hmem hid),
      h.old_eq id hid hchanged]

theorem push (emission : Emission) (parent : Nat) (body : Nat → Body) :
    Extends changed emission (emission.push parent body) where
  options_eq := rfl
  globals_eq := rfl
  size_le := by simp
  old_eq _ hid _ := Emission.getElem?_push_old emission parent body hid

theorem modifyNode (emission : Emission) (id : Nat) (change : Node → Node) :
    Extends [id] emission (emission.modifyNode id change) where
  options_eq := rfl
  globals_eq := rfl
  size_le := by simp
  old_eq other _ hchanged :=
    Emission.getElem?_modifyNode_of_ne _ _ _ fun heq => hchanged (by simp [heq])

theorem of_grows {level count : Nat} {code : List Instruction}
    (grows : Codegen.Grows before after level code count) : Extends changed before after where
  options_eq := grows.options_eq
  globals_eq := grows.globals_eq
  size_le := by rw [grows.size_eq]; exact Nat.le_add_right _ _
  old_eq id hid _ := grows.old_eq id hid

theorem node_eq (h : Extends changed before after) {node : Node}
    (hnode : before.nodes[id]? = some node)
    (hchanged : id ∉ changed) : after.nodes[id]? = some node := by
  rw [h.old_eq id (Emission.lt_size_of_some hnode) hchanged, hnode]

theorem leafHolds (h : Extends changed before after) {level : Nat} {code : List Instruction}
    (hleaf : Codegen.LeafHolds before id level code) (hchanged : id ∉ changed) :
    Codegen.LeafHolds after id level code := by
  obtain ⟨node, sort, hnode, hbody⟩ := hleaf
  exact ⟨node, sort, h.node_eq hnode hchanged, hbody⟩

/-- What lies after the changed nodes is laid out as before. -/
theorem agreeFrom (h : Extends changed before after) {first : Nat}
    (hchanged : ∀ id ∈ changed, id < first) : AgreeFrom first before after := by
  intro id node hfirst hnode
  refine ⟨node, h.node_eq hnode fun hmem => ?_, rfl, rfl⟩
  exact absurd (hchanged id hmem) (Nat.not_lt.mpr hfirst)

theorem lays (h : Extends changed before after) {entries : List Entry}
    (hlays : Lays before id entries) (hchanged : ∀ other ∈ changed, other < id) :
    Lays after id entries :=
  hlays.congr h.options_eq (h.agreeFrom hchanged) (Nat.le_refl id)

theorem laysAll (h : Extends changed before after) {parent : Nat} {ids : List Nat}
    {entries : List Entry} (hlays : LaysAll before parent ids entries)
    (hchanged : ∀ other ∈ changed, other ≤ parent) : LaysAll after parent ids entries :=
  hlays.congr h.options_eq (h.agreeFrom fun other hmem => Nat.lt_succ_of_le (hchanged other hmem))
    (Nat.le_refl _)

end Extends

/-! ## Children -/

section Children

variable {emission : Emission} {parent child : Nat} {node : Node} {context : Context}
  {ids : List Nat}

/-- Appending a child changes the parent.  Of the child only the parent changes, so
that leaves and what is laid out after the parent stay the same. -/
theorem addChild_spec (hparent : emission.nodes[parent]? = some node)
    (hcontext : node.body.children? context = some ids) (hchild : child < emission.nodes.size)
    (hne : parent ≠ child) :
    ∃ after, Emit.addChild parent context child emission = .ok () after ∧
      Extends [parent, child] emission after ∧ after.nodes.size = emission.nodes.size ∧
      after.nodes[parent]? = some { node with body := node.body.append child context } ∧
      AgreeFrom (parent + 1) emission after ∧
      ∀ id level code, Codegen.LeafHolds emission id level code →
        Codegen.LeafHolds after id level code := by
  have hsame : ∀ id, id ≠ parent → ∀ other, emission.nodes[id]? = some other →
      ∃ same, ((emission.modifyNode parent fun node =>
          { node with body := node.body.append child context }).modifyNode child fun node =>
            { node with parent := some parent }).nodes[id]? = some same ∧
        same.base = other.base ∧ same.body = other.body := by
    intro id hid other hother
    rw [Emission.getElem?_modifyNode,
      Emission.getElem?_modifyNode_of_ne _ _ _ (Ne.symm hid), hother]
    split
    · exact ⟨_, rfl, rfl, rfl⟩
    · exact ⟨_, rfl, rfl, rfl⟩
  refine ⟨_, Emit.addChild_of_some hparent hcontext hchild, ?_, by simp, ?_, ?_, ?_⟩
  · refine ⟨rfl, rfl, by simp, ?_⟩
    intro id _ hchanged
    simp only [List.mem_cons, List.not_mem_nil, or_false, not_or] at hchanged
    rw [Emission.getElem?_modifyNode_of_ne _ _ _ (Ne.symm hchanged.2),
      Emission.getElem?_modifyNode_of_ne _ _ _ (Ne.symm hchanged.1)]
  · rw [Emission.getElem?_modifyNode_of_ne _ _ _ (Ne.symm hne), Emission.getElem?_modifyNode_self,
      hparent]
    rfl
  · intro id other hfirst hother
    exact hsame id (by omega) other hother
  · rintro id level code ⟨other, sort, hother, hbody⟩
    -- the parent is a composite and no leaf
    have hid : id ≠ parent := by
      rintro rfl
      rw [hparent] at hother
      cases hother
      rw [hbody] at hcontext
      cases hcontext
    obtain ⟨same, hsameNode, -, hsameBody⟩ := hsame id hid other hother
    exact ⟨same, sort, hsameNode, hsameBody.trans hbody⟩

/-- A line of its own is a new leaf, at the nesting of the composite. -/
theorem addLine_spec (hparent : emission.nodes[parent]? = some node)
    (hcontext : node.body.children? context = some ids) (instruction : Instruction) :
    ∃ after, Emit.addLine parent context instruction emission = .ok () after ∧
      Extends [parent] emission after ∧ after.nodes.size = emission.nodes.size + 1 ∧
      after.nodes[parent]? =
        some { node with body := node.body.append emission.nodes.size context } ∧
      Codegen.LeafHolds after emission.nodes.size node.nesting [instruction] := by
  have hlt := Emission.lt_size_of_some hparent
  obtain ⟨created, hcreate, hcreated⟩ := Codegen.Grows.of_create hlt .other
  obtain ⟨filled, hadd, hfilled⟩ := hcreated.add instruction
  have hold : filled.nodes[parent]? = some node := by rw [hfilled.old_eq parent hlt, hparent]
  obtain ⟨after, hchild, hextends, hsize, hafter, -, hleaf⟩ :=
    addChild_spec hold hcontext hfilled.size_lt (Nat.ne_of_lt hlt)
  refine ⟨after, ?_, ?_, by rw [hsize, hfilled.size_eq], hafter, ?_⟩
  · rw [Emit.addLine, Emit.bind_of_ok hcreate, Emit.bind_of_ok hadd, hchild]
  · apply (Extends.of_grows hfilled).trans hextends
    intro id hid hlt
    simp only [List.mem_cons, List.not_mem_nil, or_false] at hid ⊢
    omega
  · have hholds := hfilled.holds
    rw [Emission.nestingAt_of_some hparent] at hholds
    exact hleaf _ _ _ hholds

end Children

/-! ## The node of a function -/

/-- Where a function stands in an emission, and what is in its body so far. -/
structure Site where
  function : Nat
  base : Nat
  nesting : Nat
  body : List Nat

/-- The node of a function has a frame, and its header holds the comments on it. -/
def FunctionAt (emission : Emission) (site : Site) (frame : Frame) : Prop :=
  ∃ (parent : Option Nat) (parts : List (Nat × Instruction)),
    emission.nodes[site.function]? =
      some ⟨parent, site.base, site.nesting, .function (parts.map Prod.fst) site.body frame⟩ ∧
    parts.map Prod.snd = frame.comments ∧
    ∀ part ∈ parts, site.function < part.1 ∧
      Codegen.LeafHolds emission part.1 site.nesting [part.2]

namespace FunctionAt

variable {emission before after : Emission} {site : Site} {frame : Frame}

theorem lt_size (h : FunctionAt emission site frame) : site.function < emission.nodes.size := by
  obtain ⟨parent, parts, hnode, -⟩ := h
  exact Emission.lt_size_of_some hnode

theorem frame_eq (h : FunctionAt emission site frame) :
    emission.frame site.function = .ok frame := by
  obtain ⟨parent, parts, hnode, -⟩ := h
  simp [Emission.frame, Emission.node_of_some hnode, bind, Except.bind]

theorem nestingAt_eq (h : FunctionAt emission site frame) :
    emission.nestingAt site.function = site.nesting := by
  obtain ⟨parent, parts, hnode, -⟩ := h
  exact Emission.nestingAt_of_some hnode

/-- Code that is added elsewhere leaves the function as it is. -/
theorem of_extends (h : FunctionAt before site frame) {changed : List Nat}
    (hextends : Extends changed before after) (hfunction : site.function ∉ changed)
    (hleaves : ∀ id level code, Codegen.LeafHolds before id level code →
      Codegen.LeafHolds after id level code) :
    FunctionAt after site frame := by
  obtain ⟨parent, parts, hnode, hcomments, hparts⟩ := h
  refine ⟨parent, parts, hextends.node_eq hnode hfunction, hcomments, ?_⟩
  intro part hpart
  obtain ⟨hlater, hleaf⟩ := hparts part hpart
  exact ⟨hlater, hleaves _ _ _ hleaf⟩

/-- A new name gives the function another frame and one more comment. -/
theorem declare (h : FunctionAt before site frame) {other : Frame} {comment : Instruction}
    (hcomments : other.comments = frame.comments ++ [comment]) :
    ∃ middle after,
      Emit.update (·.modifyNode site.function (·.setFrame other)) before = .ok () middle ∧
      Emit.addLine site.function .functionHeader comment middle = .ok () after ∧
      Extends [site.function] before after ∧ FunctionAt after site other ∧
      after.nodes.size = before.nodes.size + 1 := by
  have hlt := h.lt_size
  obtain ⟨parent, parts, hnode, hcommentsOld, hparts⟩ := h
  let middle := before.modifyNode site.function (·.setFrame other)
  have hmiddle : middle.nodes[site.function]? =
      some ⟨parent, site.base, site.nesting,
        .function (parts.map Prod.fst) site.body other⟩ := by
    rw [Emission.getElem?_modifyNode_self, hnode]
    rfl
  have hset : Extends [site.function] before middle := Extends.modifyNode _ _ _
  obtain ⟨after, hadd, hextends, hsize, hafter, hleaf⟩ :=
    addLine_spec hmiddle (rfl : Body.children? _ .functionHeader = _) comment
  have hall : Extends [site.function] before after :=
    hset.trans hextends fun id hid _ => hid
  have hmiddleSize : middle.nodes.size = before.nodes.size := Emission.size_modifyNode _ _ _
  rw [hmiddleSize] at hsize hafter hleaf
  refine ⟨middle, after, rfl, hadd, hall, ?_, hsize⟩
  refine ⟨parent, parts ++ [(before.nodes.size, comment)], ?_, ?_, fun part hpart => ?_⟩
  · rw [hafter]
    simp [Body.append]
  · simp [hcommentsOld, hcomments]
  · rcases List.mem_append.mp hpart with hold | hnew
    · obtain ⟨hlater, hleafOld⟩ := hparts part hold
      refine ⟨hlater, hall.leafHolds hleafOld fun hmem => ?_⟩
      rw [List.mem_singleton] at hmem
      omega
    · obtain rfl := List.mem_singleton.mp hnew
      exact ⟨hlt, hleaf⟩

/-- The header lays out the comments. -/
theorem laysAll_header (h : FunctionAt emission site frame) :
    ∃ parent header, emission.nodes[site.function]? =
        some ⟨parent, site.base, site.nesting, .function header site.body frame⟩ ∧
      LaysAll emission site.function header (lay site.nesting frame.comments) := by
  obtain ⟨parent, parts, hnode, hcomments, hparts⟩ := h
  refine ⟨parent, _, hnode, ?_⟩
  rw [← hcomments]
  -- the induction is on the comments, whatever frame they are about
  clear hcomments hnode
  induction parts with
  | nil => exact .nil
  | cons part parts ih =>
      obtain ⟨hlater, other, sort, hother, hbody⟩ := hparts part List.mem_cons_self
      have hleaf := Emission.lays_leaf hother hbody
      rw [Buffer.entries_holding] at hleaf
      exact (LaysAll.single hlater hleaf).append
        (ih fun part hpart => hparts part (List.mem_cons_of_mem _ hpart))

end FunctionAt

/-! ## Names -/

theorem Frame.comments_addLocal {frame : Frame} {name : String}
    (h : (frame.addLocal name).2.1 = true) :
    (frame.addLocal name).1 = localOffsetAt frame.locals.length ∧
      (frame.addLocal name).2.2.comments =
        frame.comments ++ [localComment frame.locals.length name] := by
  unfold addLocal at h ⊢
  split
  next => simp_all
  next => simp [comments]

theorem Frame.comments_addParameter {frame : Frame} {name : String}
    (h : (frame.addParameter name).2.1 = true) (hlocals : frame.locals = []) :
    (frame.addParameter name).1 = parameterOffsetAt frame.parameters.length ∧
      (frame.addParameter name).2.2.comments =
        frame.comments ++ [parameterComment frame.parameters.length name] := by
  unfold addParameter at h ⊢
  split
  next => simp_all
  next => simp [comments, hlocals]

theorem Frame.addLocal_of_not_isNew {frame : Frame} {name : String}
    (h : (frame.addLocal name).2.1 = false) : (frame.addLocal name).2.2 = frame := by
  unfold addLocal at h ⊢
  split
  next => rfl
  next => simp_all

theorem Frame.addParameter_of_not_isNew {frame : Frame} {name : String}
    (h : (frame.addParameter name).2.1 = false) : (frame.addParameter name).2.2 = frame := by
  unfold addParameter at h ⊢
  split
  next => rfl
  next => simp_all

section Declare

variable {before : Emission} {site : Site} {frame : Frame} (h : FunctionAt before site frame)
include h

/-- Declaring a name makes a comment if the name is new. -/
theorem declareInFrame_spec (add : Frame → Int32 × Bool × Frame) (comment : Int32 → Instruction)
    (hold : (add frame).2.1 = false → (add frame).2.2 = frame)
    (hnew : (add frame).2.1 = true →
      (add frame).2.2.comments = frame.comments ++ [comment (add frame).1]) :
    ∃ after, Emit.declareInFrame site.function add comment before = .ok (add frame).1 after ∧
      Extends [site.function] before after ∧ FunctionAt after site (add frame).2.2 ∧
      after.nodes.size = before.nodes.size + (if (add frame).2.1 then 1 else 0) := by
  have hask : Emit.ask (fun emission => do
      return add (← emission.frame site.function)) before = .ok (add frame) before := by
    apply Emit.ask_of_ok
    simp [h.frame_eq, bind, Except.bind, pure, Except.pure]
  rw [Emit.declareInFrame, Emit.bind_of_ok hask]
  cases hisNew : (add frame).2.1 with
  | false =>
      refine ⟨before, ?_, .refl _ _, ?_, by simp⟩
      · simp only [hisNew]
        rfl
      · rw [hold hisNew]
        exact h
  | true =>
      obtain ⟨middle, after, hset, hline, hextends, hafter, hsize⟩ := h.declare (hnew hisNew)
      refine ⟨after, ?_, hextends, hafter, by simpa using hsize⟩
      simp only [hisNew, if_true]
      rw [Emit.bind_of_ok hset, Emit.bind_of_ok hline]
      rfl

theorem declareLocal_spec (name : String) :
    ∃ after, Emit.declareLocal site.function name before = .ok (frame.addLocal name).1 after ∧
      Extends [site.function] before after ∧
      FunctionAt after site (frame.addLocal name).2.2 ∧
      after.nodes.size =
        before.nodes.size + (if (frame.addLocal name).2.1 then 1 else 0) := by
  rw [Emit.declareLocal_eq]
  apply declareInFrame_spec h _ _ Frame.addLocal_of_not_isNew
  intro hnew
  obtain ⟨hoffset, hcomments⟩ := Frame.comments_addLocal hnew
  rw [hcomments, localComment, ← hoffset]

/-- Parameters come before all locals. -/
theorem declareParameter_spec (hlocals : frame.locals = []) (name : String) :
    ∃ after, Emit.declareParameter site.function name before =
        .ok (frame.addParameter name).1 after ∧
      Extends [site.function] before after ∧
      FunctionAt after site (frame.addParameter name).2.2 ∧
      after.nodes.size =
        before.nodes.size + (if (frame.addParameter name).2.1 then 1 else 0) := by
  rw [Emit.declareParameter_eq]
  apply declareInFrame_spec h _ _ Frame.addParameter_of_not_isNew
  intro hnew
  obtain ⟨hoffset, hcomments⟩ := Frame.comments_addParameter hnew hlocals
  rw [hcomments, parameterComment, ← hoffset]

end Declare

end MiniC
