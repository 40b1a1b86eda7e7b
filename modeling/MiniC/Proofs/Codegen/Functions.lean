import MiniC.Proofs.Codegen.Statements

/-!
# Code generation of functions

The definition of a function becomes one composite.  Its parameters are declared
first, then its body is generated under the names that it declares, and the
prologue is laid out in the end, when all locals are known.
-/

namespace MiniC.Codegen

open Asm (Buffer Entry Instruction Register)
open Ast (Tree)
open Emission (Body Context Lays LaysAll Node)
open Emit

variable {changed : List Nat} {site : Site} {before middle after : Emission} {cursor : Cursor}

/-! ## Parameters -/

theorem blank_spec {scope : Scope} (hparent : scope.parent < before.nodes.size) :
    ∃ after, blank scope before = .ok before.nodes.size after ∧
      Grows before after (before.nestingAt scope.parent) [] 1 :=
  Grows.of_create hparent .other

/-- No locals are declared among the parameters. -/
theorem locals_addParameter (frame : Frame) (name : String) :
    (frame.addParameter name).2.2.locals = frame.locals := by
  unfold Frame.addParameter
  split <;> rfl

/-- The surroundings of the parts of a function. -/
def inside (function : Nat) : Scope := ⟨function, some function, none⟩

theorem generate_parameter (parameter : Parameter)
    (h : Reaches site [site.function] before middle cursor) (hlocals : cursor.frame.locals = []) :
    ∃ id after, generate (inside site.function) parameter.toTree middle = .ok id after ∧
      Reaches site [site.function] before after (cursor.declareParameter parameter.name) := by
  obtain ⟨named, hdeclare, hgrowth, hfunction, hsize⟩ :=
    declareParameter_spec h.function hlocals parameter.name
  have hparent : (inside site.function).parent < named.nodes.size := hfunction.lt_size
  obtain ⟨after, hblank, hafter⟩ := blank_spec hparent
  have hrequire : ask (fun _ => requireFunction (inside site.function) parameter.location
      "parameter") middle = .ok site.function middle := ask_of_ok rfl
  have hnamed : Reaches site [site.function] before named
      ⟨cursor.serial + (if (cursor.frame.addParameter parameter.name).2.1 then 1 else 0),
        (cursor.frame.addParameter parameter.name).2.2⟩ :=
    ⟨h.growth.trans hgrowth fun id hid _ => hid, hfunction, by rw [hsize, h.size_eq]⟩
  refine ⟨named.nodes.size, after, ?_, hnamed.grows hafter⟩
  rw [Parameter.toTree, Tree.leaf, generate, bind_of_ok hrequire,
    bind_of_ok (discard_of_ok hdeclare)]
  exact hblank

theorem generateAll_parameters (parameters : List Parameter)
    (h : Reaches site [site.function] before middle cursor) (hlocals : cursor.frame.locals = []) :
    ∃ after, generateAll (inside site.function) (parameters.map Parameter.toTree) middle =
        .ok () after ∧
      Reaches site [site.function] before after (declareParameters parameters cursor) := by
  induction parameters generalizing middle cursor with
  | nil => exact ⟨middle, rfl, h⟩
  | cons parameter parameters ih =>
      obtain ⟨id, next, hgenerate, hnext⟩ := generate_parameter parameter h hlocals
      obtain ⟨after, hall, hafter⟩ :=
        ih hnext ((locals_addParameter cursor.frame parameter.name).trans hlocals)
      refine ⟨after, ?_, hafter⟩
      rw [List.map_cons, generateAll, bind_of_ok (discard_of_ok hgenerate), hall]

theorem generateAll_parameterList (list : Option ParameterList)
    (h : Reaches site [site.function] before middle cursor) (hlocals : cursor.frame.locals = []) :
    ∃ after, generateAll (inside site.function) (list.map ParameterList.toTree).toList middle =
        .ok () after ∧
      Reaches site [site.function] before after (declareParameterList list cursor) := by
  cases list with
  | none => exact ⟨middle, rfl, h⟩
  | some list =>
      obtain ⟨named, hall, hnamed⟩ := generateAll_parameters list.parameters h hlocals
      have hparent : (inside site.function).parent < named.nodes.size := hnamed.function.lt_size
      obtain ⟨after, hblank, hafter⟩ := blank_spec hparent
      refine ⟨after, ?_, hnamed.grows hafter⟩
      have hlist : generate (inside site.function) list.toTree middle =
          .ok named.nodes.size after := by
        rw [ParameterList.toTree, generate, bind_of_ok hall]
        exact hblank
      show generateAll (inside site.function) [list.toTree] middle = _
      rw [generateAll, bind_of_ok (discard_of_ok hlist)]
      rfl

/-! ## Definitions -/

/-- Appending to the body of a function. -/
theorem addChild_body {frame : Frame} (hat : FunctionAt before site frame) {child : Nat}
    (hchild : child < before.nodes.size) (hlater : site.function < child) :
    ∃ after, addChild site.function .functionBody child before = .ok () after ∧
      Extends [site.function, child] before after ∧ after.nodes.size = before.nodes.size ∧
      FunctionAt after { site with body := site.body ++ [child] } frame ∧
      Emission.AgreeFrom (site.function + 1) before after := by
  obtain ⟨parent, parts, hnode, hcomments, hparts⟩ := hat
  obtain ⟨after, hadd, hextends, hsize, hafter, hagree, hleaves⟩ :=
    addChild_spec hnode (rfl : Body.children? _ .functionBody = _) hchild (Nat.ne_of_lt hlater)
  refine ⟨after, hadd, hextends, hsize, ⟨parent, parts, hafter, hcomments, ?_⟩, hagree⟩
  intro part hpart
  obtain ⟨hpartLater, hleaf⟩ := hparts part hpart
  exact ⟨hpartLater, hleaves _ _ _ hleaf⟩

/-- A part of the body of a function that has been generated is appended. -/
theorem generateInto_body {tree : Tree} {child : Nat} {made : Emission}
    {translation : Nat → Option String → Cursor → List Entry × Cursor}
    (translates : Translates tree translation)
    (h : Reaches site [site.function] before middle cursor)
    (hmade : generate (inside site.function) tree middle = .ok child made) :
    ∃ after, generateInto (inside site.function) site.function .functionBody [tree] middle =
        .ok () after ∧
      site.function < child ∧ Lays after child (translation site.nesting none cursor).1 ∧
      Reaches { site with body := site.body ++ [child] } [site.function] before after
        (translation site.nesting none cursor).2 ∧
      Emission.AgreeFrom (site.function + 1) middle after := by
  have hlt := h.function.lt_size
  have hbefore := h.growth.size_le
  obtain ⟨hle, hlays, hreaches⟩ := translates (inside site.function) middle made child site
    cursor.frame rfl h.function hlt hmade
  have hnesting : middle.nestingAt (inside site.function).parent = site.nesting :=
    h.function.nestingAt_eq
  rw [hnesting, h.cursorAt_eq] at hlays hreaches
  have hlater : site.function < child := Nat.lt_of_lt_of_le hlt hle
  obtain ⟨after, hadd, hextends, hsize, hfunction, hagree⟩ :=
    addChild_body hreaches.function hlays.lt_size hlater
  have hgrowth : Extends [site.function] before after := by
    refine (h.growth.trans hreaches.growth fun id hid _ => hid).trans hextends fun id hid hold => ?_
    simp only [List.mem_cons, List.not_mem_nil, or_false] at hid ⊢
    omega
  refine ⟨after, ?_, hlater, ?_, ⟨hgrowth, hfunction, hsize.trans hreaches.size_eq⟩, ?_⟩
  · rw [generateInto, bind_of_ok hmade, bind_of_ok hadd]
    rfl
  · exact hlays.congr hextends.options_eq hagree hlater
  · exact (hreaches.growth.agreeFrom (by simp)).trans hagree

/-- The name of the return type makes a blank leaf. -/
theorem builds_typeSpecifier (text : String) (location : Location) :
    Builds (.leaf (.typeSpecifier text) location) fun _ _ cursor => ([], cursor.skip 1) :=
  builds_of_grows (fun _ => []) fun scope before function frame _ _ hparent => by
    obtain ⟨after, hblank, hafter⟩ := blank_spec hparent
    refine ⟨after, ?_, hafter⟩
    rw [Tree.leaf, generate]
    exact hblank

/-- The body and the return type make the two parts of the body of a function. -/
theorem generateInto_parts (text : String) (location : Location) {block : Block} {child : Nat}
    {made : Emission} (h : Reaches site [site.function] before middle cursor)
    (hmade : generate (inside site.function) block.toTree middle = .ok child made) :
    ∃ filled after ids,
      generateInto (inside site.function) site.function .functionBody [block.toTree] middle =
        .ok () filled ∧
      generateInto (inside site.function) site.function .functionBody
        [.leaf (.typeSpecifier text) location] filled = .ok () after ∧
      LaysAll after site.function ids (block.translate site.nesting none cursor).1 ∧
      Reaches { site with body := site.body ++ ids } [site.function] before after
        ((block.translate site.nesting none cursor).2.skip 1) := by
  obtain ⟨filled, hbody, hchild, hlays, hfilled, -⟩ :=
    generateInto_body (translates_of_block block) h hmade
  have hbuilds := builds_typeSpecifier text location
  obtain ⟨blankChild, blanked, hblanked, -⟩ := hbuilds (inside site.function) filled
    { site with body := site.body ++ [child] } _ rfl hfilled.function hfilled.function.lt_size
  obtain ⟨after, htype, hblankChild, hblank, hafter, hagree⟩ :=
    generateInto_body hbuilds.translates hfilled hblanked
  have hoptions : after.options = filled.options :=
    hafter.growth.options_eq.trans hfilled.growth.options_eq.symm
  have hkept := hlays.congr hoptions hagree hchild
  refine ⟨filled, after, [child, blankChild], hbody, htype, ?_, ?_⟩
  · have hall := (LaysAll.single hchild hkept).append (LaysAll.single hblankChild hblank)
    rwa [List.append_nil] at hall
  · rw [List.append_cons]
    exact hafter

/-- A function is left at the nesting of the file. -/
theorem leave_function {frame : Frame} {nesting : Nat} (hat : FunctionAt before site frame)
    (hnesting : site.nesting = nesting + 1) :
    ∃ after node header, leave site.function before = .ok () after ∧
      Extends [site.function] before after ∧ after.nodes.size = before.nodes.size ∧
      after.nodes[site.function]? = some node ∧ node.base = site.base ∧
      node.body = .function header site.body frame ∧
      LaysAll after site.function header (lay site.nesting frame.comments) := by
  obtain ⟨parent, header, hnode, hheader⟩ := hat.laysAll_header
  let outer : Node := ⟨parent, site.base, nesting, .function header site.body frame⟩
  have houter : Node.leave (Emission.nameOf .function site.function)
      ⟨parent, site.base, site.nesting, .function header site.body frame⟩ = .ok outer := by
    rw [hnesting]
    rfl
  have hextends := Extends.modifyNode before site.function fun _ => outer
  refine ⟨_, outer, header, leave_of_some hnode houter, hextends, Emission.size_modifyNode _ _ _,
    ?_, rfl, rfl, hextends.laysAll hheader (by simp)⟩
  rw [Emission.getElem?_modifyNode_self, hnode]
  rfl

theorem registerFunction_spec (name : String) (emission : Emission) :
    registerFunction name emission = .ok (!emission.globals.hasFunction name)
      { emission with globals := emission.globals.addFunction name } := by
  have hask : ask (fun emission => .ok (emission.globals.hasFunction name)) emission =
      .ok (emission.globals.hasFunction name) emission := rfl
  rw [registerFunction, bind_of_ok hask]
  cases hnew : emission.globals.hasFunction name with
  | false => rfl
  | true =>
      have hglobals : emission.globals.addFunction name = emission.globals := by
        rw [Globals.addFunction, if_pos hnew]
      rw [hglobals]
      rfl

/-- A new function is empty, and what follows in it is one level deeper. -/
theorem open_spec {file : Node} (hfile : before.nodes[Emission.fileId]? = some file)
    (hnesting : file.nesting = 0) (name : String) :
    ∃ pushed opened site, createFunction name before = .ok before.nodes.size pushed ∧
      enter before.nodes.size pushed = .ok () opened ∧ Extends [] before opened ∧
      site = ⟨before.nodes.size, 0, 1, []⟩ ∧
      Reaches site [site.function] opened opened ⟨before.nodes.size + 1, { name }⟩ := by
  have hnest : before.nestingAt Emission.fileId = 0 :=
    (Emission.nestingAt_of_some hfile).trans hnesting
  have hnode := Emission.getElem?_push_new before Emission.fileId fun _ => .function [] [] { name }
  have hpushed : Extends [] before _ :=
    Extends.push before Emission.fileId fun _ => .function [] [] { name }
  rw [hnest] at hnode
  refine ⟨before.push Emission.fileId fun _ => .function [] [] { name }, _, _, rfl,
    enter_of_lt (by simp), ?_, rfl, ?_⟩
  · apply hpushed.trans (.modifyNode _ _ _)
    intro id hid hlt
    rw [List.mem_singleton] at hid
    omega
  · refine ⟨.refl _ _, ⟨some Emission.fileId, [], ?_, rfl, by simp⟩, by simp⟩
    refine (Emission.getElem?_modifyNode_self _ before.nodes.size _).trans ?_
    rw [hnode]
    rfl

/-- What is left of the definition of a function after its parameters. -/
def generateParts (function : Nat) (definition : FunctionDefinition) : Emit Nat := do
  generateInto (inside function) function .functionBody [definition.body.toTree]
  generateInto (inside function) function .functionBody
    [.leaf (.typeSpecifier definition.returnType) definition.returnTypeLocation]
  leave function
  return function

/-- Where the body of a function is generated, so is what is left of its definition. -/
theorem finish_function {definition : FunctionDefinition} {nesting child : Nat} {made : Emission}
    (h : Reaches site [site.function] before middle cursor) (hnesting : site.nesting = nesting + 1)
    (hmade : generate (inside site.function) definition.body.toTree middle = .ok child made) :
    let last := (definition.body.translate site.nesting none cursor).2.skip 1
    ∃ after node header ids,
      generateParts site.function definition middle = .ok site.function after ∧
      Extends [site.function] before after ∧ after.nodes.size = last.serial ∧
      after.nodes[site.function]? = some node ∧ node.base = site.base ∧
      node.body = .function header (site.body ++ ids) last.frame ∧
      LaysAll after site.function header (lay site.nesting last.frame.comments) ∧
      LaysAll after site.function ids (definition.body.translate site.nesting none cursor).1 := by
  intro last
  obtain ⟨filled, typed, ids, hbody, htype, hlays, htyped⟩ :=
    generateInto_parts definition.returnType definition.returnTypeLocation h hmade
  obtain ⟨after, node, header, hleave, hafter, hsize, hnode, hbase, hnodeBody, hheader⟩ :=
    leave_function htyped.function hnesting
  refine ⟨after, node, header, ids, ?_, htyped.growth.trans hafter fun id hid _ => hid,
    hsize.trans htyped.size_eq, hnode, hbase, hnodeBody, hheader, hafter.laysAll hlays (by simp)⟩
  rw [generateParts, bind_of_ok hbody, bind_of_ok htype, bind_of_ok hleave]
  rfl

/-- The definition of a function up to its parameters always succeeds. -/
theorem generate_start {definition : FunctionDefinition} {file : Node}
    (hfile : before.nodes[Emission.fileId]? = some file) (hnesting : file.nesting = 0)
    (scope : Scope) :
    let registered : Emission :=
      { before with globals := before.globals.addFunction definition.name }
    ∃ opened named site, site = ⟨before.nodes.size, 0, 1, []⟩ ∧ Extends [] registered opened ∧
      Reaches site [site.function] opened named
        (declareParameterList definition.parameters
          ⟨before.nodes.size + 1, { name := definition.name }⟩) ∧
      generate scope definition.toTree before = generateParts site.function definition named := by
  intro registered
  have hregistered : registered.nodes[Emission.fileId]? = some file := hfile
  obtain ⟨pushed, opened, site, hpush, henter, hextends, hsite, hopened⟩ :=
    open_spec hregistered hnesting definition.name
  have hfunction : before.nodes.size = site.function := by rw [hsite]
  obtain ⟨named, hparameters, hnamed⟩ :=
    generateAll_parameterList definition.parameters hopened rfl
  refine ⟨opened, named, site, hsite, hextends, hnamed, ?_⟩
  rw [FunctionDefinition.toTree, generate,
    bind_of_ok (discard_of_ok (registerFunction_spec definition.name before)), bind_of_ok hpush,
    bind_of_ok henter]
  change (generateAll (inside before.nodes.size) _ >>= fun _ =>
    generateParts before.nodes.size definition) opened = _
  rw [hfunction, bind_of_ok hparameters]

/-- **Code generation of a function**, where it succeeds, makes a composite that lays
out the translation of the function. -/
theorem generate_function {scope : Scope} {definition : FunctionDefinition} {id : Nat} {file : Node}
    (hfile : before.nodes[Emission.fileId]? = some file) (hnesting : file.nesting = 0)
    (h : generate scope definition.toTree before = .ok id after) :
    id = before.nodes.size ∧ Lays after id (definition.translate id) ∧
      (∃ node, after.nodes[id]? = some node ∧ node.kind = .function) ∧
      after.options = before.options ∧
      after.globals = before.globals.addFunction definition.name ∧
      after.nodes.size = definition.nextSerial id ∧
      ∀ old < before.nodes.size, after.nodes[old]? = before.nodes[old]? := by
  obtain ⟨opened, named, site, hsite, hextends, hnamed, hgenerate⟩ :=
    generate_start hfile hnesting scope
  rw [hgenerate] at h
  have hparts := h
  rw [generateParts, bind_eq_ok] at hparts
  obtain ⟨_, _, hbody, -⟩ := hparts
  rw [generateInto, bind_eq_ok] at hbody
  obtain ⟨child, made, hmade, -⟩ := hbody
  have hone : site.nesting = 0 + 1 := by rw [hsite]
  obtain ⟨last, node, header, ids, hlast, hwhole, hsize, hnode, hbase, hnodeBody, hheader, hlays⟩ :=
    finish_function hnamed hone hmade
  cases h.symm.trans hlast
  subst hsite
  have hlines := Emission.lays_function hnode hnodeBody hheader hlays
  rw [hbase] at hlines
  have hname : (definition.finalFrame before.nodes.size).name = definition.name :=
    definition.name_finalFrame _
  -- of the old nodes none has changed, since that of the function is new
  have hgrowth : Extends [before.nodes.size] _ after :=
    (hextends.mono (by simp)).trans hwhole fun id hid _ => hid
  refine ⟨rfl, ?_, ⟨node, hnode, ?_⟩, hgrowth.options_eq, hgrowth.globals_eq, hsize,
    fun old hold => ?_⟩
  · rw [FunctionDefinition.translate, lay_append, ← List.append_assoc, ← hname]
    exact hlines
  · rw [Node.kind, hnodeBody]
    rfl
  · exact hgrowth.old_eq old hold (by simpa using Nat.ne_of_lt hold)

end MiniC.Codegen
