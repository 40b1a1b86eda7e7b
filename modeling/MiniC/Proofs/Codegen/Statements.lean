import MiniC.Proofs.Codegen.Declarations

/-!
# Code generation of statements

Where code generation of a statement succeeds, the emission node that it makes
lays out the translation of the statement (`translates_of_statement`).  The
cursor of the translation agrees with the emission all along: its number is that
of the emission nodes, and its frame is that of the function.

The induction is on the statement.  The node of a statement is new, and so are
all nodes below it, so that what comes later changes none of them: later code
only touches the function around it and the composite that it is added to, both
of which have smaller numbers.
-/

namespace MiniC.Codegen

open Asm (Buffer Entry Instruction Register)
open Ast (Tree)
open Emission (Body Context Lays LaysAll Node)
open Emit

/-- An emission in which a function has been translated up to a cursor. -/
structure Reaches (site : Site) (changed : List Nat) (before after : Emission) (cursor : Cursor) :
    Prop where
  growth : Extends changed before after
  function : FunctionAt after site cursor.frame
  size_eq : after.nodes.size = cursor.serial

/-- Where the cursor is when the translation of a statement starts. -/
def cursorAt (emission : Emission) (frame : Frame) : Cursor := ⟨emission.nodes.size, frame⟩

/-- The node that is made for a statement lays out the lines of a translation. -/
def Translates (tree : Tree)
    (translation : Nat → Option String → Cursor → List Entry × Cursor) : Prop :=
  ∀ (scope : Scope) (before after : Emission) (id : Nat) (site : Site) (frame : Frame),
    scope.function = some site.function → FunctionAt before site frame →
    scope.parent < before.nodes.size → generate scope tree before = .ok id after →
    let result :=
      translation (before.nestingAt scope.parent) scope.loopEnd (cursorAt before frame)
    before.nodes.size ≤ id ∧ Lays after id result.1 ∧
      Reaches site [site.function] before after result.2

/-- There always is a node for a statement, and it lays out the lines of a translation. -/
def Builds (tree : Tree)
    (translation : Nat → Option String → Cursor → List Entry × Cursor) : Prop :=
  ∀ (scope : Scope) (before : Emission) (site : Site) (frame : Frame),
    scope.function = some site.function → FunctionAt before site frame →
    scope.parent < before.nodes.size →
    let result :=
      translation (before.nestingAt scope.parent) scope.loopEnd (cursorAt before frame)
    ∃ id after, generate scope tree before = .ok id after ∧ before.nodes.size ≤ id ∧
      Lays after id result.1 ∧ Reaches site [site.function] before after result.2

theorem Builds.translates {tree : Tree}
    {translation : Nat → Option String → Cursor → List Entry × Cursor}
    (h : Builds tree translation) : Translates tree translation := by
  intro scope before after id site frame hfunction hat hparent hgenerate
  obtain ⟨made, last, hmade, hresult⟩ := h scope before site frame hfunction hat hparent
  cases hgenerate.symm.trans hmade
  exact hresult

/-- The nodes that are made for statements and added to a composite in the function
lay out the lines of a translation. -/
def TranslatesInto (trees : List Tree)
    (translation : Nat → Option String → Cursor → List Entry × Cursor) : Prop :=
  ∀ (scope : Scope) (before after : Emission) (site : Site) (frame : Frame) (node : Node)
    (context : Context) (ids : List Nat),
    scope.function = some site.function → FunctionAt before site frame →
    site.function < scope.parent → before.nodes[scope.parent]? = some node →
    node.body.children? context = some ids →
    generateInto scope scope.parent context trees before = .ok () after →
    let result := translation node.nesting scope.loopEnd (cursorAt before frame)
    ∃ more, after.nodes[scope.parent]? =
        some { node with body := more.foldl (fun body id => body.append id context) node.body } ∧
      LaysAll after scope.parent more result.1 ∧
      Reaches site [site.function, scope.parent] before after result.2

/-! ## Statements one after another -/

theorem translatesInto_nil : TranslatesInto [] fun _ _ cursor => ([], cursor) := by
  intro scope before after site frame node context ids hfunction hat hlt hnode hcontext h
  rw [generateInto] at h
  obtain ⟨-, rfl⟩ := pure_eq_ok.mp h
  exact ⟨[], hnode, .nil, .refl _ _, hat, rfl⟩

/-- The node that was made for a statement is added to a composite in the function. -/
theorem Translates.addChild {tree : Tree}
    {translation : Nat → Option String → Cursor → List Entry × Cursor}
    (h : Translates tree translation) {scope : Scope} {before middle : Emission} {id : Nat}
    {site : Site} {frame : Frame} {node : Node} {context : Context} {ids : List Nat}
    (hfunction : scope.function = some site.function) (hat : FunctionAt before site frame)
    (hlt : site.function < scope.parent) (hnode : before.nodes[scope.parent]? = some node)
    (hcontext : node.body.children? context = some ids)
    (hid : generate scope tree before = .ok id middle) :
    let result := translation node.nesting scope.loopEnd (cursorAt before frame)
    ∃ added, Emit.addChild scope.parent context id middle = .ok () added ∧
      added.nodes[scope.parent]? = some { node with body := node.body.append id context } ∧
      before.nodes.size ≤ id ∧ Lays added id result.1 ∧
      Reaches site [site.function, scope.parent] before added result.2 := by
  dsimp only
  have hparent := Emission.lt_size_of_some hnode
  have hnesting : before.nestingAt scope.parent = node.nesting := Emission.nestingAt_of_some hnode
  obtain ⟨hle, hlays, hreaches⟩ := h scope before middle id site frame hfunction hat hparent hid
  rw [hnesting] at hlays hreaches
  generalize translation node.nesting scope.loopEnd (cursorAt before frame) = result at *
  have hmiddle : middle.nodes[scope.parent]? = some node :=
    hreaches.growth.node_eq hnode (by simp; omega)
  obtain ⟨added, hadd, hgrowth, hsize, hnode', hagree, hleaves⟩ :=
    addChild_spec hmiddle hcontext hlays.lt_size (by omega)
  refine ⟨added, hadd, hnode', hle, hlays.congr hgrowth.options_eq hagree (by omega), ?_, ?_, ?_⟩
  · apply (hreaches.growth.mono (by simp)).trans hgrowth
    intro other hother hlt
    simp only [List.mem_cons, List.not_mem_nil, or_false] at hother ⊢
    omega
  · exact hreaches.function.of_extends hgrowth (by simp; omega) hleaves
  · rw [hsize, hreaches.size_eq]

theorem translatesInto_cons {tree : Tree} {trees : List Tree}
    {translation more : Nat → Option String → Cursor → List Entry × Cursor}
    (h : Translates tree translation) (hmore : TranslatesInto trees more) :
    TranslatesInto (tree :: trees) fun level loopEnd cursor =>
      ((translation level loopEnd cursor).1 ++
          (more level loopEnd (translation level loopEnd cursor).2).1,
        (more level loopEnd (translation level loopEnd cursor).2).2) := by
  intro scope before after site frame node context ids hfunction hat hlt hnode hcontext hgenerate
  dsimp only
  rw [generateInto, bind_eq_ok] at hgenerate
  obtain ⟨id, middle, hid, hgenerate⟩ := hgenerate
  rw [bind_eq_ok] at hgenerate
  obtain ⟨_, added, hadd, hrest⟩ := hgenerate
  obtain ⟨_, hadd', hnode', hle, hlays, hadded⟩ :=
    h.addChild hfunction hat hlt hnode hcontext hid
  obtain ⟨rfl⟩ := hadd.symm.trans hadd'
  generalize translation node.nesting scope.loopEnd (cursorAt before frame) = first at *
  obtain ⟨lines, cursor⟩ := first
  have hcursor : cursorAt added cursor.frame = cursor := by
    rw [cursorAt, hadded.size_eq]
  -- and then the other ones
  obtain ⟨more, hafter, hmoreLays, hmoreReaches⟩ :=
    hmore scope added after site cursor.frame _ context _ hfunction hadded.function hlt hnode'
      (children?_append hcontext) hrest
  rw [hcursor] at hmoreLays hmoreReaches
  have hparent := Emission.lt_size_of_some hnode
  have hnew : ∀ other ∈ [site.function, scope.parent], other < id := by
    simp
    omega
  have hlays' : Lays after id lines := hmoreReaches.growth.lays hlays hnew
  refine ⟨id :: more, hafter, (LaysAll.single (by omega) hlays').append hmoreLays, ?_,
    hmoreReaches.function, hmoreReaches.size_eq⟩
  exact hadded.growth.trans hmoreReaches.growth fun other hother _ => hother

/-! ## Statements of one leaf -/

theorem LeafHolds.lays {emission : Emission} {id level : Nat} {code : List Instruction}
    (h : LeafHolds emission id level code) : Lays emission id (lay level code) := by
  obtain ⟨node, sort, hnode, hbody⟩ := h
  have hlays := Emission.lays_leaf hnode hbody
  rwa [Buffer.entries_holding] at hlays

namespace Reaches

variable {changed : List Nat} {site : Site} {before middle after : Emission} {cursor : Cursor}
  {frame : Frame}

protected theorem refl (hat : FunctionAt before site frame) :
    Reaches site changed before before (cursorAt before frame) :=
  ⟨.refl _ _, hat, rfl⟩

/-- Adding leaves with code keeps a function under construction. -/
theorem grows {level count : Nat} {code : List Instruction}
    (h : Reaches site changed before middle cursor)
    (hgrows : Grows middle after level code count) :
    Reaches site changed before after (cursor.skip count) where
  growth := h.growth.trans (.of_grows hgrows : Extends [] middle after) (by simp)
  function := h.function.of_extends (.of_grows hgrows : Extends [] middle after) (by simp)
    fun _ _ _ hleaf => (Extends.of_grows hgrows : Extends [] middle after).leafHolds hleaf (by simp)
  size_eq := by rw [hgrows.size_eq, h.size_eq, Cursor.serial_skip]

/-- The nesting of old nodes stays the same. -/
theorem nestingAt_eq (h : Reaches site [site.function] before after cursor)
    (hat : FunctionAt before site frame) {id : Nat} (hid : id < before.nodes.size) :
    after.nestingAt id = before.nestingAt id := by
  by_cases hfunction : id = site.function
  · rw [hfunction, h.function.nestingAt_eq, hat.nestingAt_eq]
  · exact Emission.nestingAt_of_eq (h.growth.old_eq id hid (by simpa using hfunction))

/-- Declaring a local. -/
theorem declareLocal (h : Reaches site [site.function] before middle cursor) (name : String) :
    ∃ after, Emit.declareLocal site.function name middle =
        .ok (cursor.frame.addLocal name).1 after ∧
      Extends [site.function] middle after ∧
      Reaches site [site.function] before after (cursor.declareLocal name) := by
  obtain ⟨after, hdeclare, hgrowth, hfunction, hsize⟩ := declareLocal_spec h.function name
  refine ⟨after, hdeclare, hgrowth, h.growth.trans hgrowth fun id hid _ => hid, hfunction, ?_⟩
  rw [hsize, h.size_eq]
  rfl

end Reaches

/-- An old node may change before leaves are added as well as after it. -/
theorem Grows.modify_old {before after : Emission} {level count : Nat} {code : List Instruction}
    (grows : Grows before after level code count) {id : Nat} (hid : id < before.nodes.size)
    (change : Node → Node) :
    Grows (before.modifyNode id change) (after.modifyNode id change) level code count where
  options_eq := grows.options_eq
  globals_eq := grows.globals_eq
  size_eq := by rw [Emission.size_modifyNode, Emission.size_modifyNode, grows.size_eq]
  old_eq other hother := by
    rw [Emission.size_modifyNode] at hother
    rw [Emission.getElem?_modifyNode, Emission.getElem?_modifyNode, grows.old_eq other hother]
  holds := by
    obtain ⟨node, sort, hnode, hbody⟩ := grows.holds
    refine ⟨node, sort, ?_, hbody⟩
    rw [Emission.size_modifyNode, Emission.getElem?_modifyNode_of_ne _ _ _ (by omega), hnode]
  childless other node hle hnode := by
    rw [Emission.size_modifyNode] at hle
    rw [Emission.getElem?_modifyNode_of_ne _ _ _ (by omega)] at hnode
    exact grows.childless other node hle hnode

/-- An older leaf is absorbed, which changes its parent. -/
theorem Grows.absorb_old {before middle : Emission} {level inner count source : Nat}
    {code other : List Instruction} (grows : Grows before middle level code count)
    (hsource : LeafHolds before source inner other) :
    ∃ older after, Emit.absorb before.nodes.size source middle = .ok () after ∧
      Grows older after level (code ++ other) count ∧
      older.nodes.size = before.nodes.size ∧ Extends [source] before older ∧
      ∀ id level code, LeafHolds before id level code → LeafHolds older id level code := by
  obtain ⟨node, sort, hnode, hbody⟩ := grows.holds
  obtain ⟨sourceNode, sourceSort, hsourceNode, hsourceBody⟩ := hsource
  have hlt := Emission.lt_size_of_some hsourceNode
  have hold : middle.leaf source = .ok (Buffer.holding inner other) := by
    refine leaf_of_some ?_ hsourceBody
    rw [grows.old_eq source hlt, hsourceNode]
  have hfilled : Grows before (middle.modifyNode before.nodes.size
      (·.mapBuffer (·.absorb (Buffer.holding inner other)))) level (code ++ other) count :=
    grows.mapBuffer (Buffer.absorb_holding level inner code other)
  -- the leaf that is absorbed is older, so its new parent is no part of what was added
  refine ⟨_, _, absorb_of_some hnode hbody hold, hfilled.modify_old hlt _,
    Emission.size_modifyNode _ _ _, .modifyNode _ _ _, ?_⟩
  rintro id level code ⟨leaf, leafSort, hleaf, hleafBody⟩
  rw [LeafHolds, Emission.getElem?_modifyNode, hleaf]
  split
  · exact ⟨_, leafSort, rfl, hleafBody⟩
  · exact ⟨leaf, leafSort, rfl, hleafBody⟩

/-- A statement that makes one leaf in the end. -/
theorem builds_of_grows {tree : Tree} (code : Frame → List Instruction) {count : Nat}
    (h : ∀ (scope : Scope) (before : Emission) (function : Nat) (frame : Frame),
      scope.function = some function → before.frame function = .ok frame →
      scope.parent < before.nodes.size →
      ∃ after, generate scope tree before = .ok before.nodes.size after ∧
        Grows before after (before.nestingAt scope.parent) (code frame) count) :
    Builds tree fun level _ cursor => (lay level (code cursor.frame), cursor.skip count) := by
  intro scope before site frame hfunction hat hparent
  obtain ⟨after, hgenerate, grows⟩ :=
    h scope before site.function frame hfunction hat.frame_eq hparent
  exact ⟨_, after, hgenerate, Nat.le_refl _, grows.holds.lays, (Reaches.refl hat).grows grows⟩

theorem builds_expression (value : Expr) :
    Builds value.toTree fun level _ cursor =>
      (lay level (value.code cursor.frame), cursor.skip value.size) :=
  builds_of_grows (fun frame => value.code frame)
    (yields_of_expression value.toTree (expression?_toTree value))

theorem builds_return (location : Location) (value : Option Expr) :
    Builds (Stmt.returnValue location value).toTree fun level _ cursor =>
      (lay level (returnCode cursor.frame value),
        cursor.skip (1 + (value.map Expr.size).getD 0)) := by
  refine builds_of_grows (fun frame => returnCode frame value) ?_
  intro scope before function frame hfunction hframe hparent
  have hrequire : ask (fun _ => requireFunction scope location "return") before =
      .ok function before := by
    apply ask_of_ok
    simp [requireFunction, hfunction]
  obtain ⟨leaf, hcreate, hleaf⟩ := Grows.of_create hparent .result
  cases value with
  | none =>
      obtain ⟨after, hadd, hafter⟩ := hleaf.add (.jmp frame.exitLabel)
      refine ⟨after, ?_, hafter⟩
      show generate scope (.node .returnStatement location [] [] []) before = _
      rw [generate, bind_of_ok hrequire, bind_of_ok hcreate]
      show (ask (·.frame function) >>= _) leaf = _
      rw [bind_of_ok (ask_of_ok (hleaf.frame_eq hframe)), bind_of_ok hadd]
      rfl
  | some value =>
      obtain ⟨inner, filled, hgenerate, habsorb, hfilled⟩ :=
        hleaf.operand (yields_of_expression value.toTree (expression?_toTree value)) hfunction
          hframe hparent
      obtain ⟨after, hadd, hafter⟩ := hfilled.add (.jmp frame.exitLabel)
      refine ⟨after, ?_, hafter⟩
      show generate scope (.node .returnStatement location [value.toTree] [] []) before = _
      rw [generate, bind_of_ok hrequire, bind_of_ok hcreate]
      show (generate scope value.toTree >>= _) leaf = _
      rw [bind_of_ok hgenerate, bind_of_ok habsorb]
      show (ask (·.frame function) >>= _) filled = _
      rw [bind_of_ok (ask_of_ok (hfilled.frame_eq hframe)), bind_of_ok hadd]
      rfl

theorem translates_break (location : Location) :
    Translates (Stmt.breakLoop location).toTree fun level loopEnd cursor =>
      (lay level (loopEnd.map Instruction.jmp).toList, cursor.skip 1) := by
  intro scope before after id site frame hfunction hat hparent hgenerate
  change generate scope (.node .breakStatement location [] [] []) before = _ at hgenerate
  -- without a loop around it there is no code, and nothing is to be shown
  cases hloop : scope.loopEnd with
  | none =>
      rw [generate, hloop] at hgenerate
      cases hgenerate
  | some target =>
      obtain ⟨leaf, hcreate, hleaf⟩ := Grows.of_create hparent .other
      obtain ⟨last, hadd, hlast⟩ := hleaf.add (.jmp target)
      have hresult : generate scope (.node .breakStatement location [] [] []) before =
          .ok before.nodes.size last := by
        rw [generate, hloop]
        show (create _ _ >>= _) before = _
        rw [bind_of_ok hcreate, bind_of_ok hadd]
        rfl
      rw [hresult] at hgenerate
      cases hgenerate
      exact ⟨Nat.le_refl _, hlast.holds.lays, (Reaches.refl hat).grows hlast⟩

/-! ## Declarations -/

theorem isType_toTree (expr : Expr) : expr.toTree.kind.isType = false := by
  cases expr with
  | call location callee list => cases list <;> rfl
  | _ => rfl

@[simp] theorem isType_typeSpecifier (text : String) (location : Location) :
    (Tree.leaf (.typeSpecifier text) location).kind.isType = true := rfl

@[simp] theorem isType_identifier (name : String) (location : Location) :
    (Tree.leaf (.identifier name) location).kind.isType = false := rfl

/-- The parts of a declaration that are no types: the name, and the initial value if
there is one. -/
theorem filter_parts (declared : Declaration) :
    declared.parts.filter (!·.kind.isType) =
      .leaf (.identifier declared.name) declared.nameLocation ::
        (declared.initializer.map Expr.toTree).toList := by
  cases hinitial : declared.initializer <;>
    simp [Declaration.parts, hinitial, isType_toTree]

theorem declaredName_parts (declared : Declaration) (location : Location) :
    declaredName location declared.parts =
      .ok (declared.name, (declared.initializer.map Expr.toTree).toList) := by
  rw [declaredName, filter_parts]
  rfl

/-- The initial value is generated where there is one. -/
theorem generateInitializer_parts (scope : Scope) (declared : Declaration) :
    generateInitializer scope declared.parts =
      match declared.initializer with
      | none => pure none
      | some value => do
          let code ← generate scope value.toTree
          return some code := by
  cases hinitial : declared.initializer <;>
    simp [Declaration.parts, hinitial, generateInitializer, generateValue, isType_toTree]

/-- Code generation of a declaration in a function: the initial value, if there is one,
the place of the name and a leaf. -/
theorem generate_declaration (declared : Declaration) {scope : Scope} {function : Nat}
    (hfunction : scope.function = some function) (emission : Emission) :
    generate scope (declared.toTree .localDeclaration) emission =
      (do
        let value ← generateInitializer scope declared.parts
        let offset ← Emit.declareLocal function declared.name
        let leaf ← create (.leaf .assignment) scope.parent
        if let some code := value then
          absorb leaf code
          add leaf (.mov (.frame offset) Register.eax)
        return leaf) emission := by
  have hrequire : ask (fun _ => requireFunction scope declared.location "local declaration")
      emission = .ok function emission := by
    apply ask_of_ok
    simp [requireFunction, hfunction]
  have hname : ask (fun _ => declaredName declared.location declared.parts) emission =
      .ok (declared.name, (declared.initializer.map Expr.toTree).toList) emission :=
    ask_of_ok (declaredName_parts declared declared.location)
  rw [Declaration.toTree, generate, bind_of_ok hrequire]
  exact bind_of_ok hname _

theorem builds_declaration_of_none {declared : Declaration}
    (hinitial : declared.initializer = none) :
    Builds (declared.toTree .localDeclaration) fun level _ cursor =>
      declared.translate level cursor := by
  intro scope before site frame hfunction hat hparent
  dsimp only
  rw [generate_declaration declared hfunction, generateInitializer_parts, hinitial,
    Declaration.translate, hinitial]
  obtain ⟨named, hdeclare, hgrowth, hnamed⟩ :=
    (Reaches.refl hat : Reaches site [site.function] _ _ _).declareLocal declared.name
  have hparent' : scope.parent < named.nodes.size := Nat.lt_of_lt_of_le hparent hgrowth.size_le
  obtain ⟨leaf, hcreate, hleaf⟩ := Grows.of_create hparent' .assignment
  refine ⟨_, leaf, ?_, hgrowth.size_le, hleaf.holds.lays, hnamed.grows hleaf⟩
  change (Emit.declareLocal site.function declared.name >>= _) before = _
  rw [bind_of_ok hdeclare, bind_of_ok hcreate]
  rfl

/-- The leaf of the initial value is made before that of the declaration, which absorbs
it. -/
theorem builds_declaration_of_some {declared : Declaration} {value : Expr}
    (hinitial : declared.initializer = some value) :
    Builds (declared.toTree .localDeclaration) fun level _ cursor =>
      declared.translate level cursor := by
  intro scope before site frame hfunction hat hparent
  dsimp only
  rw [generate_declaration declared hfunction, generateInitializer_parts, hinitial,
    Declaration.translate, hinitial]
  obtain ⟨valued, hvalue, hvalued⟩ := yields_of_expression value.toTree
    (expression?_toTree value) scope before site.function frame hfunction hat.frame_eq hparent
  obtain ⟨named, hdeclare, hgrowth, hnamed⟩ :=
    ((Reaches.refl hat : Reaches site [site.function] _ _ _).grows hvalued).declareLocal
      declared.name
  have hparent' : scope.parent < named.nodes.size :=
    Nat.lt_of_lt_of_le (Nat.lt_trans hparent hvalued.size_lt) hgrowth.size_le
  obtain ⟨leaf, hcreate, hleaf⟩ := Grows.of_create hparent' .assignment
  have hsource : LeafHolds named before.nodes.size _ _ :=
    hgrowth.leafHolds hvalued.holds (by simpa using Nat.ne_of_gt hat.lt_size)
  -- the leaf of the value has become an old node by now
  obtain ⟨older, filled, habsorb, hfilled, holderSize, holder, hleaves⟩ :=
    hleaf.absorb_old hsource
  obtain ⟨last, hadd, hlast⟩ :=
    hfilled.add (.mov (.frame (frame.addLocal declared.name).1) Register.eax)
  rw [holderSize] at hadd
  have hfunctionSource : site.function ∉ [before.nodes.size] := by
    simpa using Nat.ne_of_lt hat.lt_size
  have holder' : Reaches site [site.function] before older _ :=
    ⟨hnamed.growth.trans holder fun id hid hlt => absurd (List.mem_singleton.mp hid)
        (Nat.ne_of_lt hlt),
      hnamed.function.of_extends holder hfunctionSource hleaves,
      holderSize.trans hnamed.size_eq⟩
  refine ⟨named.nodes.size, last, ?_, ?_, ?_, holder'.grows hlast⟩
  · have hinit : (do
        let code ← generate scope value.toTree
        return some code) before = .ok (some before.nodes.size) valued := by
      rw [bind_of_ok hvalue]
      rfl
    change ((generate scope value.toTree >>= fun code => pure (some code)) >>= _) before = _
    rw [bind_of_ok hinit, bind_of_ok hdeclare, bind_of_ok hcreate]
    change (absorb named.nodes.size before.nodes.size >>= _) leaf = _
    rw [bind_of_ok habsorb]
    change (add named.nodes.size (.mov (.frame (frame.addLocal declared.name).1)
      Register.eax) >>= _) filled = _
    rw [bind_of_ok hadd]
    rfl
  · have := hvalued.size_lt
    have := hgrowth.size_le
    omega
  · have hlays := hlast.holds.lays
    rw [holderSize, hnamed.nestingAt_eq hat hparent] at hlays
    exact hlays

theorem builds_declaration (declared : Declaration) :
    Builds (declared.toTree .localDeclaration) fun level _ cursor =>
      declared.translate level cursor := by
  cases hinitial : declared.initializer with
  | none => exact builds_declaration_of_none hinitial
  | some value => exact builds_declaration_of_some hinitial

/-! ## Statements with others in them -/

namespace Reaches

variable {changed more : List Nat} {site : Site} {before middle after : Emission}
  {cursor next : Cursor}

theorem cursorAt_eq (h : Reaches site changed before after cursor) :
    cursorAt after cursor.frame = cursor := by
  rw [cursorAt, h.size_eq]

theorem trans (h : Reaches site changed before middle cursor)
    (hmore : Reaches site more middle after next)
    (hsub : ∀ id ∈ more, id < before.nodes.size → id ∈ changed) :
    Reaches site changed before after next :=
  ⟨h.growth.trans hmore.growth hsub, hmore.function, hmore.size_eq⟩

/-- A new composite. -/
theorem push (h : Reaches site changed before middle cursor) (parent : Nat) (body : Nat → Body) :
    Reaches site changed before (middle.push parent body) (cursor.skip 1) where
  growth := h.growth.trans (Extends.push middle parent body : Extends [] _ _) (by simp)
  function := h.function.of_extends (Extends.push middle parent body : Extends [] _ _) (by simp)
    fun _ _ _ hleaf => (Extends.push middle parent body : Extends [] _ _).leafHolds hleaf (by simp)
  size_eq := by rw [Emission.size_push, h.size_eq, Cursor.serial_skip]

/-- A new composite is changed. -/
theorem modifyNode (h : Reaches site changed before middle cursor) {id : Nat} {node : Node}
    {context : Context} {ids : List Nat} (hid : before.nodes.size ≤ id)
    (hfunction : site.function < id) (hnode : middle.nodes[id]? = some node)
    (hcontext : node.body.children? context = some ids) (change : Node → Node) :
    Reaches site changed before (middle.modifyNode id change) cursor where
  growth := by
    apply h.growth.trans (.modifyNode middle id change)
    intro other hother hlt
    rw [List.mem_singleton] at hother
    omega
  function := by
    refine h.function.of_extends (.modifyNode middle id change)
      (by simpa using Nat.ne_of_lt hfunction) ?_
    -- a leaf is not the composite that is changed
    rintro other level code ⟨leaf, sort, hleaf, hbody⟩
    refine ⟨leaf, sort, ?_, hbody⟩
    rw [Emission.getElem?_modifyNode_of_ne _ _ _ ?_, hleaf]
    rintro rfl
    rw [hnode] at hleaf
    cases hleaf
    rw [hbody] at hcontext
    cases hcontext
  size_eq := by rw [Emission.size_modifyNode, h.size_eq]

end Reaches

/-- Statements are added to a composite that is new since the start. -/
theorem TranslatesInto.reaches {trees : List Tree}
    {translation : Nat → Option String → Cursor → List Entry × Cursor}
    (h : TranslatesInto trees translation) {scope : Scope} {before middle after : Emission}
    {id : Nat} {site : Site} {node : Node} {context : Context} {ids : List Nat} {cursor : Cursor}
    (hgenerate : generateInto scope id context trees middle = .ok () after)
    (hparent : scope.parent = id) (hfunction : scope.function = some site.function)
    (hreaches : Reaches site [site.function] before middle cursor) (hid : before.nodes.size ≤ id)
    (hlt : site.function < id) (hnode : middle.nodes[id]? = some node)
    (hcontext : node.body.children? context = some ids) :
    ∃ more, after.nodes[id]? =
        some { node with body := more.foldl (fun body id => body.append id context) node.body } ∧
      LaysAll after id more (translation node.nesting scope.loopEnd cursor).1 ∧
      Reaches site [site.function] before after (translation node.nesting scope.loopEnd cursor).2 ∧
      ∀ ids entries, LaysAll middle id ids entries → LaysAll after id ids entries := by
  subst hparent
  obtain ⟨more, hafter, hlays, hmore⟩ :=
    h scope middle after site cursor.frame node context ids hfunction hreaches.function hlt hnode
      hcontext hgenerate
  rw [hreaches.cursorAt_eq] at hlays hmore
  refine ⟨more, hafter, hlays, ?_, fun ids entries hold => hmore.growth.laysAll hold ?_⟩
  · apply hreaches.trans hmore
    intro other hother hbefore
    simp only [List.mem_cons, List.not_mem_nil, or_false] at hother ⊢
    exact hother.resolve_right fun heq => absurd hbefore (Nat.not_lt.mpr (heq ▸ hid))
  · simp only [List.mem_cons, List.not_mem_nil, or_false]
    rintro other (rfl | rfl)
    · exact Nat.le_of_lt hlt
    · exact Nat.le_refl _

/-- Children appended one after another. -/
theorem foldl_append (context : Context) (wrap : List Nat → Body)
    (h : ∀ ids id, (wrap ids).append id context = wrap (ids ++ [id])) (ids more : List Nat) :
    more.foldl (fun body id => body.append id context) (wrap ids) = wrap (ids ++ more) := by
  induction more generalizing ids with
  | nil => simp
  | cons id more ih => rw [List.foldl_cons, h, ih, List.append_assoc, List.singleton_append]

/-- A new block is empty, and what follows in it is one level deeper. -/
theorem open_block {before : Emission} {site : Site} {frame : Frame} {scope : Scope}
    (hat : FunctionAt before site frame) (hparent : scope.parent < before.nodes.size) :
    let level := before.nestingAt scope.parent
    ∃ pushed opened, create .compound scope.parent before = .ok before.nodes.size pushed ∧
      enter before.nodes.size pushed = .ok () opened ∧
      Reaches site [site.function] before opened ((cursorAt before frame).skip 1) ∧
      opened.nodes[before.nodes.size]? = some
        ⟨some scope.parent, level, level + 1, .compound []⟩ := by
  intro level
  have hpushed := (Reaches.refl hat : Reaches site [site.function] _ _ _).push scope.parent
    fun _ => .compound []
  have hnode := Emission.getElem?_push_new before scope.parent fun _ => .compound []
  refine ⟨_, _, create_compound hparent, enter_of_lt (by simp),
    hpushed.modifyNode (Nat.le_refl _) hat.lt_size hnode (rfl : Body.children? _ .compoundBody = _)
      Node.enter, ?_⟩
  rw [Emission.getElem?_modifyNode_self, hnode]
  rfl

theorem translates_block {trees : List Tree} (location : Location)
    {translation : Nat → Option String → Cursor → List Entry × Cursor}
    (h : TranslatesInto trees translation) :
    Translates (.node .block location trees [] []) fun level loopEnd cursor =>
      translation (level + 1) loopEnd (cursor.skip 1) := by
  intro scope before after id site frame hfunction hat hparent hgenerate
  dsimp only
  have hfunctionLt := hat.lt_size
  obtain ⟨pushed, opened, hcreate, henter, hopened, hopenedNode⟩ := open_block hat hparent
  generalize before.nestingAt scope.parent = level at *
  rw [generate, bind_of_ok hcreate, bind_of_ok henter, bind_eq_ok] at hgenerate
  obtain ⟨_, filled, hinto, hgenerate⟩ := hgenerate
  obtain ⟨more, hfilledNode, hlays, hfilled, -⟩ :=
    h.reaches hinto rfl hfunction hopened (Nat.le_refl _) hfunctionLt hopenedNode rfl
  rw [foldl_append .compoundBody Body.compound (fun _ _ => rfl)] at hfilledNode
  let outer : Node := ⟨some scope.parent, level, level, .compound more⟩
  have hleave : leave before.nodes.size filled =
      .ok () (filled.modifyNode before.nodes.size fun _ => outer) := leave_of_some hfilledNode rfl
  rw [bind_of_ok hleave] at hgenerate
  cases hgenerate
  -- leaving the block brings back the level of the block itself
  have hclosed := hfilled.modifyNode (Nat.le_refl _) hfunctionLt hfilledNode
    (rfl : Body.children? _ .compoundBody = _) fun _ => outer
  have houter : (filled.modifyNode before.nodes.size fun _ => outer).nodes[before.nodes.size]? =
      some outer := by
    rw [Emission.getElem?_modifyNode_self, hfilledNode]
    rfl
  refine ⟨Nat.le_refl _, Emission.lays_compound houter rfl ?_, hclosed⟩
  exact (Extends.modifyNode filled before.nodes.size fun _ => outer).laysAll hlays (by simp)

theorem translatesInto_single {tree : Tree}
    {translation : Nat → Option String → Cursor → List Entry × Cursor}
    (h : Translates tree translation) : TranslatesInto [tree] translation := by
  have hcons := translatesInto_cons h translatesInto_nil
  simp only [List.append_nil] at hcons
  exact hcons

/-- The condition of a statement comes before all else in it. -/
theorem translatesInto_condition (condition : Expr) :
    TranslatesInto [condition.toTree] fun level _ cursor =>
      (lay level (condition.code cursor.frame), cursor.skip condition.size) :=
  translatesInto_single (builds_expression condition).translates

theorem translates_conditional {condition : Expr} {thenTrees elseTrees : List Tree}
    (location : Location)
    {thenPart elsePart : Nat → Option String → Cursor → List Entry × Cursor}
    (hthen : TranslatesInto thenTrees thenPart) (helse : TranslatesInto elseTrees elsePart) :
    Translates (.node .ifStatement location [condition.toTree] thenTrees elseTrees)
      fun level loopEnd cursor =>
        let label := labelOf .conditional cursor.serial
        let chosen := thenPart level loopEnd (cursor.skip (1 + condition.size))
        let other := elsePart level loopEnd chosen.2
        (lay level (condition.code cursor.frame ++ Emission.jumpIfZero (label "else")) ++
          chosen.1 ++ lay level [.jmp (label "endif"), .label (label "else")] ++ other.1 ++
          lay level [.label (label "endif")], other.2) := by
  intro scope before after id site frame hfunction hat hparent hgenerate
  dsimp only
  have hfunctionLt := hat.lt_size
  have hopened := (Reaches.refl hat : Reaches site [site.function] _ _ _).push scope.parent
    fun _ => .conditional [] [] []
  have hnode := Emission.getElem?_push_new before scope.parent fun _ => .conditional [] [] []
  generalize hlevel : before.nestingAt scope.parent = level at *
  generalize hemission : before.push scope.parent (fun _ => .conditional [] [] []) = opened at *
  rw [generate] at hgenerate
  change (create .conditional scope.parent >>= _) before = _ at hgenerate
  rw [bind_of_ok (create_conditional hparent), hemission, bind_eq_ok] at hgenerate
  obtain ⟨_, tested, hcondition, hgenerate⟩ := hgenerate
  rw [bind_eq_ok] at hgenerate
  obtain ⟨_, decided, hthenPart, hgenerate⟩ := hgenerate
  rw [bind_eq_ok] at hgenerate
  obtain ⟨_, last, helsePart, hgenerate⟩ := hgenerate
  cases hgenerate
  -- the three contexts are filled one after another, and what is laid out stays
  obtain ⟨conditionIds, htestedNode, hlays₁, hreaches₁, -⟩ :=
    (translatesInto_condition condition).reaches hcondition rfl hfunction hopened (Nat.le_refl _)
      hfunctionLt hnode rfl
  rw [foldl_append .ifCondition (fun ids => .conditional ids [] []) (fun _ _ => rfl)]
    at htestedNode
  obtain ⟨thenIds, hdecidedNode, hlays₂, hreaches₂, hkept₁⟩ :=
    hthen.reaches hthenPart rfl hfunction hreaches₁ (Nat.le_refl _) hfunctionLt htestedNode rfl
  rw [foldl_append .ifThen (fun ids => .conditional _ ids []) (fun _ _ => rfl)] at hdecidedNode
  obtain ⟨elseIds, hlastNode, hlays₃, hreaches₃, hkept₂⟩ :=
    helse.reaches helsePart rfl hfunction hreaches₂ (Nat.le_refl _) hfunctionLt hdecidedNode rfl
  rw [foldl_append .ifElse (fun ids => .conditional _ _ ids) (fun _ _ => rfl)] at hlastNode
  have hlays := Emission.lays_conditional hlastNode rfl (hkept₂ _ _ (hkept₁ _ _ hlays₁))
    (hkept₂ _ _ hlays₂) hlays₃
  rw [← Cursor.skip_skip, lay_append]
  exact ⟨Nat.le_refl _, hlays, hreaches₃⟩

theorem label_of_some {emission : Emission} {id : Nat} {node : Node}
    (h : emission.nodes[id]? = some node) (suffix : String) :
    emission.label id suffix = .ok (labelOf node.kind id suffix) := by
  simp [Emission.label, Emission.name, Emission.node_of_some h, bind, Except.bind, pure,
    Except.pure, labelOf]

theorem translates_loop {condition : Expr} {bodyTrees : List Tree} (location : Location)
    {body : Nat → Option String → Cursor → List Entry × Cursor}
    (hbody : TranslatesInto bodyTrees body) :
    Translates (.node .whileStatement location [condition.toTree] bodyTrees [])
      fun level _ cursor =>
        let label := labelOf .loop cursor.serial
        let repeated := body level (some (label "end")) (cursor.skip (1 + condition.size))
        (lay level ([.label (label "loop")] ++ condition.code cursor.frame ++
            Emission.jumpIfZero (label "end")) ++
          repeated.1 ++ lay level [.jmp (label "loop"), .label (label "end")], repeated.2) := by
  intro scope before after id site frame hfunction hat hparent hgenerate
  dsimp only
  have hfunctionLt := hat.lt_size
  have hopened := (Reaches.refl hat : Reaches site [site.function] _ _ _).push scope.parent
    fun _ => .loop [] []
  have hnode := Emission.getElem?_push_new before scope.parent fun _ => .loop [] []
  generalize hlevel : before.nestingAt scope.parent = level at *
  generalize hemission : before.push scope.parent (fun _ => .loop [] []) = opened at *
  -- the label is known before the loop is laid out
  have hlabel : ask (·.label before.nodes.size "end") opened =
      .ok (labelOf .loop before.nodes.size "end") opened :=
    ask_of_ok (label_of_some hnode "end")
  rw [generate] at hgenerate
  change (create .loop scope.parent >>= _) before = _ at hgenerate
  rw [bind_of_ok (create_loop hparent), hemission, bind_of_ok hlabel, bind_eq_ok] at hgenerate
  obtain ⟨_, tested, hcondition, hgenerate⟩ := hgenerate
  rw [bind_eq_ok] at hgenerate
  obtain ⟨_, last, hrepeat, hgenerate⟩ := hgenerate
  cases hgenerate
  obtain ⟨conditionIds, htestedNode, hlays₁, hreaches₁, -⟩ :=
    (translatesInto_condition condition).reaches hcondition rfl hfunction hopened (Nat.le_refl _)
      hfunctionLt hnode rfl
  rw [foldl_append .whileCondition (fun ids => .loop ids []) (fun _ _ => rfl)] at htestedNode
  obtain ⟨bodyIds, hlastNode, hlays₂, hreaches₂, hkept⟩ :=
    hbody.reaches hrepeat rfl hfunction hreaches₁ (Nat.le_refl _) hfunctionLt htestedNode rfl
  rw [foldl_append .whileBody (fun ids => .loop _ ids) (fun _ _ => rfl)] at hlastNode
  have hlays := Emission.lays_loop hlastNode rfl (hkept _ _ hlays₁) hlays₂
  rw [← Cursor.skip_skip, lay_append, lay_append]
  exact ⟨Nat.le_refl _, hlays, hreaches₂⟩

/-! ## All statements -/

mutual

/-- **Code generation of a statement**, where it succeeds, makes a node that lays out
the translation of the statement. -/
theorem translates_of_statement : (statement : Stmt) →
    Translates statement.toTree fun level loopEnd cursor =>
      statement.translate level loopEnd cursor
  | .expression value => (builds_expression value).translates
  | .declaration declared => (builds_declaration declared).translates
  | .block block => translates_of_block block
  | .ifElse location _ thenBlock none =>
      translates_conditional location (translatesInto_single (translates_of_block thenBlock))
        translatesInto_nil
  | .ifElse location _ thenBlock (some elseBlock) =>
      translates_conditional location (translatesInto_single (translates_of_block thenBlock))
        (translatesInto_single (translates_of_block elseBlock))
  | .whileLoop location _ body =>
      translates_loop location (translatesInto_single (translates_of_statement body))
  | .returnValue location value => (builds_return location value).translates
  | .breakLoop location => translates_break location

theorem translates_of_block : (block : Block) →
    Translates block.toTree fun level loopEnd cursor => block.translate level loopEnd cursor
  | ⟨location, statements⟩ => translates_block location (translatesInto_of_statements statements)

theorem translatesInto_of_statements : (statements : List Stmt) →
    TranslatesInto (statementTrees statements) fun level loopEnd cursor =>
      translateAll level loopEnd statements cursor
  | [] => translatesInto_nil
  | statement :: statements =>
      translatesInto_cons (translates_of_statement statement)
        (translatesInto_of_statements statements)

end

end MiniC.Codegen
