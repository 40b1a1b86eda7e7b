import MiniC.Proofs.Codegen.Faults
import MiniC.Proofs.Codegen.Files

/-!
# How code generation ends

Code generation of a statement succeeds if nothing is wrong with it, and else stops at
the first of its faults (`settles_of_statement`).  Every other check that it makes on the
way succeeds.

The induction is that of the translation of statements.  What it needs of the emission
between two statements is what their translation says: the function and the composite
that they are added to are still in place (`Translates.addChild`, `TranslatesInto.reaches`).
-/

namespace MiniC.Codegen

open Ast (Kind Tree)
open Asm (Entry)
open Emission (Body Context Node)
open Emit

variable {α β : Type} {before middle after : Emission}

/-! ## Computations that stop at faults -/

/-- A computation stops at the first of some faults, or succeeds if there is none. -/
def Ends (result : EStateM.Result Error Emission α) : List Fault → Prop
  | [] => ∃ value after, result = .ok value after
  | fault :: _ => ∃ after, result = .error fault.error after

theorem ends_of_ok {result : EStateM.Result Error Emission α} {value : α}
    (h : result = .ok value after) : Ends result [] :=
  ⟨value, after, h⟩

/-- One computation after another has the faults of both. -/
theorem ends_bind {action : Emit α} {next : α → Emit β} {faults more : List Fault}
    (h : Ends (action before) faults)
    (hnext : ∀ value after, action before = .ok value after → Ends (next value after) more) :
    Ends ((action >>= next) before) (faults ++ more) := by
  cases faults with
  | nil =>
      obtain ⟨value, after, hvalue⟩ := h
      rw [bind_of_ok hvalue]
      exact hnext value after hvalue
  | cons fault faults =>
      obtain ⟨after, herror⟩ := h
      refine ⟨after, ?_⟩
      simp only [bind, EStateM.bind, herror]

/-- What always succeeds afterwards adds no faults. -/
theorem ends_bind_ok {action : Emit α} {next : α → Emit β} {faults : List Fault}
    (h : Ends (action before) faults)
    (hnext : ∀ value after, action before = .ok value after →
      ∃ result last, next value after = .ok result last) :
    Ends ((action >>= next) before) faults := by
  rw [← List.append_nil faults]
  refine ends_bind h fun value after hvalue => ?_
  obtain ⟨result, last, hresult⟩ := hnext value after hvalue
  exact ends_of_ok hresult

/-! ## Statements -/

/-- Code generation of a tree in a function stops at the first fault of the tree, if
there is one.  The scope knows whether there is a loop around it. -/
def Settles (tree : Tree) : Prop :=
  ∀ (scope : Scope) (before : Emission) (site : Site) (frame : Frame) (above : List Kind),
    scope.function = some site.function → FunctionAt before site frame →
    scope.parent < before.nodes.size → (scope.loopEnd.isSome ↔ .whileStatement ∈ above) →
    Ends (generate scope tree before) (faultsIn above tree)

/-- Code generation of trees for a composite in a function stops at their first fault, if
there is one. -/
def SettlesInto (trees : List Tree) : Prop :=
  ∀ (scope : Scope) (before : Emission) (site : Site) (frame : Frame) (above : List Kind)
    (node : Node) (context : Context) (ids : List Nat),
    scope.function = some site.function → FunctionAt before site frame →
    site.function < scope.parent → before.nodes[scope.parent]? = some node →
    node.body.children? context = some ids →
    (scope.loopEnd.isSome ↔ .whileStatement ∈ above) →
    Ends (generateInto scope scope.parent context trees before) (faultsInAll above trees)

theorem settlesInto_nil : SettlesInto [] := by
  intro scope before site frame above node context ids _ _ _ _ _ _
  rw [generateInto]
  exact ends_of_ok rfl

theorem settlesInto_cons {tree : Tree} {trees : List Tree}
    {translation : Nat → Option String → Cursor → List Entry × Cursor} (h : Settles tree)
    (translates : Translates tree translation) (hmore : SettlesInto trees) :
    SettlesInto (tree :: trees) := by
  intro scope before site frame above node context ids hfunction hat hlt hnode hcontext hloop
  rw [generateInto, faultsInAll_cons]
  apply ends_bind (h scope before site frame above hfunction hat
    (Emission.lt_size_of_some hnode) hloop)
  intro id middle hid
  -- the node that was made is added to the composite, and the others follow
  obtain ⟨added, hadd, hnode', -, -, hadded⟩ :=
    translates.addChild hfunction hat hlt hnode hcontext hid
  rw [bind_of_ok hadd]
  exact hmore scope added site _ above _ context _ hfunction hadded.function hlt hnode'
    (children?_append hcontext) hloop

theorem settlesInto_single {tree : Tree}
    {translation : Nat → Option String → Cursor → List Entry × Cursor} (h : Settles tree)
    (translates : Translates tree translation) : SettlesInto [tree] :=
  settlesInto_cons h translates settlesInto_nil

/-- A statement whose code is always generated has no faults. -/
theorem settles_of_builds {tree : Tree}
    {translation : Nat → Option String → Cursor → List Entry × Cursor}
    (h : Builds tree translation) (hfaults : ∀ above, faultsIn above tree = []) :
    Settles tree := by
  intro scope before site frame above hfunction hat hparent _
  obtain ⟨id, after, hgenerate, -⟩ := h scope before site frame hfunction hat hparent
  rw [hfaults]
  exact ends_of_ok hgenerate

theorem settles_expression (value : Expr) : Settles value.toTree :=
  settles_of_builds (builds_expression value) fun above => faultsIn_expression above value

theorem settlesInto_condition (value : Expr) : SettlesInto [value.toTree] :=
  settlesInto_single (settles_expression value) (builds_expression value).translates

theorem settles_return (location : Location) (value : Option Expr) :
    Settles (Stmt.returnValue location value).toTree := by
  apply settles_of_builds (builds_return location value)
  intro above
  rw [Stmt.toTree, faultsIn_of_plain (by simp), faultsInAll_optional]
  rfl

/-- A `break` knows where to go if there is a loop around it. -/
theorem settles_break (location : Location) : Settles (Stmt.breakLoop location).toTree := by
  intro scope before site frame above hfunction hat hparent hloop
  have htree : (Stmt.breakLoop location).toTree = .node .breakStatement location [] [] [] := rfl
  rw [htree, faultsIn_node, generate]
  cases hend : scope.loopEnd with
  | none =>
      have hnotin : .whileStatement ∉ above := by
        rw [← hloop, hend]
        simp
      have hfault : fault? (above, .node .breakStatement location [] [] []) =
          some ⟨location, .outsideLoop⟩ := if_neg hnotin
      rw [hfault]
      exact ⟨before, rfl⟩
  | some target =>
      have hin : .whileStatement ∈ above := by
        rw [← hloop, hend]
        rfl
      have hfault : fault? (above, .node .breakStatement location [] [] []) = none := if_pos hin
      obtain ⟨leaf, hcreate, hleaf⟩ := Grows.of_create hparent .other
      obtain ⟨last, hadd, -⟩ := hleaf.add (.jmp target)
      rw [hfault]
      refine ⟨before.nodes.size, last, ?_⟩
      show (create _ _ >>= _) before = _
      rw [bind_of_ok hcreate, bind_of_ok hadd]
      rfl

/-! ## Statements with others in them -/

/-- The statements of a composite that is new since the start. -/
theorem SettlesInto.ends {trees : List Tree} (h : SettlesInto trees) (scope : Scope) {id : Nat}
    {site : Site} {above : List Kind} {node : Node} {context : Context} {ids : List Nat}
    {cursor : Cursor} (hparent : scope.parent = id)
    (hfunction : scope.function = some site.function)
    (hreaches : Reaches site [site.function] before middle cursor) (hlt : site.function < id)
    (hnode : middle.nodes[id]? = some node) (hcontext : node.body.children? context = some ids)
    (hloop : scope.loopEnd.isSome ↔ .whileStatement ∈ above) :
    Ends (generateInto scope id context trees middle) (faultsInAll above trees) := by
  subst hparent
  exact h scope middle site cursor.frame above node context ids hfunction hreaches.function hlt
    hnode hcontext hloop

theorem settles_block {trees : List Tree} (location : Location)
    {translation : Nat → Option String → Cursor → List Entry × Cursor} (h : SettlesInto trees)
    (translates : TranslatesInto trees translation) :
    Settles (.node .block location trees [] []) := by
  intro scope before site frame above hfunction hat hparent hloop
  have hfunctionLt := hat.lt_size
  obtain ⟨pushed, opened, hcreate, henter, hopened, hnode⟩ := open_block hat hparent
  have hinside : (scope.loopEnd.isSome ↔ .whileStatement ∈ Kind.block :: above) := by
    simp [hloop]
  rw [generate, bind_of_ok hcreate, bind_of_ok henter, faultsIn_of_plain (by simp),
    faultsInAll_nil, List.append_nil, List.append_nil]
  apply ends_bind_ok
    (h.ends (scope.under before.nodes.size) rfl hfunction hopened hfunctionLt hnode rfl hinside)
  intro _ filled hinto
  -- what was entered can be left
  obtain ⟨more, hfilled, -⟩ := translates.reaches hinto rfl hfunction hopened (Nat.le_refl _)
    hfunctionLt hnode rfl
  rw [foldl_append .compoundBody Body.compound (fun _ _ => rfl)] at hfilled
  let outer : Node :=
    ⟨some scope.parent, before.nestingAt scope.parent, before.nestingAt scope.parent,
      .compound more⟩
  have hleave : leave before.nodes.size filled =
      .ok () (filled.modifyNode before.nodes.size fun _ => outer) := leave_of_some hfilled rfl
  exact ⟨_, _, (bind_of_ok hleave _).trans rfl⟩

theorem settles_conditional {condition : Expr} {thenTrees elseTrees : List Tree}
    (location : Location) {thenPart : Nat → Option String → Cursor → List Entry × Cursor}
    (hthen : SettlesInto thenTrees) (translatesThen : TranslatesInto thenTrees thenPart)
    (helse : SettlesInto elseTrees) :
    Settles (.node .ifStatement location [condition.toTree] thenTrees elseTrees) := by
  intro scope before site frame above hfunction hat hparent hloop
  have hfunctionLt := hat.lt_size
  have hopened := (Reaches.refl hat : Reaches site [site.function] _ _ _).push scope.parent
    fun _ => .conditional [] [] []
  have hnode := Emission.getElem?_push_new before scope.parent fun _ => .conditional [] [] []
  have hinside : (scope.loopEnd.isSome ↔ .whileStatement ∈ Kind.ifStatement :: above) := by
    simp [hloop]
  let inner := scope.under before.nodes.size
  rw [faultsIn_of_plain (by simp), List.append_assoc, generate]
  change Ends ((create .conditional scope.parent >>= _) before) _
  rw [bind_of_ok (create_conditional hparent)]
  -- the three contexts are filled one after another
  apply ends_bind
    ((settlesInto_condition condition).ends inner rfl hfunction hopened hfunctionLt hnode rfl
      hinside)
  intro _ tested hcondition
  obtain ⟨conditionIds, htested, -, hreaches, -⟩ :=
    (translatesInto_condition condition).reaches hcondition rfl hfunction hopened (Nat.le_refl _)
      hfunctionLt hnode rfl
  rw [foldl_append .ifCondition (fun ids => .conditional ids [] []) (fun _ _ => rfl)] at htested
  apply ends_bind (hthen.ends inner rfl hfunction hreaches hfunctionLt htested rfl hinside)
  intro _ decided hthenPart
  obtain ⟨thenIds, hdecided, -, hreaches, -⟩ :=
    translatesThen.reaches hthenPart rfl hfunction hreaches (Nat.le_refl _) hfunctionLt htested rfl
  rw [foldl_append .ifThen (fun ids => .conditional _ ids []) (fun _ _ => rfl)] at hdecided
  apply ends_bind_ok (helse.ends inner rfl hfunction hreaches hfunctionLt hdecided rfl hinside)
  intro _ last _
  exact ⟨_, _, rfl⟩

theorem settles_loop {condition : Expr} {bodyTrees : List Tree} (location : Location)
    (hbody : SettlesInto bodyTrees) :
    Settles (.node .whileStatement location [condition.toTree] bodyTrees []) := by
  intro scope before site frame above hfunction hat hparent hloop
  have hfunctionLt := hat.lt_size
  have hopened := (Reaches.refl hat : Reaches site [site.function] _ _ _).push scope.parent
    fun _ => .loop [] []
  have hnode := Emission.getElem?_push_new before scope.parent fun _ => .loop [] []
  have hlabel :
      ask (·.label before.nodes.size "end") (before.push scope.parent fun _ => .loop [] []) =
        .ok (labelOf .loop before.nodes.size "end")
          (before.push scope.parent fun _ => .loop [] []) :=
    ask_of_ok (label_of_some hnode "end")
  let inner : Scope := { scope.under before.nodes.size with
    loopEnd := some (labelOf .loop before.nodes.size "end") }
  have hinside : (inner.loopEnd.isSome ↔ .whileStatement ∈ Kind.whileStatement :: above) := by
    simp [inner]
  rw [faultsIn_of_plain (by simp), faultsInAll_nil, List.append_nil, generate]
  change Ends ((create .loop scope.parent >>= _) before) _
  rw [bind_of_ok (create_loop hparent), bind_of_ok hlabel]
  apply ends_bind
    ((settlesInto_condition condition).ends inner rfl hfunction hopened hfunctionLt hnode rfl
      hinside)
  intro _ tested hcondition
  obtain ⟨conditionIds, htested, -, hreaches, -⟩ :=
    (translatesInto_condition condition).reaches hcondition rfl hfunction hopened (Nat.le_refl _)
      hfunctionLt hnode rfl
  rw [foldl_append .whileCondition (fun ids => .loop ids []) (fun _ _ => rfl)] at htested
  apply ends_bind_ok (hbody.ends inner rfl hfunction hreaches hfunctionLt htested rfl hinside)
  intro _ last _
  exact ⟨_, _, rfl⟩

mutual

/-- **Code generation of a statement** succeeds or stops at the first fault. -/
theorem settles_of_statement : (statement : Stmt) → Settles statement.toTree
  | .expression value => settles_expression value
  | .declaration declared =>
      settles_of_builds (builds_declaration declared) fun _ => faultsIn_localDeclaration declared
  | .block block => settles_of_body block
  | .ifElse location _ thenBlock none =>
      settles_conditional location
        (settlesInto_single (settles_of_body thenBlock) (translates_of_block thenBlock))
        (translatesInto_single (translates_of_block thenBlock)) settlesInto_nil
  | .ifElse location _ thenBlock (some elseBlock) =>
      settles_conditional location
        (settlesInto_single (settles_of_body thenBlock) (translates_of_block thenBlock))
        (translatesInto_single (translates_of_block thenBlock))
        (settlesInto_single (settles_of_body elseBlock) (translates_of_block elseBlock))
  | .whileLoop location _ body =>
      settles_loop location
        (settlesInto_single (settles_of_statement body) (translates_of_statement body))
  | .returnValue location value => settles_return location value
  | .breakLoop location => settles_break location

theorem settles_of_body : (block : Block) → Settles block.toTree
  | ⟨location, statements⟩ =>
      settles_block location (settlesInto_of_statements statements)
        (translatesInto_of_statements statements)

theorem settlesInto_of_statements : (statements : List Stmt) →
    SettlesInto (statementTrees statements)
  | [] => settlesInto_nil
  | statement :: statements =>
      settlesInto_cons (settles_of_statement statement) (translates_of_statement statement)
        (settlesInto_of_statements statements)

end

/-! ## Files -/

/-- A loop around a function does not reach into it, and there is none. -/
theorem ends_function {definition : FunctionDefinition} {file : Node} {above : List Kind}
    (hfile : before.nodes[Emission.fileId]? = some file) (hnesting : file.nesting = 0)
    (habove : .whileStatement ∉ above) (scope : Scope) :
    Ends (generate scope definition.toTree before) (faultsIn above definition.toTree) := by
  obtain ⟨opened, named, site, hsite, -, hnamed, hgenerate⟩ :=
    generate_start hfile hnesting scope
  have hone : site.nesting = 0 + 1 := by rw [hsite]
  have hloop : ((inside site.function).loopEnd.isSome ↔ .whileStatement ∈
      Kind.functionDefinition definition.name definition.returnType :: above) := by
    simp [inside, habove]
  have hbody := settles_of_body definition.body (inside site.function) named site _ _ rfl
    hnamed.function hnamed.function.lt_size hloop
  rw [hgenerate, faultsIn_function]
  cases hfaults : faultsIn (.functionDefinition definition.name definition.returnType :: above)
      definition.body.toTree with
  -- the frame is finished only where the body is, so a fault in the body is the last step
  | nil =>
      rw [hfaults] at hbody
      obtain ⟨child, made, hmade⟩ := hbody
      obtain ⟨after, -, -, -, hlast, -⟩ := finish_function hnamed hone hmade
      exact ends_of_ok hlast
  | cons fault faults =>
      rw [hfaults] at hbody
      obtain ⟨last, herror⟩ := hbody
      refine ⟨last, ?_⟩
      simp only [generateParts, generateInto, bind, EStateM.bind, herror]

/-- The value of an initializer is looked for where nothing is wrong with it. -/
theorem constantValue_of_initialFault? (expr : Expr) :
    match initialFault? expr.toTree with
    | none => ∃ value, constantValue expr.toTree = .ok value
    | some fault => constantValue expr.toTree = .error fault.error := by
  cases expr with
  | number location value => exact ⟨value, rfl⟩
  | unary location op operand =>
      cases op with
      | logicalNot => rfl
      | minus | plus =>
          -- behind a minus or a plus sign a number, and nothing else, is a constant
          cases operand with
          | number place value => exact ⟨_, rfl⟩
          | call place callee list => cases list <;> rfl
          | name | binary | unary | assign => rfl
  | call location callee list => cases list <;> rfl
  | name | binary | assign => rfl

theorem ends_global (declared : Declaration) {above : List Kind} {options : Asm.Options}
    {dataLines : List Asm.Instruction} {functions : List (FunctionDefinition × Nat)}
    {cursor : FileCursor} (h : FileAt options before dataLines functions cursor) :
    Ends (generate Scope.file (Item.global declared).toTree before)
      (faultsIn above (Item.global declared).toTree) := by
  rw [Item.toTree, faultsIn_globalDeclaration]
  cases hinitial : declared.initializer with
  | none =>
      have hvalue : (declared.initializer.map Expr.toTree).mapM constantValue = .ok none := by
        rw [hinitial]
        rfl
      obtain ⟨id, middle, _, hgenerate, -⟩ := generate_globalItem hvalue h
      exact ends_of_ok hgenerate
  | some expr =>
      have hconstant := constantValue_of_initialFault? expr
      rw [Option.map_some, Option.bind_some]
      cases hfault : initialFault? expr.toTree with
      | none =>
          rw [hfault] at hconstant
          obtain ⟨value, hconstant⟩ := hconstant
          have hvalue : (declared.initializer.map Expr.toTree).mapM constantValue =
              .ok (some value) := by
            rw [hinitial, Option.map_some, Option.mapM_some, hconstant]
            rfl
          obtain ⟨id, middle, _, hgenerate, -⟩ := generate_globalItem hvalue h
          exact ends_of_ok hgenerate
      | some fault =>
          rw [hfault] at hconstant
          have hvalue : (declared.initializer.map Expr.toTree).mapM constantValue =
              .error fault.error := by
            rw [hinitial, Option.map_some, Option.mapM_some, hconstant]
            rfl
          refine ⟨before, (generate_global declared before).trans ?_⟩
          simp only [bind, EStateM.bind, ask, hvalue]

theorem ends_item (item : Item) {options : Asm.Options} {dataLines : List Asm.Instruction}
    {functions : List (FunctionDefinition × Nat)} {cursor : FileCursor}
    (h : FileAt options before dataLines functions cursor) :
    Ends (generate Scope.file item.toTree before) (faultsIn [.compileUnit] item.toTree) := by
  cases item with
  | function definition =>
      obtain ⟨file, hfile, hnesting⟩ := h.node_eq
      exact ends_function hfile hnesting (by simp) Scope.file
  | external declared =>
      obtain ⟨id, middle, _, hgenerate, -⟩ := generate_externalItem declared h
      rw [Item.toTree, faultsIn_external]
      exact ends_of_ok hgenerate
  | global declared => exact ends_global declared h

theorem ends_items (items : List Item) {options : Asm.Options} {dataLines : List Asm.Instruction}
    {functions : List (FunctionDefinition × Nat)} {cursor : FileCursor}
    (h : FileAt options before dataLines functions cursor) :
    Ends (generateItems Scope.file (items.map Item.toTree) before)
      (faultsInAll [.compileUnit] (items.map Item.toTree)) := by
  induction items generalizing before dataLines functions cursor with
  | nil => exact ends_of_ok rfl
  | cons item items ih =>
      rw [List.map_cons, generateItems, faultsInAll_cons]
      apply ends_bind (ends_item item h)
      intro id middle hitem
      -- adding a node that was made does not fail, so the next item decides
      obtain ⟨added, hadd, hadded⟩ := generate_item item h hitem
      show Ends ((addChild Emission.fileId (contextOf item.toTree) id >>= _) middle) _
      rw [bind_of_ok hadd]
      exact ih hadded

/-- **Code generation of a file** succeeds or stops at the first fault. -/
theorem emissionOfTree_of_faults (options : Asm.Options) (unit : CompileUnit) :
    match unit.toTree.faults with
    | [] => ∃ emission, emissionOfTree options unit.toTree = .ok emission
    | fault :: _ => emissionOfTree options unit.toTree = .error fault.error := by
  have hitems := ends_items unit.items (fileAt_empty options)
  have hkind : unit.toTree.kind = .compileUnit := rfl
  have hgenerate : (generate Scope.file unit.toTree).run (Emission.empty options) =
      (generateItems Scope.file (unit.items.map Item.toTree) >>= fun _ =>
        pure Emission.fileId) (Emission.empty options) := by
    rw [CompileUnit.toTree, generate]
    rfl
  rw [← faults_unit] at hitems
  cases hfaults : unit.toTree.faults with
  | nil =>
      rw [hfaults] at hitems
      obtain ⟨_, emission, hitems⟩ := hitems
      refine ⟨emission, ?_⟩
      rw [emissionOfTree, if_pos hkind, hgenerate, bind_of_ok hitems]
      rfl
  | cons fault faults =>
      rw [hfaults] at hitems
      obtain ⟨last, hitems⟩ := hitems
      rw [emissionOfTree, if_pos hkind, hgenerate]
      simp only [bind, EStateM.bind, hitems]

end MiniC.Codegen
