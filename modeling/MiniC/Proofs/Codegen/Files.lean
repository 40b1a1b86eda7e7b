import MiniC.Compiler
import MiniC.Proofs.Codegen.Functions
import MiniC.Proofs.Translation.File

/-!
# Code generation of files

The items of a file are generated one after another, and `FileAt` says what the
node of the file holds in between: leaves with the lines of the variables, and
the functions so far, with blank leaves among both.
-/

namespace MiniC.Codegen

open Asm (Buffer Entry Instruction)
open Ast (Tree)
open Emission (AgreeFrom Body Context Lays LaysAll Node fileId)
open Emit

variable {before middle after : Emission}

/-! ## The node of the file -/

/-- What a child in the code section of a file is: a function, or a blank leaf. -/
def CodePart (emission : Emission) (id : Nat) : Option FunctionDefinition → Prop
  | none => LeafHolds emission id 0 []
  | some definition =>
      Lays emission id (definition.translate id) ∧
        ∃ node, emission.nodes[id]? = some node ∧ node.kind = .function

/-- Parts of a file are in place. -/
structure PartsHold (emission : Emission) (data : List (Nat × List Instruction))
    (code : List (Nat × Option FunctionDefinition)) : Prop where
  data_holds : ∀ part ∈ data, fileId < part.1 ∧ LeafHolds emission part.1 0 part.2
  code_holds : ∀ part ∈ code, fileId < part.1 ∧ CodePart emission part.1 part.2

theorem LeafHolds.congr {first id level : Nat} {code : List Instruction}
    (h : LeafHolds before id level code) (agree : AgreeFrom first before after)
    (hfirst : first ≤ id) : LeafHolds after id level code := by
  obtain ⟨node, sort, hnode, hbody⟩ := h
  obtain ⟨other, hother, -, hotherBody⟩ := agree id node hfirst hnode
  exact ⟨other, sort, hother, hotherBody.trans hbody⟩

theorem PartsHold.congr {data : List (Nat × List Instruction)}
    {code : List (Nat × Option FunctionDefinition)} (h : PartsHold before data code)
    (hoptions : after.options = before.options) (agree : AgreeFrom (fileId + 1) before after) :
    PartsHold after data code where
  data_holds part hpart := by
    obtain ⟨hlater, hleaf⟩ := h.data_holds part hpart
    exact ⟨hlater, hleaf.congr agree hlater⟩
  code_holds part hpart := by
    obtain ⟨id, definition⟩ := part
    obtain ⟨hlater, hcode⟩ := h.code_holds _ hpart
    cases definition with
    | none => exact ⟨hlater, LeafHolds.congr hcode agree hlater⟩
    | some definition =>
        obtain ⟨hlays, node, hnode, hkind⟩ := hcode
        obtain ⟨other, hother, -, hbody⟩ := agree id node hlater hnode
        refine ⟨hlater, hlays.congr hoptions agree hlater, other, hother, ?_⟩
        rw [← hkind, Node.kind, Node.kind, hbody]

/-- The functions among the parts of a file, each with the number of its node. -/
def functionsIn (code : List (Nat × Option FunctionDefinition)) : List (FunctionDefinition × Nat) :=
  code.filterMap fun part => part.2.map (·, part.1)

/-- A file with the lines of variables and with functions, up to a cursor. -/
structure FileAt (options : Asm.Options) (emission : Emission) (dataLines : List Instruction)
    (functions : List (FunctionDefinition × Nat)) (cursor : FileCursor) : Prop where
  parts : ∃ data code,
    emission.nodes[fileId]? = some ⟨none, 0, 0, .file (data.map Prod.fst) (code.map Prod.fst)⟩ ∧
      data.flatMap Prod.snd = dataLines ∧ functionsIn code = functions ∧
      PartsHold emission data code
  options_eq : emission.options = options
  size_eq : emission.nodes.size = cursor.serial
  globals_eq : emission.globals = cursor.globals

namespace FileAt

variable {options : Asm.Options} {dataLines : List Instruction}
  {functions : List (FunctionDefinition × Nat)} {cursor : FileCursor}

theorem node_eq (h : FileAt options before dataLines functions cursor) :
    ∃ node, before.nodes[fileId]? = some node ∧ node.nesting = 0 := by
  obtain ⟨data, code, hnode, -⟩ := h.parts
  exact ⟨_, hnode, rfl⟩

theorem lt_size (h : FileAt options before dataLines functions cursor) :
    fileId < before.nodes.size := by
  obtain ⟨node, hnode, -⟩ := h.node_eq
  exact Emission.lt_size_of_some hnode

/-- Adding nodes keeps a file under construction. -/
theorem extend (h : FileAt options before dataLines functions cursor) {last : FileCursor}
    (hold : ∀ id < before.nodes.size, after.nodes[id]? = before.nodes[id]?)
    (hoptions : after.options = before.options) (hglobals : after.globals = last.globals)
    (hsize : after.nodes.size = last.serial) :
    FileAt options after dataLines functions last where
  parts := by
    obtain ⟨data, parts, hnode, hdata, hcode, hparts⟩ := h.parts
    refine ⟨data, parts, ?_, hdata, hcode, hparts.congr hoptions fun id node _ hnode => ?_⟩
    · rw [hold fileId h.lt_size, hnode]
    · exact ⟨node, (hold id (Emission.lt_size_of_some hnode)).trans hnode, rfl, rfl⟩
  options_eq := hoptions.trans h.options_eq
  size_eq := hsize
  globals_eq := hglobals

/-- Adding leaves keeps a file under construction. -/
theorem grows {level count : Nat} {code : List Instruction}
    (h : FileAt options before dataLines functions cursor)
    (hgrows : Grows before after level code count) :
    FileAt options after dataLines functions ⟨cursor.serial + count, cursor.globals⟩ :=
  h.extend hgrows.old_eq hgrows.options_eq (hgrows.globals_eq.trans h.globals_eq)
    (by rw [hgrows.size_eq, h.size_eq])

/-- Declaring names keeps a file under construction. -/
theorem setGlobals (h : FileAt options before dataLines functions cursor) (globals : Globals) :
    FileAt options { before with globals } dataLines functions ⟨cursor.serial, globals⟩ where
  parts := by
    obtain ⟨data, parts, hnode, hdata, hcode, hparts⟩ := h.parts
    refine ⟨data, parts, hnode, hdata, hcode, hparts.congr rfl fun id node _ hnode => ?_⟩
    exact ⟨node, hnode, rfl, rfl⟩
  options_eq := h.options_eq
  size_eq := h.size_eq
  globals_eq := rfl

/-- A leaf is added to the data section. -/
theorem addChild_data {id : Nat} {lines : List Instruction}
    (h : FileAt options before dataLines functions cursor) (hid : fileId < id)
    (hleaf : LeafHolds before id 0 lines) :
    ∃ after, addChild fileId .fileData id before = .ok () after ∧
      FileAt options after (dataLines ++ lines) functions cursor := by
  obtain ⟨data, parts, hnode, hdata, hcode, hparts⟩ := h.parts
  obtain ⟨node, sort, hleafNode, hleafBody⟩ := hleaf
  obtain ⟨after, hadd, hextends, hsize, hafter, hagree, hleaves⟩ :=
    addChild_spec hnode (rfl : Body.children? _ .fileData = _)
      (Emission.lt_size_of_some hleafNode) (Nat.ne_of_lt hid)
  have hnew : LeafHolds before id 0 lines := ⟨node, sort, hleafNode, hleafBody⟩
  refine ⟨after, hadd, ⟨data ++ [(id, lines)], parts, ?_, ?_, hcode, ?_, ?_⟩,
    hextends.options_eq.trans h.options_eq, hsize.trans h.size_eq,
    hextends.globals_eq.trans h.globals_eq⟩
  · rw [hafter]
    simp [Body.append]
  · simp [hdata]
  · intro part hpart
    rcases List.mem_append.mp hpart with hold | hlast
    · exact (hparts.congr hextends.options_eq hagree).data_holds part hold
    · obtain rfl := List.mem_singleton.mp hlast
      exact ⟨hid, hleaves _ _ _ hnew⟩
  · exact (hparts.congr hextends.options_eq hagree).code_holds

/-- A function or a blank leaf is added to the code section. -/
theorem addChild_code {id : Nat} {definition : Option FunctionDefinition}
    (h : FileAt options before dataLines functions cursor) (hid : fileId < id)
    (hpart : CodePart before id definition) :
    ∃ after, addChild fileId .fileCode id before = .ok () after ∧
      FileAt options after dataLines (functions ++ (definition.map (·, id)).toList) cursor := by
  obtain ⟨data, parts, hnode, hdata, hcode, hparts⟩ := h.parts
  have hlt : id < before.nodes.size := by
    cases definition with
    | none =>
        obtain ⟨node, sort, hleaf, -⟩ := hpart
        exact Emission.lt_size_of_some hleaf
    | some definition => exact hpart.1.lt_size
  obtain ⟨after, hadd, hextends, hsize, hafter, hagree, -⟩ :=
    addChild_spec hnode (rfl : Body.children? _ .fileCode = _) hlt (Nat.ne_of_lt hid)
  have hnew : PartsHold before [] [(id, definition)] :=
    ⟨by simp, by simpa using ⟨hid, hpart⟩⟩
  refine ⟨after, hadd, ⟨data, parts ++ [(id, definition)], ?_, hdata, ?_, ?_, ?_⟩,
    hextends.options_eq.trans h.options_eq, hsize.trans h.size_eq,
    hextends.globals_eq.trans h.globals_eq⟩
  · rw [hafter]
    simp [Body.append]
  -- a blank leaf is no function, so only a definition is counted
  · rw [functionsIn, List.filterMap_append, ← functionsIn, hcode]
    cases definition <;> rfl
  · exact (hparts.congr hextends.options_eq hagree).data_holds
  · intro part hpart
    rcases List.mem_append.mp hpart with hold | hlast
    · exact (hparts.congr hextends.options_eq hagree).code_holds part hold
    · exact (hnew.congr hextends.options_eq hagree).code_holds part hlast

/-- A line is added to the data section. -/
theorem addLine (h : FileAt options before dataLines functions cursor) (instruction : Instruction) :
    ∃ after, Emit.addLine fileId .fileData instruction before = .ok () after ∧
      FileAt options after (dataLines ++ [instruction]) functions
        ⟨cursor.serial + 1, cursor.globals⟩ := by
  obtain ⟨node, hnode, hnesting⟩ := h.node_eq
  obtain ⟨created, hcreate, hcreated⟩ := Grows.of_create h.lt_size .other
  obtain ⟨filled, hadd, hfilled⟩ := hcreated.add instruction
  have hholds := hfilled.holds
  rw [Emission.nestingAt_of_some hnode, hnesting] at hholds
  obtain ⟨after, hchild, hafter⟩ := (h.grows hfilled).addChild_data h.lt_size hholds
  refine ⟨after, ?_, hafter⟩
  rw [Emit.addLine, Emit.bind_of_ok hcreate, Emit.bind_of_ok hadd, hchild]

end FileAt

/-! ## Items -/

section Items

variable {options : Asm.Options} {dataLines : List Instruction}
  {functions : List (FunctionDefinition × Nat)} {cursor : FileCursor}

theorem declareVariable_spec (h : FileAt options before dataLines functions cursor) (name : String)
    (value : Option Int32) :
    let lines : List Instruction :=
      if cursor.globals.hasVariable name then [] else [.dword name value]
    ∃ isNew after, declareVariable name value before = .ok isNew after ∧
      FileAt options after (dataLines ++ lines) functions
        ⟨cursor.serial + lines.length, cursor.globals.addVariable name⟩ := by
  have hask : ask (fun emission => .ok (emission.globals.hasVariable name)) before =
      .ok (cursor.globals.hasVariable name) before := by
    rw [← h.globals_eq]
    rfl
  rw [declareVariable, bind_of_ok hask]
  -- a name that is there already adds no line and no node
  cases hold : cursor.globals.hasVariable name with
  | true =>
      refine ⟨false, before, rfl, ?_⟩
      have hglobals : cursor.globals.addVariable name = cursor.globals := by
        rw [Globals.addVariable, if_pos hold]
      simpa [hglobals] using h
  | false =>
      obtain ⟨after, hline, hafter⟩ :=
        (h.setGlobals (cursor.globals.addVariable name)).addLine (.dword name value)
      refine ⟨true, after, ?_, by simpa using hafter⟩
      have hupdate : update (fun emission =>
          { emission with globals := emission.globals.addVariable name }) before =
            .ok () { before with globals := cursor.globals.addVariable name } := by
        rw [← h.globals_eq]
        rfl
      show (update _ >>= fun _ => addLine _ _ _ >>= _) before = _
      rw [bind_of_ok hupdate, bind_of_ok hline]
      rfl

theorem declareFunction_spec (h : FileAt options before dataLines functions cursor) (name : String)
    (arity : Nat) :
    let lines : List Instruction :=
      if cursor.globals.hasFunction name then [] else [.proto name arity]
    ∃ isNew after, declareFunction name arity before = .ok isNew after ∧
      FileAt options after (dataLines ++ lines) functions
        ⟨cursor.serial + lines.length, cursor.globals.addFunction name⟩ := by
  have hregister := registerFunction_spec name before
  rw [h.globals_eq] at hregister
  have hregistered := h.setGlobals (cursor.globals.addFunction name)
  rw [declareFunction, bind_of_ok hregister]
  cases hold : cursor.globals.hasFunction name with
  | true => exact ⟨false, _, rfl, by simpa using hregistered⟩
  | false =>
      obtain ⟨after, hline, hafter⟩ := hregistered.addLine (.proto name arity)
      refine ⟨true, after, ?_, by simpa using hafter⟩
      show (addLine _ _ _ >>= _) _ = _
      rw [bind_of_ok hline]
      rfl

/-- The leaf for an item that stands for no code. -/
theorem FileAt.blank (h : FileAt options before dataLines functions cursor) :
    ∃ after, Codegen.blank Scope.file before = .ok before.nodes.size after ∧
      FileAt options after dataLines functions ⟨cursor.serial + 1, cursor.globals⟩ ∧
      fileId < before.nodes.size ∧ LeafHolds after before.nodes.size 0 [] := by
  obtain ⟨node, hnode, hnesting⟩ := h.node_eq
  have hparent : Scope.file.parent < before.nodes.size := h.lt_size
  obtain ⟨after, hblank, hafter⟩ := blank_spec hparent
  refine ⟨after, hblank, h.grows hafter, h.lt_size, ?_⟩
  have hnest : before.nestingAt Scope.file.parent = 0 :=
    (Emission.nestingAt_of_some hnode).trans hnesting
  rw [← hnest]
  exact hafter.holds

theorem number_of_kind {expr : Expr} {value : Int32} (h : expr.toTree.kind = .number value) :
    ∃ location, expr = .number location value := by
  cases expr with
  | number location other =>
      obtain rfl := Ast.Kind.number.inj h
      exact ⟨location, rfl⟩
  | call location callee arguments => cases arguments <;> cases h
  | name | binary | unary | assign => cases h

/-- The initial value of a variable of the file. -/
theorem constant?_of_constantValue {expr : Expr} {value : Int32}
    (h : constantValue expr.toTree = .ok value) : expr.constant? = some value := by
  cases expr with
  | number location other =>
      obtain rfl := Except.ok.inj h
      rfl
  | unary location op operand =>
      have hfirst : (Expr.unary location op operand).toTree.first.head?.map Tree.kind =
          some operand.toTree.kind := rfl
      rw [constantValue] at h
      cases op with
      | logicalNot => cases h
      | minus | plus =>
          simp only [Expr.toTree, Tree.kind] at h hfirst
          rw [hfirst] at h
          -- behind a sign only a number is accepted
          split at h
          next found hfound =>
            obtain ⟨place, rfl⟩ := number_of_kind (Option.some.inj hfound)
            obtain rfl := Except.ok.inj h
            rfl
          next => cases h
  | call location callee arguments => cases arguments <;> cases h
  | name | binary | assign => cases h

/-- The initial value of a variable of the file, if it has one. -/
theorem constant?_of_mapM {initializer : Option Expr} {value : Option Int32}
    (h : (initializer.map Expr.toTree).mapM constantValue = .ok value) :
    initializer.bind Expr.constant? = value := by
  cases initializer with
  | none =>
      obtain rfl := Except.ok.inj h
      rfl
  | some expr =>
      cases hvalue : constantValue expr.toTree with
      | error error =>
          rw [Option.map_some, Option.mapM_some, hvalue] at h
          cases h
      | ok found =>
          rw [Option.map_some, Option.mapM_some, hvalue] at h
          obtain rfl := Except.ok.inj h
          exact constant?_of_constantValue hvalue

theorem generate_functionItem (definition : FunctionDefinition) {id : Nat}
    (h : FileAt options before dataLines functions cursor)
    (hgenerate : generate Scope.file (Item.function definition).toTree before = .ok id middle) :
    ∃ after, addChild fileId .fileCode id middle = .ok () after ∧
      FileAt options after dataLines (functions ++ [(definition, cursor.serial)])
        ((Item.function definition).next cursor) := by
  obtain ⟨node, hnode, hnesting⟩ := h.node_eq
  obtain ⟨hid, hlays, hkind, hoptions, hglobals, hsize, hold⟩ :=
    generate_function hnode hnesting hgenerate
  have hlater : fileId < id := hid ▸ h.lt_size
  rw [h.size_eq] at hid
  have hgrown : FileAt options middle dataLines functions
      ((Item.function definition).next cursor) :=
    h.extend hold hoptions (by rw [hglobals, h.globals_eq]; rfl) (by rw [hsize, hid]; rfl)
  obtain ⟨after, hchild, hafter⟩ := hgrown.addChild_code hlater
    (show CodePart middle id (some definition) from ⟨hlays, hkind⟩)
  subst hid
  exact ⟨after, hchild, hafter⟩

/-- The line of an external function goes to the data section.  The node that is added to
the code section is a blank leaf. -/
theorem generate_externalItem (declared : FunctionDeclaration)
    (h : FileAt options before dataLines functions cursor) :
    ∃ id middle after,
      generate Scope.file (Item.external declared).toTree before = .ok id middle ∧
      addChild fileId .fileCode id middle = .ok () after ∧
      FileAt options after (dataLines ++ (Item.external declared).dataLines cursor.globals)
        functions ((Item.external declared).next cursor) := by
  have harity : listedCount (declared.parameters.map ParameterList.toTree).toList =
      declared.arity := by
    cases hparameters : declared.parameters <;>
      simp [FunctionDeclaration.arity, hparameters, ParameterList.toTree, Tree.first, listedCount]
  obtain ⟨isNew, lined, hdeclare, hlined⟩ := declareFunction_spec h declared.name declared.arity
  obtain ⟨blanked, hblank, hblanked, hlater, hleaf⟩ := hlined.blank
  obtain ⟨after, hchild, hafter⟩ := hblanked.addChild_code hlater
    (show CodePart blanked _ none from hleaf)
  refine ⟨lined.nodes.size, blanked, after, ?_, hchild, ?_⟩
  · rw [Item.toTree, FunctionDeclaration.toTree, generate, harity,
      bind_of_ok (discard_of_ok hdeclare)]
    exact hblank
  · rw [← List.append_nil functions]
    exact hafter

/-- Code generation of a variable of the file. -/
theorem generate_global (declared : Declaration) (emission : Emission) :
    generate Scope.file (Item.global declared).toTree emission =
      (do
        let value ← ask fun _ => (declared.initializer.map Expr.toTree).mapM constantValue
        discard (declareVariable declared.name value)
        Codegen.blank Scope.file) emission := by
  have hname : ask (fun _ => declaredName declared.location declared.parts) emission =
      .ok (declared.name, (declared.initializer.map Expr.toTree).toList) emission :=
    ask_of_ok (declaredName_parts declared declared.location)
  rw [Item.toTree, Declaration.toTree, generate]
  refine (bind_of_ok hname _).trans ?_
  simp only [Option.head?_toList]

/-- The line of a variable goes to the data section, and so does the blank leaf for it. -/
theorem generate_globalItem {declared : Declaration} {value : Option Int32}
    (hvalue : (declared.initializer.map Expr.toTree).mapM constantValue = .ok value)
    (h : FileAt options before dataLines functions cursor) :
    ∃ id middle after,
      generate Scope.file (Item.global declared).toTree before = .ok id middle ∧
      addChild fileId .fileData id middle = .ok () after ∧
      FileAt options after (dataLines ++ (Item.global declared).dataLines cursor.globals)
        functions ((Item.global declared).next cursor) := by
  obtain ⟨isNew, lined, hdeclare, hlined⟩ := declareVariable_spec h declared.name value
  obtain ⟨blanked, hblank, hblanked, hlater, hleaf⟩ := hlined.blank
  obtain ⟨after, hchild, hafter⟩ := hblanked.addChild_data hlater hleaf
  refine ⟨lined.nodes.size, blanked, after, ?_, hchild, ?_⟩
  · rw [generate_global, bind_of_ok (ask_of_ok hvalue), bind_of_ok (discard_of_ok hdeclare)]
    exact hblank
  · rw [List.append_nil, ← constant?_of_mapM hvalue] at hafter
    exact hafter

/-- Where code is generated for a variable of the file, its initial value is a
constant. -/
theorem constant_of_generate {declared : Declaration} {id : Nat}
    (h : generate Scope.file (Item.global declared).toTree before = .ok id middle) :
    ∃ value, (declared.initializer.map Expr.toTree).mapM constantValue = .ok value := by
  rw [generate_global, bind_eq_ok] at h
  obtain ⟨value, valued, hvalue, -⟩ := h
  exact ⟨value, (ask_eq_ok.mp hvalue).1⟩

/-- The context of the file that the node of an item is added to. -/
def contextOf (tree : Tree) : Context :=
  if tree.kind = .globalDeclaration then .fileData else .fileCode

/-- Code generation of an item, whose node is added to a context of the file. -/
theorem generate_item (item : Item) {id : Nat}
    (h : FileAt options before dataLines functions cursor)
    (hgenerate : generate Scope.file item.toTree before = .ok id middle) :
    ∃ after, addChild fileId (contextOf item.toTree) id middle = .ok () after ∧
      FileAt options after (dataLines ++ item.dataLines cursor.globals)
        (functions ++ (item.placed? cursor).toList) (item.next cursor) := by
  cases item with
  | function definition =>
      obtain ⟨after, hadd, hafter⟩ := generate_functionItem definition h hgenerate
      exact ⟨after, hadd, by simpa [Item.dataLines, Item.placed?] using hafter⟩
  | external declared =>
      obtain ⟨made, last, after, hmade, hadd, hafter⟩ := generate_externalItem declared h
      cases hgenerate.symm.trans hmade
      exact ⟨after, hadd, by simpa [Item.placed?] using hafter⟩
  | global declared =>
      obtain ⟨value, hvalue⟩ := constant_of_generate hgenerate
      obtain ⟨made, last, after, hmade, hadd, hafter⟩ := generate_globalItem hvalue h
      cases hgenerate.symm.trans hmade
      exact ⟨after, hadd, by simpa [Item.placed?] using hafter⟩

theorem generateItems_spec (items : List Item)
    (h : FileAt options before dataLines functions cursor)
    (hgenerate : generateItems Scope.file (items.map Item.toTree) before = .ok () after) :
    FileAt options after (dataLines ++ dataSection items cursor)
      (functions ++ placedFunctions items cursor) (cursor.after items) := by
  induction items generalizing before dataLines functions cursor with
  | nil =>
      obtain ⟨-, rfl⟩ := pure_eq_ok.mp hgenerate
      simpa [dataSection, placedFunctions, FileCursor.after] using h
  | cons item items ih =>
      rw [List.map_cons, generateItems, bind_eq_ok] at hgenerate
      -- the item is generated and added, and the file is ready for the next one
      obtain ⟨id, middle, hitem, hgenerate⟩ := hgenerate
      rw [bind_eq_ok] at hgenerate
      obtain ⟨_, added, hadd, hrest⟩ := hgenerate
      obtain ⟨_, hadd', hadded⟩ := generate_item item h hitem
      obtain ⟨rfl⟩ := hadd.symm.trans hadd'
      rw [dataSection, placedFunctions, ← List.append_assoc, ← List.append_assoc]
      exact ih hadded hrest

end Items

/-! ## Whole files -/

theorem fileAt_empty (options : Asm.Options) :
    FileAt options (Emission.empty options) [] [] CompileUnit.start where
  parts := ⟨[], [], rfl, rfl, rfl, by simp, by simp⟩
  options_eq := rfl
  size_eq := rfl
  globals_eq := rfl

/-- Code generation of a file is that of its items. -/
theorem generateItems_of_emissionOfTree {options : Asm.Options} {unit : CompileUnit}
    {emission : Emission} (h : emissionOfTree options unit.toTree = .ok emission) :
    generateItems Scope.file (unit.items.map Item.toTree) (Emission.empty options) =
      .ok () emission := by
  have hkind : unit.toTree.kind = .compileUnit := rfl
  rw [emissionOfTree, if_pos hkind] at h
  cases hrun : (generate Scope.file unit.toTree).run (Emission.empty options) with
  | error error last =>
      rw [hrun] at h
      cases h
  | ok id last =>
      rw [hrun] at h
      cases h
      change generate Scope.file unit.toTree (Emission.empty options) = _ at hrun
      rw [CompileUnit.toTree, generate, bind_eq_ok] at hrun
      obtain ⟨_, filled, hitems, hreturn⟩ := hrun
      cases hreturn
      exact hitems

/-- Code generation of a file, where it succeeds, leaves the node of the file with the
lines of its variables and with its functions. -/
theorem fileAt_of_emissionOfTree {options : Asm.Options} {unit : CompileUnit} {emission : Emission}
    (h : emissionOfTree options unit.toTree = .ok emission) :
    FileAt options emission unit.dataLines unit.functions unit.finish :=
  generateItems_spec unit.items (fileAt_empty options) (generateItems_of_emissionOfTree h)

namespace PartsHold

variable {emission : Emission} {data : List (Nat × List Instruction)}
  {code : List (Nat × Option FunctionDefinition)}

theorem laysAll_data (h : PartsHold emission data code) :
    LaysAll emission fileId (data.map Prod.fst) (lay 0 (data.flatMap Prod.snd)) := by
  have hall := h.data_holds
  clear h
  induction data with
  | nil => exact .nil
  | cons part data ih =>
      obtain ⟨hlater, hleaf⟩ := hall part List.mem_cons_self
      rw [List.flatMap_cons, lay_append]
      exact (LaysAll.single hlater hleaf.lays).append
        (ih fun part hpart => hall part (List.mem_cons_of_mem _ hpart))

theorem laysAll_code (h : PartsHold emission data code) :
    LaysAll emission fileId (code.map Prod.fst)
      ((functionsIn code).flatMap fun (definition, serial) => definition.translate serial) := by
  have hall := h.code_holds
  clear h
  induction code with
  | nil => exact .nil
  | cons part code ih =>
      obtain ⟨id, definition⟩ := part
      obtain ⟨hlater, hpart⟩ := hall _ List.mem_cons_self
      have hrest := ih fun part hpart => hall part (List.mem_cons_of_mem _ hpart)
      cases definition with
      | none => exact (LaysAll.single hlater hpart.lays).append hrest
      | some definition => exact (LaysAll.single hlater hpart.1).append hrest

end PartsHold

/-- The node of a file lays out the translation of the file. -/
theorem FileAt.lays {options : Asm.Options} {emission : Emission} {unit : CompileUnit}
    {last : FileCursor} (h : FileAt options emission unit.dataLines unit.functions last) :
    Lays emission fileId (unit.translate options) := by
  obtain ⟨data, code, hnode, hdata, hcode, hparts⟩ := h.parts
  have hlines := Emission.lays_file hnode rfl hparts.laysAll_data hparts.laysAll_code
  rw [hdata, hcode, h.options_eq] at hlines
  rw [CompileUnit.translate, lay_append, lay_append]
  exact hlines

theorem PartsHold.functions_eq {emission : Emission} {data : List (Nat × List Instruction)}
    {code : List (Nat × Option FunctionDefinition)} (h : PartsHold emission data code) :
    (code.map Prod.fst).filter emission.isFunction = (functionsIn code).map Prod.snd := by
  have hall := h.code_holds
  clear h
  induction code with
  | nil => rfl
  | cons part code ih =>
      obtain ⟨id, definition⟩ := part
      have hpart := (hall _ List.mem_cons_self).2
      have hrest := ih fun part hpart => hall part (List.mem_cons_of_mem _ hpart)
      cases definition with
      | none =>
          obtain ⟨node, sort, hnode, hbody⟩ := hpart
          -- leaves among the code stand for functions that are defined elsewhere
          have hleaf : emission.isFunction id = false := by
            rw [Emission.isFunction, hnode, Option.any_some, Node.kind, hbody]
            rfl
          rw [List.map_cons, List.filter_cons_of_neg (by simp [hleaf]), hrest]
          rfl
      | some definition =>
          obtain ⟨-, node, hnode, hkind⟩ := hpart
          have hfunction : emission.isFunction id = true := by
            rw [Emission.isFunction, hnode, Option.any_some, hkind]
            rfl
          rw [List.map_cons, List.filter_cons_of_pos hfunction, hrest]
          rfl

/-- The nodes of functions in the code section are those of the functions of the file. -/
theorem FileAt.functions_eq {options : Asm.Options} {emission : Emission}
    {dataLines : List Instruction} {functions : List (FunctionDefinition × Nat)}
    {cursor : FileCursor} (h : FileAt options emission dataLines functions cursor) :
    emission.functions = functions.map Prod.snd := by
  obtain ⟨data, code, hnode, -, rfl, hparts⟩ := h.parts
  rw [← hparts.functions_eq, Emission.functions, hnode]
  rfl

/-- Each function has a node of its own, which lays out the translation of the
function. -/
theorem FileAt.lays_function {options : Asm.Options} {emission : Emission} {unit : CompileUnit}
    {last : FileCursor} (h : FileAt options emission unit.dataLines unit.functions last)
    {definition : FunctionDefinition} {serial : Nat}
    (hfunction : (definition, serial) ∈ unit.functions) :
    Lays emission serial (definition.translate serial) := by
  obtain ⟨data, code, -, -, hcode, hparts⟩ := h.parts
  rw [← hcode, functionsIn, List.mem_filterMap] at hfunction
  obtain ⟨⟨id, found⟩, hmem, hfound⟩ := hfunction
  cases found with
  | none => cases hfound
  | some found =>
      cases hfound
      exact (hparts.code_holds _ hmem).2.1

end MiniC.Codegen
