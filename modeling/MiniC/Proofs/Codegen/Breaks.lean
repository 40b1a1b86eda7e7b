import MiniC.Proofs.Codegen.Files
import MiniC.Proofs.Translation.Breaks

/-!
# Loops around breaks

There is no code for a `break` outside of all loops, so that where code is generated
for a function, each `break` in it stands in a loop.
-/

namespace MiniC.Codegen

open Ast (Tree)
open Emission (Context)
open Emit

variable {scope : Scope} {before after : Emission} {id : Nat}

/-- Code is generated for a tree at some point. -/
def Generates (scope : Scope) (tree : Tree) : Prop :=
  ∃ before id after, generate scope tree before = .ok id after

theorem generates_of_generateInto {composite : Nat} {context : Context} {trees : List Tree}
    (h : generateInto scope composite context trees before = .ok () after) :
    ∀ tree ∈ trees, Generates scope tree := by
  induction trees generalizing before with
  | nil => simp
  | cons tree trees ih =>
      rw [generateInto, bind_eq_ok] at h
      obtain ⟨code, middle, hcode, h⟩ := h
      rw [bind_eq_ok] at h
      obtain ⟨_, added, -, hrest⟩ := h
      exact List.forall_mem_cons.mpr ⟨⟨_, _, _, hcode⟩, ih hrest⟩

theorem generates_of_generateItems {trees : List Tree}
    (h : generateItems scope trees before = .ok () after) :
    ∀ tree ∈ trees, Generates scope tree := by
  induction trees generalizing before with
  | nil => simp
  | cons tree trees ih =>
      rw [generateItems, bind_eq_ok] at h
      obtain ⟨code, middle, hcode, h⟩ := h
      rw [bind_eq_ok] at h
      obtain ⟨_, added, -, hrest⟩ := h
      exact List.forall_mem_cons.mpr ⟨⟨_, _, _, hcode⟩, ih hrest⟩

/-- The statements of a block are generated in its place. -/
theorem generates_of_block {location : Location} {trees : List Tree}
    (h : Generates scope (.node .block location trees [] [])) :
    ∃ parent, ∀ tree ∈ trees, Generates (scope.under parent) tree := by
  obtain ⟨before, id, after, h⟩ := h
  rw [generate, bind_eq_ok] at h
  obtain ⟨compound, created, -, h⟩ := h
  rw [bind_eq_ok] at h
  obtain ⟨_, entered, -, h⟩ := h
  rw [bind_eq_ok] at h
  obtain ⟨_, filled, hinto, -⟩ := h
  exact ⟨compound, generates_of_generateInto hinto⟩

/-- The blocks of an `if` are generated in its place. -/
theorem generates_of_conditional {location : Location} {first second third : List Tree}
    (h : Generates scope (.node .ifStatement location first second third)) :
    ∃ parent, (∀ tree ∈ second, Generates (scope.under parent) tree) ∧
      ∀ tree ∈ third, Generates (scope.under parent) tree := by
  obtain ⟨before, id, after, h⟩ := h
  rw [generate] at h
  split at h
  next => cases h
  next =>
    rw [bind_eq_ok] at h
    obtain ⟨conditional, created, -, h⟩ := h
    rw [bind_eq_ok] at h
    obtain ⟨_, tested, -, h⟩ := h
    rw [bind_eq_ok] at h
    obtain ⟨_, chosen, hthen, h⟩ := h
    rw [bind_eq_ok] at h
    obtain ⟨_, last, helse, -⟩ := h
    exact ⟨conditional, generates_of_generateInto hthen, generates_of_generateInto helse⟩

mutual

theorem breaksInLoops_of_generates : (statement : Stmt) → {scope : Scope} →
    Generates scope statement.toTree → scope.loopEnd = none → statement.BreaksInLoops
  | .expression _, _, _, _ | .declaration _, _, _, _ | .whileLoop _ _ _, _, _, _
  | .returnValue _ _, _, _, _ => trivial
  | .block block, _, h, hloop => breaksInLoops_of_block block h hloop
  | .ifElse _ _ thenBlock none, _, h, hloop => by
      obtain ⟨parent, hthen, -⟩ := generates_of_conditional h
      exact ⟨breaksInLoops_of_block thenBlock (hthen _ List.mem_cons_self) hloop, trivial⟩
  | .ifElse _ _ thenBlock (some elseBlock), _, h, hloop => by
      obtain ⟨parent, hthen, helse⟩ := generates_of_conditional h
      exact ⟨breaksInLoops_of_block thenBlock (hthen _ List.mem_cons_self) hloop,
        breaksInLoops_of_block elseBlock (helse _ List.mem_cons_self) hloop⟩
  | .breakLoop _, scope, h, hloop => by
      obtain ⟨before, id, after, h⟩ := h
      rw [Stmt.toTree, Tree.leaf, generate, hloop] at h
      cases h

theorem breaksInLoops_of_block : (block : Block) → {scope : Scope} →
    Generates scope block.toTree → scope.loopEnd = none → block.BreaksInLoops
  | ⟨_, statements⟩, _, h, hloop => by
      obtain ⟨parent, hall⟩ := generates_of_block h
      exact allBreaksInLoops_of_generates statements hall hloop

theorem allBreaksInLoops_of_generates : (statements : List Stmt) → {scope : Scope} →
    (∀ tree ∈ statementTrees statements, Generates scope tree) → scope.loopEnd = none →
    AllBreaksInLoops statements
  | [], _, _, _ => trivial
  | statement :: statements, _, h, hloop =>
      ⟨breaksInLoops_of_generates statement (h _ List.mem_cons_self) hloop,
        allBreaksInLoops_of_generates statements
          (fun tree htree => h tree (List.mem_cons_of_mem _ htree)) hloop⟩

end

theorem breaksInLoops_of_function {definition : FunctionDefinition}
    (h : Generates scope definition.toTree) : definition.body.BreaksInLoops := by
  obtain ⟨before, id, after, h⟩ := h
  rw [FunctionDefinition.toTree, generate, bind_eq_ok] at h
  obtain ⟨_, registered, -, h⟩ := h
  rw [bind_eq_ok] at h
  obtain ⟨function, created, -, h⟩ := h
  rw [bind_eq_ok] at h
  obtain ⟨_, entered, -, h⟩ := h
  change (generateAll (inside function) _ >>= _) entered = _ at h
  rw [bind_eq_ok] at h
  obtain ⟨_, named, -, h⟩ := h
  rw [bind_eq_ok] at h
  obtain ⟨_, filled, hbody, -⟩ := h
  exact breaksInLoops_of_block definition.body
    (generates_of_generateInto hbody _ List.mem_cons_self) rfl

theorem mem_of_mem_placedFunctions {items : List Item} {cursor : FileCursor}
    {definition : FunctionDefinition} {serial : Nat}
    (h : (definition, serial) ∈ placedFunctions items cursor) : .function definition ∈ items := by
  induction items generalizing cursor with
  | nil => cases h
  | cons item items ih =>
      rw [placedFunctions, List.mem_append] at h
      rcases h with hfirst | hrest
      · cases item with
        | function other =>
            rw [Item.placed?, Option.toList_some, List.mem_singleton] at hfirst
            obtain ⟨rfl, -⟩ := Prod.mk.inj hfirst
            exact List.mem_cons_self
        | external | global => cases hfirst
      · exact List.mem_cons_of_mem _ (ih hrest)

/-- Where code is generated for a file, each `break` in its functions is in a loop. -/
theorem breaksInLoops_of_emissionOfTree {options : Asm.Options} {unit : CompileUnit}
    {emission : Emission} (h : emissionOfTree options unit.toTree = .ok emission)
    {definition : FunctionDefinition} {serial : Nat}
    (hfunction : (definition, serial) ∈ unit.functions) : definition.body.BreaksInLoops := by
  have hitem : (Item.function definition).toTree ∈ unit.items.map Item.toTree :=
    List.mem_map_of_mem (mem_of_mem_placedFunctions hfunction)
  exact breaksInLoops_of_function
    (generates_of_generateItems (generateItems_of_emissionOfTree h) _ hitem)

end MiniC.Codegen
