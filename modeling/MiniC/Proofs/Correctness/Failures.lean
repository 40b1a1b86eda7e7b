import MiniC.Proofs.Codegen.Outcomes
import MiniC.Proofs.Correctness.Files

/-!
# Failures of code generation

For a built syntax tree there is no code only if something is wrong with one of its
nodes, and the error is about the first of these (`assembly_of_build`).
-/

namespace MiniC

open Ast (Arena)
open Codegen (Fault assembly fault?)
open ParseTree (Production)

/-- The text of a program, or the error for its first fault. -/
theorem assembly_of_faults (options : Asm.Options) (unit : CompileUnit) :
    match unit.toTree.faults with
    | [] => ∃ text, assembly options (Arena.ofTree unit.toTree) = .ok text
    | fault :: _ => assembly options (Arena.ofTree unit.toTree) = .error fault.error := by
  have hemission := Codegen.emissionOfTree_of_faults options unit
  rw [← emissionOfArena_ofTree] at hemission
  cases hfaults : unit.toTree.faults with
  | nil =>
      rw [hfaults] at hemission
      obtain ⟨emission, hemission⟩ := hemission
      have hfile := Codegen.fileAt_of_emissionOfTree
        ((emissionOfArena_ofTree options unit).symm.trans hemission)
      have htext := text_of_lays hfile.lays
      rw [assembly, hemission]
      exact ⟨_, htext⟩
  | cons fault faults =>
      rw [hfaults] at hemission
      show assembly options _ = _
      rw [assembly, hemission]
      rfl

/-- **Code generation fails for two reasons only.**  There is no code for a built syntax
tree if and only if it has a `break` with no loop around it, or a variable of the file
with an initial value that is neither a number nor a number directly below a sign.  The
error is then about the first of these in source order. -/
theorem assembly_of_build {file : String} {production : Production} {arena : Arena}
    (options : Asm.Options) (hbuild : Compiler.build file production = .ok arena) :
    ∃ tree, arena.root >>= arena.tree? = some tree ∧
      ((∃ error, assembly options arena = .error error) ↔
        ∃ visit ∈ tree.visits [], (fault? visit).isSome) ∧
      ∀ fault : Fault, tree.faults.head? = some fault →
        assembly options arena = .error (.codegen fault.location fault.obstacle.message) := by
  obtain ⟨unit, -, rfl⟩ := unit_of_build hbuild
  have hresult := assembly_of_faults options unit
  refine ⟨unit.toTree, Arena.tree?_ofTree unit.toTree unit.fits, ?_, ?_⟩
  · have hfaulty : (∃ visit ∈ unit.toTree.visits [], (fault? visit).isSome) ↔
        unit.toTree.faults ≠ [] := by
      simp [Ast.Tree.faults, Codegen.faultsIn, List.filterMap_eq_nil_iff, Option.isSome_iff_ne_none]
    rw [hfaulty]
    cases hfaults : unit.toTree.faults with
    | nil =>
        rw [hfaults] at hresult
        obtain ⟨text, htext⟩ := hresult
        simp [htext]
    | cons fault faults =>
        rw [hfaults] at hresult
        exact ⟨fun _ => by simp, fun _ => ⟨fault.error, hresult⟩⟩
  · intro fault hfirst
    obtain ⟨faults, hfaults⟩ := List.head?_eq_some_iff.mp hfirst
    rw [hfaults] at hresult
    exact hresult

/-- Nothing is wrong with the sample file. -/
theorem assembly_sample :
    ∃ arena tree, Compiler.build "sample.c" Sample.production = .ok arena ∧
      arena.root >>= arena.tree? = some tree ∧
      ¬ ∃ visit ∈ tree.visits [], (fault? visit).isSome := by
  obtain ⟨arena, emission, hbuild, hgenerate⟩ := Sample.generated
  obtain ⟨tree, htree, hiff, -⟩ := assembly_of_build {} hbuild
  obtain ⟨unit, -, hfile⟩ := fileAt_of_build hbuild hgenerate
  refine ⟨arena, tree, hbuild, htree, ?_⟩
  intro hfaulty
  obtain ⟨error, herror⟩ := hiff.mpr hfaulty
  rw [assembly, hgenerate] at herror
  cases herror.symm.trans (text_of_lays hfile.lays)

end MiniC
