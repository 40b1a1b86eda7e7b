import MiniC.Proofs.Correctness.Failures
import MiniC.Proofs.Reading.Outline.Files

/-!
# Places and names of types do not matter

Parse trees that differ in places and in the texts of their type specifiers only are
compiled to one text, or refused for one reason at different places
(`compile_of_outline_eq`).  Both have the outline that they share compiled instead of
them, which has no places and no names of types that could make a difference.
-/

namespace MiniC

open Asm (Options)
open Ast (Arena)
open Codegen (Fault assembly emissionOfArena)
open ParseTree (Production)

/-- An error without its place. -/
def Error.outline : Error → Error
  | .structural node slot _ reason => .structural node slot .unknown reason
  | .malformed construct _ reason => .malformed construct .unknown reason
  | .codegen _ reason => .codegen .unknown reason
  | error => error

/-- The text of a parse tree, or the error for it. -/
def compile (options : Options) (file : String) (production : Production) : Except Error String :=
  Compiler.build file production >>= assembly options

/-- What is generated for a program with nothing wrong in it is its translation. -/
theorem assembly_of_faults_eq_nil (options : Options) {unit : CompileUnit}
    (h : unit.toTree.faults = []) :
    assembly options (Arena.ofTree unit.toTree) = .ok (unit.assembly options) := by
  have hemission := Codegen.emissionOfTree_of_faults options unit
  rw [h] at hemission
  obtain ⟨emission, hemission⟩ := hemission
  have hfile := Codegen.fileAt_of_emissionOfTree hemission
  have htext := text_of_lays hfile.lays
  rw [hfile.options_eq] at htext
  rw [assembly, emissionOfArena_ofTree, hemission]
  exact htext

/-- The outcome for a program is that for its outline. -/
theorem assembly_outline_toTree (options : Options) (unit : CompileUnit) :
    (assembly options (Arena.ofTree unit.outline.toTree)).mapError Error.outline =
      (assembly options (Arena.ofTree unit.toTree)).mapError Error.outline := by
  have houtline := assembly_of_faults options unit.outline
  have hunit := assembly_of_faults options unit
  rw [unit.faults_outline] at houtline
  cases hfaults : unit.toTree.faults with
  | nil =>
      have hnone : unit.outline.toTree.faults = [] := by rw [unit.faults_outline, hfaults]; rfl
      rw [assembly_of_faults_eq_nil options hfaults, assembly_of_faults_eq_nil options hnone,
        unit.assembly_outline]
  | cons fault faults =>
      rw [hfaults] at houtline hunit
      rw [hunit, show assembly options _ = _ from houtline]
      rfl

/-- The outcome for a parse tree is that for its outline. -/
theorem compile_outline (options : Options) (file : String) (production : Production) :
    (compile options unnamedFile (production.outline false)).mapError Error.outline =
      (compile options file production).mapError Error.outline := by
  have hread := CompileUnit.ofProduction_outline file production
  rw [compile, compile, Compiler.build, Compiler.build, hread]
  cases CompileUnit.ofProduction file production with
  | error malformation => rfl
  | ok unit => exact assembly_outline_toTree options unit

/-- **Places and names of types do not matter.**  Parse trees with one outline differ only
in lines and columns and in the texts inside their type specifiers.  Whatever the files are
called, both are compiled to the same text, or both are refused with errors that are the
same but for the place. -/
theorem compile_of_outline_eq (options : Options) (file other : String)
    {production changed : Production} (h : production.outline false = changed.outline false) :
    (∃ text, compile options file production = .ok text ∧
        compile options other changed = .ok text) ∨
      ∃ error different, compile options file production = .error error ∧
        compile options other changed = .error different ∧ error.outline = different.outline := by
  -- both files compile to what their common outline compiles to, errors up to the place
  have hsame : (compile options file production).mapError Error.outline =
      (compile options other changed).mapError Error.outline :=
    calc (compile options file production).mapError Error.outline
        = (compile options unnamedFile (production.outline false)).mapError Error.outline :=
          (compile_outline options file production).symm
      _ = (compile options unnamedFile (changed.outline false)).mapError Error.outline := by rw [h]
      _ = (compile options other changed).mapError Error.outline :=
          compile_outline options other changed
  cases hfirst : compile options file production with
  | ok text =>
      cases hsecond : compile options other changed with
      | ok second =>
          rw [hfirst, hsecond] at hsame
          cases hsame
          exact .inl ⟨text, rfl, rfl⟩
      | error different =>
          rw [hfirst, hsecond] at hsame
          cases hsame
  | error error =>
      cases hsecond : compile options other changed with
      | ok second =>
          rw [hfirst, hsecond] at hsame
          cases hsame
      | error different =>
          rw [hfirst, hsecond] at hsame
          exact .inr ⟨error, different, rfl, rfl, Except.error.inj hsame⟩

/-- The function `main() { return 1; }` with some type, all of it at one place. -/
def Sample.returningOne (line column : UInt32) (typeName : String) : Production :=
  ⟨.compileUnit, line, column, [.production ⟨.functionDefinition, line, column,
    [.production ⟨.typeSpecifier, line, column, [.token ⟨.typeName, typeName, line, column⟩]⟩,
      .token ⟨.identifier, "main", line, column⟩,
      .production ⟨.block, line, column, [.production ⟨.statement, line, column,
        [.token ⟨.keyword, "return", line, column⟩, .token ⟨.number, "1", line, column⟩]⟩]⟩]⟩]⟩

theorem compile_sample :
    ∃ text, compile {} "first.c" (Sample.returningOne 1 1 "int") = .ok text ∧
      compile {} "second.c" (Sample.returningOne 20 4 "long") = .ok text := by
  have houtline : (Sample.returningOne 1 1 "int").outline false =
      (Sample.returningOne 20 4 "long").outline false := by decide +kernel
  rcases compile_of_outline_eq {} "first.c" "second.c" houtline with
    h | ⟨error, different, herror, -, -⟩
  · exact h
  · have hok : (compile {} "first.c" (Sample.returningOne 1 1 "int")).isOk = true := by
      decide +kernel
    rw [herror] at hok
    cases hok

end MiniC
