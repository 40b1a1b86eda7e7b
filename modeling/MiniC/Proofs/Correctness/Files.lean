import MiniC.Proofs.Asm.Buffer
import MiniC.Proofs.Ast.Arena
import MiniC.Proofs.Codegen.Files
import MiniC.Proofs.Translation.Code

/-!
# Correctness of generated files

The text of a file is that of its translation (`text_generated_file`).  Code
generation collects the code in nodes, adds these to contexts, passes the code of
operands on as text and assembles everything in the end; the translation writes
one line after another and knows nothing of that.
-/

namespace MiniC

open Asm (Buffer Entry Line Options)
open Ast (Arena)
open Codegen (emissionOfArena emissionOfTree)
open Emission (Lays fileId)
open ParseTree (Element Production Rule TokenKind)

/-- What is built is the arena of the program that the parse tree spells. -/
theorem unit_of_build {file : String} {production : Production} {arena : Arena}
    (h : Compiler.build file production = .ok arena) :
    ∃ unit, CompileUnit.ofProduction file production = .ok unit ∧
      arena = Arena.ofTree unit.toTree := by
  rw [Compiler.build] at h
  cases hunit : CompileUnit.ofProduction file production with
  | error malformation =>
      rw [hunit] at h
      cases h
  | ok unit =>
      rw [hunit] at h
      cases h
      exact ⟨unit, rfl, rfl⟩

/-- The arena of a program stands for its tree. -/
theorem emissionOfArena_ofTree (options : Options) (unit : CompileUnit) :
    emissionOfArena options (Arena.ofTree unit.toTree) = emissionOfTree options unit.toTree := by
  rw [emissionOfArena, Arena.tree?_ofTree unit.toTree unit.fits]

/-- What the emission of a built program looks like. -/
theorem fileAt_of_build {file : String} {production : Production} {arena : Arena}
    {options : Options} {emission : Emission} (hbuild : Compiler.build file production = .ok arena)
    (hgenerate : emissionOfArena options arena = .ok emission) :
    ∃ unit, CompileUnit.ofProduction file production = .ok unit ∧
      Codegen.FileAt options emission unit.dataLines unit.functions unit.finish := by
  obtain ⟨unit, hunit, rfl⟩ := unit_of_build hbuild
  rw [emissionOfArena_ofTree] at hgenerate
  exact ⟨unit, hunit, Codegen.fileAt_of_emissionOfTree hgenerate⟩

/-- The text of a file with these lines. -/
theorem text_of_lays {emission : Emission} {entries : List Entry}
    (h : Lays emission fileId entries) :
    emission.text = .ok
      (String.join ((entries.flatMap Entry.lines).map (Line.text emission.options.style))) := by
  obtain ⟨buffer, hbuffer, rfl⟩ := Emission.assemble_of_lays h
  rw [Emission.text, hbuffer]
  show Except.ok (buffer.text emission.options.style) = _
  rw [Buffer.text_eq_join, Buffer.lines]

/-- The instructions that are assembled from the node of a function. -/
theorem instructions_of_lays_function {options : Asm.Options} {emission : Emission}
    {unit : CompileUnit} {definition : FunctionDefinition} {serial : Nat}
    (hfile : Codegen.FileAt options emission unit.dataLines unit.functions unit.finish)
    (hfunction : (definition, serial) ∈ unit.functions) :
    ∃ buffer, emission.assemble serial = .ok buffer ∧
      buffer.instructions = definition.code serial := by
  obtain ⟨buffer, hbuffer, hentries⟩ :=
    Emission.assemble_of_lays (hfile.lays_function hfunction)
  refine ⟨buffer, hbuffer, ?_⟩
  rw [← definition.instructionsIn_translate serial, ← hentries]
  rfl

/-- **Deferred emission is one-pass translation.**  Where code is generated for a built
program, the text of the file is the translation of the program.  As many nodes have
been made as the translation counts, which the labels are numbered by.  And code
that is passed on as text makes the lines that it had. -/
theorem text_generated_file {file : String} {production : Production} {arena : Arena}
    {options : Options} {emission : Emission} (hbuild : Compiler.build file production = .ok arena)
    (hgenerate : emissionOfArena options arena = .ok emission) :
    ∃ unit, CompileUnit.ofProduction file production = .ok unit ∧
      emission.text = .ok (unit.assembly options) ∧
      emission.nodes.size = unit.finish.serial ∧
      ∀ buffer other : Buffer, (buffer.addCode (other.text options.style)).lines =
        (buffer.absorb other).lines := by
  obtain ⟨unit, hunit, hfile⟩ := fileAt_of_build hbuild hgenerate
  have htext := text_of_lays hfile.lays
  rw [hfile.options_eq] at htext
  exact ⟨unit, hunit, htext, hfile.size_eq, Buffer.lines_addCode_text options.style⟩

/-! ## A sample file -/

theorem exists_emission_of_isOk {file : String} {production : Production} {options : Options}
    (h : (Compiler.build file production >>= emissionOfArena options).isOk = true) :
    ∃ arena emission, Compiler.build file production = .ok arena ∧
      emissionOfArena options arena = .ok emission := by
  obtain ⟨emission, hrun⟩ := exists_eq_ok_of_isOk h
  cases hbuild : Compiler.build file production with
  | error error =>
      rw [hbuild] at hrun
      cases hrun
  | ok arena =>
      rw [hbuild] at hrun
      exact ⟨arena, emission, rfl, hrun⟩

namespace Sample

def token (kind : TokenKind) (text : String) : Element := .token ⟨kind, text, 1, 1⟩

def part (rule : Rule) (children : List Element) : Element := .production ⟨rule, 1, 1, children⟩

/-- The statement `if (x) { return 1; }`. -/
def choice : Element :=
  part .ifStatement [token .keyword "if", token .identifier "x",
    part .block [part .statementList
      [part .statement [token .keyword "return", token .number "1"]]]]

/-- The statement `while (y) break;`. -/
def repetition : Element :=
  part .whileStatement [token .keyword "while", token .identifier "y",
    part .statement [token .keyword "break"]]

/-- The file `int y; int f(int x) { if (x) { return 1; } while (y) break; }`. -/
def production : Production :=
  ⟨.compileUnit, 1, 1,
    [part .declaration [part .typeSpecifier [token .typeName "int"], token .identifier "y"],
      part .functionDefinition [part .typeSpecifier [token .typeName "int"],
        token .identifier "f",
        part .fargs [part .typeSpecifier [token .typeName "int"], token .identifier "x"],
        part .block [part .statementList [choice, repetition]]]]⟩

/-- Code is generated for the file. -/
theorem generated : ∃ arena emission, Compiler.build "sample.c" production = .ok arena ∧
    emissionOfArena {} arena = .ok emission :=
  exists_emission_of_isOk (by decide +kernel)

end Sample

/-- The text of the sample file is its translation. -/
theorem text_generated_sample :
    ∃ arena emission unit, Compiler.build "sample.c" Sample.production = .ok arena ∧
      emissionOfArena {} arena = .ok emission ∧
      CompileUnit.ofProduction "sample.c" Sample.production = .ok unit ∧
      emission.text = .ok (unit.assembly {}) := by
  obtain ⟨arena, emission, hbuild, hgenerate⟩ := Sample.generated
  obtain ⟨unit, hunit, htext, -⟩ := text_generated_file hbuild hgenerate
  exact ⟨arena, emission, unit, hbuild, hgenerate, hunit, htext⟩

end MiniC
