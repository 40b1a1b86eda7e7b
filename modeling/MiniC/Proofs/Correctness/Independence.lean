import MiniC.Proofs.Ast.Outline
import MiniC.Proofs.Correctness.Files
import MiniC.Proofs.Translation.Renumber

/-!
# Functions are compiled independently

Whatever else is in a file, a function has the same code, but for the numbers in the
labels of its `if`s and `while`s.  These are shifted by one number, the distance between
the emission nodes of the function in the two files (`text_function_of_outline_eq`).
-/

namespace MiniC

open Asm (Buffer Entry Options)
open Ast (Arena)
open Codegen (emissionOfArena)
open ParseTree (Production)

/-- The function that an item defines. -/
def Item.definition? : Item → Option FunctionDefinition
  | .function definition => some definition
  | .external _ | .global _ => none

theorem definitions_placedFunctions (items : List Item) (cursor : FileCursor) :
    (placedFunctions items cursor).map Prod.fst = items.filterMap Item.definition? := by
  induction items generalizing cursor with
  | nil => rfl
  | cons item items ih =>
      rw [placedFunctions, List.map_append, ih]
      cases item <;> rfl

/-- Every function that a program defines has its place in the file, in their order. -/
theorem CompileUnit.definitions_functions (unit : CompileUnit) :
    unit.functions.map Prod.fst = unit.items.filterMap Item.definition? :=
  definitions_placedFunctions unit.items start

/-- A buffer with the numbers of the labels in it shifted. -/
def Asm.Buffer.renumber (shift : Int) (buffer : Buffer) : Buffer :=
  { buffer with entries := buffer.entries.map (Entry.renumber shift) }

theorem text_eq_of_entries_eq {buffer other : Buffer} (style : Asm.Style)
    (h : buffer.entries.toList = other.entries.toList) : buffer.text style = other.text style := by
  rw [Buffer.text_eq_join, Buffer.text_eq_join, Buffer.lines, Buffer.lines, h]

/-- A function with the outline of another has its lines, renumbered. -/
theorem FunctionDefinition.translate_of_outline_eq {definition changed : FunctionDefinition}
    (h : definition.toTree.outline = changed.toTree.outline) (serial other : Nat) :
    changed.translate other =
      (definition.translate serial).map (Entry.renumber ((other : Int) - serial)) := by
  calc changed.translate other
      = changed.outline.translate other := (changed.translate_outline other).symm
    _ = definition.outline.translate other := by rw [outline_of_toTree h]
    _ = definition.translate other := definition.translate_outline other
    _ = (definition.translate serial).map (Entry.renumber ((other : Int) - serial)) :=
        definition.translate_renumber (by omega)

/-- **Functions are compiled independently.**  Let code be generated for two built programs
with the same options, and let a function of the one have a tree that differs from that of
a function of the other in places and names of types only.  Then the node of the one
function is assembled to the text of the other, where each number in a label of an `if` or
a `while` is shifted by the difference of the numbers of the two nodes.  This holds whatever
else is in the files, and in whatever order. -/
theorem text_function_of_outline_eq {file otherFile : String}
    {production otherProduction : Production} {arena otherArena : Arena} {options : Options}
    {emission otherEmission : Emission} (hbuild : Compiler.build file production = .ok arena)
    (hotherBuild : Compiler.build otherFile otherProduction = .ok otherArena)
    (hgenerate : emissionOfArena options arena = .ok emission)
    (hotherGenerate : emissionOfArena options otherArena = .ok otherEmission) :
    ∃ unit otherUnit, CompileUnit.ofProduction file production = .ok unit ∧
      CompileUnit.ofProduction otherFile otherProduction = .ok otherUnit ∧
      arena.root >>= arena.tree? = some unit.toTree ∧
      otherArena.root >>= otherArena.tree? = some otherUnit.toTree ∧
      unit.functions.map Prod.fst = unit.items.filterMap Item.definition? ∧
      emission.functions = unit.functions.map Prod.snd ∧
      otherUnit.functions.map Prod.fst = otherUnit.items.filterMap Item.definition? ∧
      otherEmission.functions = otherUnit.functions.map Prod.snd ∧
      ∀ definition serial changed other, (definition, serial) ∈ unit.functions →
        (changed, other) ∈ otherUnit.functions →
        definition.toTree.outline = changed.toTree.outline →
        ∃ buffer otherBuffer, emission.assemble serial = .ok buffer ∧
          otherEmission.assemble other = .ok otherBuffer ∧
          otherBuffer.text options.style =
            (buffer.renumber ((other : Int) - serial)).text options.style := by
  obtain ⟨unit, hunit, rfl⟩ := unit_of_build hbuild
  obtain ⟨otherUnit, hotherUnit, rfl⟩ := unit_of_build hotherBuild
  rw [emissionOfArena_ofTree] at hgenerate hotherGenerate
  have hfile := Codegen.fileAt_of_emissionOfTree hgenerate
  have hotherFile := Codegen.fileAt_of_emissionOfTree hotherGenerate
  refine ⟨unit, otherUnit, hunit, hotherUnit, Arena.tree?_ofTree unit.toTree unit.fits,
    Arena.tree?_ofTree otherUnit.toTree otherUnit.fits, unit.definitions_functions,
    hfile.functions_eq, otherUnit.definitions_functions, hotherFile.functions_eq, ?_⟩
  intro definition serial changed other hmem hotherMem houtline
  obtain ⟨buffer, hbuffer, hentries⟩ := Emission.assemble_of_lays (hfile.lays_function hmem)
  obtain ⟨otherBuffer, hotherBuffer, hotherEntries⟩ :=
    Emission.assemble_of_lays (hotherFile.lays_function hotherMem)
  refine ⟨buffer, otherBuffer, hbuffer, hotherBuffer, text_eq_of_entries_eq options.style ?_⟩
  -- the code depends on the outline and the serial, and the serial only shifts the labels
  rw [hotherEntries, FunctionDefinition.translate_of_outline_eq houtline serial other,
    Buffer.renumber, Array.toList_map, hentries]

namespace Sample

/-- The sample file without its variable: only the function is left. -/
def functionOnly : Production := { production with children := production.children.drop 1 }

/-- The function of the sample file, in a file with some name. -/
def definitionIn (file : String) : FunctionDefinition :=
  let place : Location := ⟨file, 1, 1⟩
  { location := place
    name := "f"
    returnType := "int"
    returnTypeLocation := place
    parameters := some ⟨place, [⟨place, "x", "int"⟩]⟩
    body := ⟨place,
      [.ifElse place (.name place "x") ⟨place, [.returnValue place (some (.number place 1))]⟩ none,
        .whileLoop place (.name place "y") (.breakLoop place)]⟩ }

end Sample

/-- The function of the sample file has the node 3 after the variable, and the node 1 where
it stands alone. -/
theorem text_function_sample :
    ∃ (emission otherEmission : Emission) (buffer otherBuffer : Buffer),
      emission.functions = [3] ∧ otherEmission.functions = [1] ∧
      emission.assemble 3 = .ok buffer ∧ otherEmission.assemble 1 = .ok otherBuffer ∧
      otherBuffer.text {} = (buffer.renumber (-2)).text {} := by
  obtain ⟨arena, emission, hbuild, hgenerate⟩ := Sample.generated
  obtain ⟨otherArena, otherEmission, hotherBuild, hotherGenerate⟩ :
      ∃ arena emission, Compiler.build "alone.c" Sample.functionOnly = .ok arena ∧
        emissionOfArena {} arena = .ok emission := exists_emission_of_isOk (by decide +kernel)
  obtain ⟨unit, otherUnit, hunit, hotherUnit, -, -, -, hfunctions, -, hotherFunctions, htext⟩ :=
    text_function_of_outline_eq hbuild hotherBuild hgenerate hotherGenerate
  have hplaced : unit.functions = [(Sample.definitionIn "sample.c", 3)] := by
    cases hunit
    rfl
  have hotherPlaced : otherUnit.functions = [(Sample.definitionIn "alone.c", 1)] := by
    cases hotherUnit
    rfl
  obtain ⟨buffer, otherBuffer, hbuffer, hotherBuffer, hsame⟩ :=
    htext (Sample.definitionIn "sample.c") 3 (Sample.definitionIn "alone.c") 1
      (by rw [hplaced]; exact List.mem_singleton_self _)
      (by rw [hotherPlaced]; exact List.mem_singleton_self _) rfl
  exact ⟨emission, otherEmission, buffer, otherBuffer, by rw [hfunctions, hplaced]; rfl,
    by rw [hotherFunctions, hotherPlaced]; rfl, hbuffer, hotherBuffer, hsame⟩

end MiniC
