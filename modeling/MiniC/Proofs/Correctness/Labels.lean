import MiniC.Proofs.Codegen.Breaks
import MiniC.Proofs.Correctness.Files

/-!
# Labels and jumps of generated files

In the functions of a generated file each jump has one place to go to, and a `break`
goes to the end of the innermost loop around it (`labels_generated_file`).  The
labels of the `if`s and `while`s of different functions are different, since the
nodes of a function have the numbers of an interval of their own.
-/

namespace MiniC

open Asm (Buffer Instruction Options labels)
open Ast (Arena)
open Codegen (emissionOfArena emissionOfTree)
open Emission (Lays fileHead fileId)
open ParseTree (Production)

/-! ## The labels of a file -/

theorem FileCursor.le_next (item : Item) (cursor : FileCursor) :
    cursor.serial ≤ (item.next cursor).serial := by
  cases item with
  | function definition => exact definition.serial_le_nextSerial cursor.serial
  | external | global => exact Nat.le_trans (Nat.le_add_right _ _) (Nat.le_add_right _ _)

theorem FileCursor.le_after (items : List Item) (cursor : FileCursor) :
    cursor.serial ≤ (cursor.after items).serial := by
  induction items generalizing cursor with
  | nil => exact Nat.le_refl _
  | cons item items ih => exact Nat.le_trans (cursor.le_next item) (ih (item.next cursor))

/-- The labels of `if`s and `while`s in functions. -/
def innerLabels (functions : List (FunctionDefinition × Nat)) : List String :=
  functions.flatMap fun (definition, serial) => labels (definition.bodyCode serial)

/-- The labels of each function have numbers of their own. -/
theorem nodup_innerLabels (items : List Item) (cursor : FileCursor) :
    (innerLabels (placedFunctions items cursor)).Nodup ∧
      Numbered cursor.serial (cursor.after items).serial
        (innerLabels (placedFunctions items cursor)) := by
  induction items generalizing cursor with
  | nil => exact ⟨List.nodup_nil, fun _ hlabel => absurd hlabel List.not_mem_nil⟩
  | cons item items ih =>
      obtain ⟨hnodup, hnumbered⟩ := ih (item.next cursor)
      have hnext := cursor.le_next item
      have hlast := FileCursor.le_after items (item.next cursor)
      cases item with
      | external | global => exact ⟨hnodup, hnumbered.mono hnext (Nat.le_refl _)⟩
      | function definition =>
          have hbody := definition.wellPlaced_bodyCode cursor.serial
          refine ⟨List.nodup_append.mpr ⟨hbody.nodup, hnodup, ?_⟩,
            (hbody.numbered.mono (Nat.le_refl _) hlast).append
              (hnumbered.mono hnext (Nat.le_refl _))⟩
          intro label hlabel other hother
          exact hbody.numbered.ne hnumbered (Nat.le_refl _) hlabel hother

/-- The lines outside of functions define no labels. -/
theorem plain_dataSection (items : List Item) (cursor : FileCursor) :
    Plain (dataSection items cursor) := by
  induction items generalizing cursor with
  | nil => simp [Plain, dataSection]
  | cons item items ih =>
      refine Plain.append ?_ (ih _)
      cases item with
      | function => simp [Plain, Item.dataLines]
      | external | global =>
          rw [Item.dataLines]
          split <;> simp [Plain, Instruction.label?, Instruction.target?]

theorem labels_translate (options : Options) (unit : CompileUnit) :
    labels (instructionsIn (unit.translate options)) =
      unit.functions.flatMap fun (definition, serial) => labels (definition.code serial) := by
  have hhead : Plain (fileHead options) := by
    simp [Plain, fileHead, Instruction.label?, Instruction.target?]
  have hvariables : labels unit.dataLines = [] := (plain_dataSection _ _).labels_eq
  have hfunctions : ∀ functions : List (FunctionDefinition × Nat),
      labels (instructionsIn (functions.flatMap fun (definition, serial) =>
        definition.translate serial)) =
      functions.flatMap fun (definition, serial) => labels (definition.code serial) := by
    intro functions
    induction functions with
    | nil => rfl
    | cons placed functions ih =>
        simp [ih, FunctionDefinition.instructionsIn_translate]
  rw [CompileUnit.translate, instructionsIn_append, instructionsIn_append, Asm.labels_append,
    Asm.labels_append, hfunctions]
  simp [hhead.labels_eq, hvariables, Instruction.label?]

/-- An `if` or a `while` has its labels at one place of the file. -/
theorem count_labels_translate_le (options : Options) (unit : CompileUnit) {label : String}
    {serial : Nat} (h : label ∈ branchLabels serial) :
    (labels (instructionsIn (unit.translate options))).count label ≤ 1 := by
  have hcount : ∀ functions : List (FunctionDefinition × Nat),
      (functions.flatMap fun (definition, serial) => labels (definition.code serial)).count label =
        (innerLabels functions).count label := by
    intro functions
    induction functions with
    | nil => rfl
    | cons placed functions ih =>
        obtain ⟨definition, number⟩ := placed
        have hne : definition.name ++ "_exit" ≠ label :=
          (ne_exit_of_mem_branchLabels h definition.name).symm
        have hfirst : (labels (definition.code number)).count label =
            (labels (definition.bodyCode number)).count label := by
          rw [definition.labels_code, List.count_append, List.count_cons_of_ne hne]
          rfl
        rw [innerLabels, List.flatMap_cons, List.flatMap_cons, List.count_append,
          List.count_append, ih]
        show (labels (definition.code number)).count label + _ = _
        rw [hfirst]
        rfl
  rw [labels_translate, hcount]
  exact List.nodup_iff_count.mp (nodup_innerLabels unit.items CompileUnit.start).1 label

/-! ## Generated files -/

/-- **Labels and jumps are well formed.**  Where code is generated for a built program,
the nodes of functions are those of the functions of the program.  In the
instructions of each of them, every label is defined once and every jump goes to a
label of the same function.  The jumps to the ends of loops are the `break`s of the
function, in order, and each goes to the end of the innermost loop around it.  In
the whole file no label of an `if` or a `while` is defined twice, and none is the
exit label of a function. -/
theorem labels_generated_file {file : String} {production : Production} {arena : Arena}
    {options : Options} {emission : Emission} (hbuild : Compiler.build file production = .ok arena)
    (hgenerate : emissionOfArena options arena = .ok emission) :
    ∃ unit, CompileUnit.ofProduction file production = .ok unit ∧
      emission.functions = unit.functions.map Prod.snd ∧
      (∀ definition serial, (definition, serial) ∈ unit.functions →
        ∃ buffer, emission.assemble serial = .ok buffer ∧
          WellLabelled (definition.name ++ "_exit") buffer.instructions ∧
          (loopExits buffer.instructions).map some =
            (definition.breaks serial).map (Option.map loopEndOf)) ∧
      ∃ whole, emission.assemble fileId = .ok whole ∧
        ∀ serial, ∀ label ∈ branchLabels serial,
          (labels whole.instructions).count label ≤ 1 ∧ ∀ name, label ≠ name ++ "_exit" := by
  obtain ⟨unit, hunit, rfl⟩ := unit_of_build hbuild
  rw [emissionOfArena_ofTree] at hgenerate
  have hfile := Codegen.fileAt_of_emissionOfTree hgenerate
  refine ⟨unit, hunit, hfile.functions_eq, ?_, ?_⟩
  · intro definition serial hfunction
    obtain ⟨buffer, hbuffer, hcode⟩ := instructions_of_lays_function hfile hfunction
    refine ⟨buffer, hbuffer, ?_, ?_⟩
    · rw [hcode]
      exact definition.wellLabelled_code serial
    · rw [hcode]
      exact definition.loopExits_code serial
        (Codegen.breaksInLoops_of_emissionOfTree hgenerate hfunction)
  -- over the whole file only the labels of branches are told apart: names may repeat
  · obtain ⟨whole, hwhole, hentries⟩ := Emission.assemble_of_lays hfile.lays
    have hcode : whole.instructions = instructionsIn (unit.translate options) := by
      rw [← hentries]
      rfl
    refine ⟨whole, hwhole, ?_⟩
    intro serial label hlabel
    refine ⟨?_, ne_exit_of_mem_branchLabels hlabel⟩
    rw [hcode]
    exact count_labels_translate_le options unit hlabel

/-- In the sample file labels and jumps are well formed. -/
theorem labels_generated_sample :
    ∃ arena emission unit, Compiler.build "sample.c" Sample.production = .ok arena ∧
      emissionOfArena {} arena = .ok emission ∧
      CompileUnit.ofProduction "sample.c" Sample.production = .ok unit ∧
      emission.functions = unit.functions.map Prod.snd ∧
      ∀ definition serial, (definition, serial) ∈ unit.functions →
        ∃ buffer, emission.assemble serial = .ok buffer ∧
          WellLabelled (definition.name ++ "_exit") buffer.instructions := by
  obtain ⟨arena, emission, hbuild, hgenerate⟩ := Sample.generated
  obtain ⟨unit, hunit, hfunctions, hall, -⟩ := labels_generated_file hbuild hgenerate
  refine ⟨arena, emission, unit, hbuild, hgenerate, hunit, hfunctions, ?_⟩
  intro definition serial hfunction
  obtain ⟨buffer, hbuffer, hlabels, -⟩ := hall definition serial hfunction
  exact ⟨buffer, hbuffer, hlabels⟩

end MiniC
