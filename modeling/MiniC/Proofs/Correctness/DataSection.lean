import MiniC.Proofs.Correctness.Files
import MiniC.Proofs.Correctness.Styles
import MiniC.Proofs.Translation.DataSection

/-!
# Data sections of generated files

The data section of a generated file says, in the order of the file, what the first
declarations of its variables and of its external functions say, and nothing else
(`dataSection_generated_file`).

The section is located twice: by what the file starts with, which is right whatever the
options say, and as the lines between the two directives, which is the same unless the
options put a `.data` of their own before it.
-/

namespace MiniC

open Asm (Entry Instruction Line Options)
open Ast (Arena Tree)
open Codegen (constantValue emissionOfArena emissionOfTree generate generateItems)
open Emission (fileHead fileId)
open ParseTree (Element Production)

/-! ## Lines between directives -/

/-- The lines after a directive, up to another one. -/
def between (opening closing : String) (lines : List String) : List String :=
  ((lines.dropWhile (· != opening)).drop 1).takeWhile (· != closing)

theorem between_eq {opening closing : String} {front middle : List String}
    (hfront : ∀ line ∈ front, line ≠ opening) (hmiddle : ∀ line ∈ middle, line ≠ closing)
    (rest : List String) :
    between opening closing (front ++ opening :: (middle ++ closing :: rest)) = middle := by
  have hafter : (front ++ opening :: (middle ++ closing :: rest)).dropWhile (· != opening) =
      opening :: (middle ++ closing :: rest) := by
    rw [List.dropWhile_append_of_pos fun line hline => bne_iff_ne.mpr (hfront line hline)]
    exact List.dropWhile_cons_of_neg (by simp)
  rw [between, hafter, List.drop_one, List.tail_cons,
    List.takeWhile_append_of_pos fun line hline => bne_iff_ne.mpr (hmiddle line hline),
    List.takeWhile_cons_of_neg (by simp), List.append_nil]

/-- The lines of the directives that a file starts with, before that of the data section. -/
def headLines (options : Options) : List Line :=
  (lay 0 (fileHead options).dropLast).flatMap Entry.lines

/-- The lines of a file whose names are identifiers start with those of the directives and of
the data section. -/
theorem exists_lines_translate {unit : CompileUnit} (options : Options)
    (hnames : ∀ item ∈ unit.items, Text.isIdentifier item.name = true) :
    ∃ rest, (unit.translate options).flatMap Entry.lines =
      headLines options ++ ⟨0, ".data"⟩ ::
        ((firstLines unit.items).map (fun instruction => ⟨0, instruction.text⟩) ++
          ⟨0, ".code"⟩ :: rest) := by
  have hhead : lay 0 (fileHead options) =
      lay 0 (fileHead options).dropLast ++ [⟨0, .directive ".data"⟩] := rfl
  have hdirective : lay 0 [.directive ".code"] = [⟨0, .directive ".code"⟩] := rfl
  have hdata : Entry.lines ⟨0, .directive ".data"⟩ = [⟨0, ".data"⟩] := by decide
  have hcode : Entry.lines ⟨0, .directive ".code"⟩ = [⟨0, ".code"⟩] := by decide
  rw [CompileUnit.translate, lay_append, lay_append, hhead, hdirective,
    unit.dataLines_eq_firstLines]
  simp only [List.flatMap_append, List.flatMap_singleton, lines_firstLines hnames, hdata, hcode]
  simp only [headLines, List.append_assoc, List.cons_append, List.nil_append]
  exact ⟨_, rfl⟩

/-! ## Initial values -/

/-- Where code is generated for items, the initial values of the variables among them are
constants. -/
theorem constant?_of_generateItems {items : List Item} {before after : Emission}
    (h : generateItems Codegen.Scope.file (items.map Item.toTree) before = .ok () after)
    {declared : Declaration} (hdeclared : .global declared ∈ items) {initializer : Expr}
    (hinitializer : declared.initializer = some initializer) :
    ∃ value, initializer.constant? = some value := by
  induction items generalizing before with
  | nil => cases hdeclared
  | cons item items ih =>
      rw [List.map_cons, generateItems, Emit.bind_eq_ok] at h
      obtain ⟨id, middle, hitem, h⟩ := h
      rw [Emit.bind_eq_ok] at h
      obtain ⟨_, added, -, hrest⟩ := h
      rcases List.mem_cons.mp hdeclared with rfl | hlater
      · obtain ⟨value, hvalue⟩ := Codegen.constant_of_generate hitem
        rw [hinitializer, Option.map_some, Option.mapM_some] at hvalue
        cases hconstant : constantValue initializer.toTree with
        | error error =>
            rw [hconstant] at hvalue
            cases hvalue
        | ok found => exact ⟨found, Codegen.constant?_of_constantValue hconstant⟩
      · exact ih hrest hlater

/-- **The data section is what the first declarations say.**  Where code is generated for a
built program, all initial values of its variables are constants.  If the names of the items
are identifiers, the lines after the `.data` directive and up to the `.code` directive are
those of the variables and external functions that are the first with their names, variables
and functions apart, in the order of the file (`firstLines`). -/
theorem dataSection_generated_file {file : String} {production : Production} {arena : Arena}
    {options : Options} {emission : Emission} (hbuild : Compiler.build file production = .ok arena)
    (hgenerate : emissionOfArena options arena = .ok emission) :
    ∃ (unit : CompileUnit) (lines : List Line),
      CompileUnit.ofProduction file production = .ok unit ∧ arena = Arena.ofTree unit.toTree ∧
      emission.text = .ok (Asm.written options.style lines) ∧
      (∀ declared initializer, .global declared ∈ unit.items →
        declared.initializer = some initializer →
          ∃ value, initializer.constant? = some value) ∧
      ((∀ item ∈ unit.items, Text.isIdentifier item.name = true) →
        (∃ rest, lines = headLines options ++ ⟨0, ".data"⟩ ::
          ((firstLines unit.items).map (fun instruction => ⟨0, instruction.text⟩) ++
            ⟨0, ".code"⟩ :: rest)) ∧
        ((∀ line ∈ headLines options, line.content ≠ ".data") →
          between ".data" ".code" (lines.map Line.content) =
            (firstLines unit.items).map Instruction.text)) := by
  obtain ⟨unit, hunit, rfl⟩ := unit_of_build hbuild
  rw [emissionOfArena_ofTree] at hgenerate
  have hfile := Codegen.fileAt_of_emissionOfTree hgenerate
  obtain ⟨buffer, hbuffer, hentries⟩ := Emission.assemble_of_lays hfile.lays
  have hlines : buffer.lines = (unit.translate options).flatMap Entry.lines := by
    rw [Asm.Buffer.lines, hentries]
  refine ⟨unit, buffer.lines, hunit, rfl, ?_, ?_, fun hnames => ?_⟩
  · rw [Emission.text, hbuffer, hfile.options_eq, ← Asm.Buffer.text_eq_written]
    rfl
  · intro declared initializer hdeclared
    exact constant?_of_generateItems (Codegen.generateItems_of_emissionOfTree hgenerate) hdeclared
  · obtain ⟨rest, hrest⟩ := exists_lines_translate options hnames
    refine ⟨⟨rest, hlines.trans hrest⟩, ?_⟩
    intro hhead
    -- no line of the section looks like the directive that ends it
    have hmiddle : ∀ line ∈ (firstLines unit.items).map Instruction.text, line ≠ ".code" := by
      intro line hline
      obtain ⟨instruction, hinstruction, rfl⟩ := List.mem_map.mp hline
      exact text_ne_directive hinstruction hnames rfl
    rw [hlines, hrest, List.map_append, List.map_cons, List.map_append, List.map_map,
      List.map_cons]
    exact between_eq (by simpa using hhead) hmiddle (rest.map Line.content)

/-! ## A file with repeated names -/

namespace Sample

/-- The type of a declaration, its name and what comes after it. -/
def declared (name : String) (rest : List Element) : List Element :=
  part .typeSpecifier [token .typeName "int"] :: token .identifier name :: rest

/-- A list of parameters. -/
def listed (names : List String) : Element := part .fargs (names.flatMap (declared · []))

/-- An initial value. -/
def initial (value : Element) : Element := part .initializer [token .operator "=", value]

/-- The file `int x = -5; int x(int a, int b); int x = 7; int f(int a) { return a; }
int f(int a, int b); int x(int a); int y;`. -/
def redeclaring : Production :=
  ⟨.compileUnit, 1, 1,
    [part .declaration (declared "x"
        [initial (part .unaryExpression [token .operator "-", token .number "5"])]),
      part .functionDeclaration (declared "x" [listed ["a", "b"]]),
      part .declaration (declared "x" [initial (token .number "7")]),
      part .functionDefinition (declared "f" [listed ["a"],
        part .block [part .statement [token .keyword "return", token .identifier "a"]]]),
      part .functionDeclaration (declared "f" [listed ["a", "b"]]),
      part .functionDeclaration (declared "x" [listed ["a"]]),
      part .declaration (declared "y" [])]⟩

end Sample

/-- The variable and the external function have one line each, although they share a name and
are declared again, and the function that is defined before it is declared has none. -/
theorem dataSection_redeclaring :
    ∃ arena emission lines, Compiler.build "sample.c" Sample.redeclaring = .ok arena ∧
      emissionOfArena {} arena = .ok emission ∧ emission.text = .ok (Asm.written {} lines) ∧
      between ".data" ".code" (lines.map Line.content) =
        ["x DWORD -5", "x PROTO :DWORD, :DWORD", "y DWORD ?"] := by
  obtain ⟨arena, emission, hbuild, hgenerate⟩ :
      ∃ arena emission, Compiler.build "sample.c" Sample.redeclaring = .ok arena ∧
        emissionOfArena {} arena = .ok emission := exists_emission_of_isOk (by decide +kernel)
  obtain ⟨unit, lines, hunit, -, htext, -, hdata⟩ := dataSection_generated_file hbuild hgenerate
  obtain rfl := Except.ok.inj
    (Eq.trans (show CompileUnit.ofProduction _ _ = .ok _ from rfl).symm hunit)
  obtain ⟨-, hbetween⟩ := hdata (by decide +kernel)
  refine ⟨arena, emission, lines, hbuild, hgenerate, htext, (hbetween (by decide +kernel)).trans ?_⟩
  decide +kernel

end MiniC
