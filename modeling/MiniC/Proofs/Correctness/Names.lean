import MiniC.Proofs.Correctness.Files
import MiniC.Proofs.Machine.Functions
import MiniC.Proofs.Translation.Occurrences

/-!
# Names in generated files

Each name in the body of a generated function is the slot of the local, of the parameter
or the variable of the file that it should be, and the frame is laid out for the different
names of the function (`names_generated_file`).

Slots are numbered with 32 bits.  Where a function has less than half a thousand million
names of a sort (`OffsetsFit`), the numbers are the distances in bytes that they should be.
-/

namespace MiniC

open Asm (Instruction Operand Register)
open Ast (Arena)
open Codegen (emissionOfArena)
open Emission (prologue)
open Machine (opening)
open ParseTree (Production)

/-! ## Comments -/

theorem parameterComment_eq {position : Nat} (h : 8 + 4 * position < 2147483648) (name : String) :
    parameterComment position name = .comment ("param " ++ name ++ " at " ++
      (Operand.frame (Frame.parameterOffsetAt position)).text) := by
  have hat : " at [ebp+" = " at " ++ "[ebp+" := by decide
  rw [parameterComment, Frame.text_parameterOffsetAt h, hat]
  simp only [String.append_assoc]

theorem localComment_eq {position : Nat} (h : 4 * (position + 1) < 2147483648) (name : String) :
    localComment position name = .comment ("local " ++ name ++ " at " ++
      (Operand.frame (Frame.localOffsetAt position)).text) := by
  have hat : " at [ebp-" = " at " ++ "[ebp-" := by decide
  rw [localComment, Frame.text_localOffsetAt h, hat]
  simp only [String.append_assoc]

/-! ## Frames -/

namespace FunctionDefinition

variable {definition : FunctionDefinition}

/-- The code of a function begins with its opening, which is for the different names. -/
theorem opening_prefix_code (definition : FunctionDefinition) (serial : Nat) :
    opening definition.name definition.names <+: definition.code serial := by
  unfold code opening
  rw [definition.finalFrame_eq_names]
  simp only [List.append_assoc, List.prefix_append_right_inj]
  exact List.prefix_append _ _

/-- All slots of a function are within reach of a signed 32-bit offset. -/
structure OffsetsFit (definition : FunctionDefinition) : Prop where
  parameters_fit : 8 + 4 * definition.names.parameters.length ≤ 2147483648
  locals_fit : 4 * definition.names.locals.length < 2147483648

theorem length_locals_eq_zero :
    definition.names.locals.length = 0 ↔ definition.localNames = [] := by
  rw [List.length_eq_zero_iff, names]
  cases definition.localNames with
  | nil => simp
  | cons name names => simp [List.eraseDups_cons]

/-- The prologue takes four bytes from the stack for each different local. -/
theorem prologue_names (fit : definition.OffsetsFit) :
    prologue definition.names =
      [.push Register.ebp, .mov Register.ebp Register.esp] ++
        if definition.localNames = [] then []
        else [.sub .esp (.immediate (.ofNat (4 * definition.names.locals.length)))] := by
  have hbytes := Frame.toInt_localBytes fit.locals_fit
  have hsame : definition.names.localBytes = .ofNat (4 * definition.names.locals.length) := by
    unfold Frame.localBytes
    rw [Nat.mul_comm, Int32.ofNat_mul]
    rfl
  have hpositive : 0 < definition.names.localBytes ↔ ¬ definition.localNames = [] := by
    rw [Int32.lt_iff_toInt_lt, hbytes, ← length_locals_eq_zero]
    show (0 : Int) < _ ↔ _
    omega
  unfold prologue
  by_cases hempty : definition.localNames = []
  · rw [if_pos hempty, if_neg fun h => hpositive.mp h hempty]
  · rw [if_neg hempty, if_pos (hpositive.mpr hempty), hsame]

/-- A local that has been declared has its slot in the bytes that the prologue takes. -/
theorem slot_reserved (fit : definition.OffsetsFit) {earlier : List String} {name : String}
    (hearlier : earlier <+: definition.localNames) (h : name ∈ earlier) :
    -(4 * definition.names.locals.length : Int) ≤
        (Int32.ofInt (-4 * (position earlier name + 1))).toInt ∧
      (Int32.ofInt (-4 * (position earlier name + 1))).toInt + 4 ≤ 0 := by
  obtain ⟨later, hlater⟩ := hearlier
  have hlt : position earlier name < definition.names.locals.length := by
    rw [← position_append h later, hlater]
    exact position_lt (hlater ▸ List.mem_append_left later h)
  have hfit := fit.locals_fit
  have hoffset : (Frame.localOffsetAt (position earlier name)).toInt =
      -4 * (position earlier name + 1) := Frame.toInt_localOffsetAt (by omega)
  rw [← Frame.localOffsetAt_eq, hoffset]
  omega

/-- The comments show the operands of the slots. -/
theorem comments_names (fit : definition.OffsetsFit) :
    definition.names.comments =
      definition.names.parameters.map (fun name => .comment ("param " ++ name ++ " at " ++
        (operandOf definition.parameterNames [] name).text)) ++
      definition.names.locals.map fun name => .comment ("local " ++ name ++ " at " ++
        (operandOf definition.parameterNames definition.localNames name).text) := by
  have hparameters := fit.parameters_fit
  have hlocals := fit.locals_fit
  unfold Frame.comments
  congr 1
  -- the comment shows the place in the frame, which is that of the first declaration
  · apply List.ext_getElem (by simp)
    intro index hindex _
    rw [List.length_mapIdx] at hindex
    have hmem : definition.names.parameters[index] ∈ definition.parameterNames :=
      List.mem_eraseDups.mp (List.getElem_mem hindex)
    have hposition :
        position definition.parameterNames definition.names.parameters[index] = index :=
      position_getElem_eraseDups definition.parameterNames index hindex
    rw [List.getElem_mapIdx, List.getElem_map, operandOf_parameter List.not_mem_nil hmem,
      hposition, parameterComment_eq (by omega)]
  · apply List.ext_getElem (by simp)
    intro index hindex _
    rw [List.length_mapIdx] at hindex
    have hmem : definition.names.locals[index] ∈ definition.localNames :=
      List.mem_eraseDups.mp (List.getElem_mem hindex)
    have hposition : position definition.localNames definition.names.locals[index] = index :=
      position_getElem_eraseDups definition.localNames index hindex
    rw [List.getElem_mapIdx, List.getElem_map, operandOf_local hmem, hposition,
      localComment_eq (by omega)]

end FunctionDefinition

/-- **Resolution of names.**  Where code is generated for a built program, the nodes of
functions are those of the functions of the program.  Apart from comments, the instructions
of each of them that address a variable are those of the reads, assignments and initial values
in its body, in order, each with the operand that the declarations before it give the name
(`operandOf`).  Prologue and comments come first and are for the different names of the
function.  As long as offsets fit, the prologue takes four bytes for each local, the slots of
locals are among them, and the comments show the operands. -/
theorem names_generated_file {file : String} {production : Production} {arena : Arena}
    {options : Asm.Options} {emission : Emission}
    (hbuild : Compiler.build file production = .ok arena)
    (hgenerate : emissionOfArena options arena = .ok emission) :
    ∃ unit, CompileUnit.ofProduction file production = .ok unit ∧
      emission.functions = unit.functions.map Prod.snd ∧
      ∀ definition serial, (definition, serial) ∈ unit.functions →
        ∃ buffer, emission.assemble serial = .ok buffer ∧
          variableCode buffer.instructions = definition.names.comments ++
            accesses definition.parameterNames [] definition.body.occurrences ∧
          [.proc definition.name] ++ (prologue definition.names ++ definition.names.comments) <+:
            buffer.instructions ∧
          (definition.OffsetsFit →
            prologue definition.names = [.push Register.ebp, .mov Register.ebp Register.esp] ++
              (if definition.localNames = [] then []
              else [.sub .esp (.immediate (.ofNat (4 * definition.names.locals.length)))]) ∧
            (∀ earlier name, earlier <+: definition.localNames → name ∈ earlier →
              -(4 * definition.names.locals.length : Int) ≤
                  (Int32.ofInt (-4 * (position earlier name + 1))).toInt ∧
                (Int32.ofInt (-4 * (position earlier name + 1))).toInt + 4 ≤ 0) ∧
            definition.names.comments =
              definition.names.parameters.map (fun name => .comment ("param " ++ name ++ " at " ++
                (operandOf definition.parameterNames [] name).text)) ++
              definition.names.locals.map fun name => .comment ("local " ++ name ++ " at " ++
                (operandOf definition.parameterNames definition.localNames name).text)) := by
  obtain ⟨unit, hunit, hfile⟩ := fileAt_of_build hbuild hgenerate
  refine ⟨unit, hunit, hfile.functions_eq, ?_⟩
  intro definition serial hfunction
  obtain ⟨buffer, hbuffer, hcode⟩ := instructions_of_lays_function hfile hfunction
  refine ⟨buffer, hbuffer, ?_, ?_, ?_⟩
  · rw [hcode]
    exact definition.variableCode_code serial
  · rw [hcode]
    exact definition.opening_prefix_code serial
  · intro fit
    refine ⟨FunctionDefinition.prologue_names fit, ?_, FunctionDefinition.comments_names fit⟩
    intro earlier name hearlier hname
    exact FunctionDefinition.slot_reserved fit hearlier hname

/-! ## A function with a shadowed parameter -/

namespace Sample

/-- The file `int f(int x) { int x = x; while (x) { int y = 1; } y = x; }`. -/
def shadowing : Production :=
  ⟨.compileUnit, 1, 1,
    [part .functionDefinition [part .typeSpecifier [token .typeName "int"],
      token .identifier "f",
      part .fargs [part .typeSpecifier [token .typeName "int"], token .identifier "x"],
      part .block [part .statementList
        [part .localDeclaration [part .typeSpecifier [token .typeName "int"],
            token .identifier "x", token .operator "=", token .identifier "x"],
          part .whileStatement [token .keyword "while", token .identifier "x",
            part .block [part .statementList
              [part .localDeclaration [part .typeSpecifier [token .typeName "int"],
                token .identifier "y", token .operator "=", token .number "1"]]]],
          part .statement [part .assignExpression
            [token .identifier "y", token .operator "=", token .identifier "x"]]]]]]⟩

end Sample

/-- The initial value of the local is the parameter that it hides, and there are eight bytes for
the two locals. -/
theorem names_generated_sample :
    ∃ arena emission buffer, Compiler.build "sample.c" Sample.shadowing = .ok arena ∧
      emissionOfArena {} arena = .ok emission ∧ emission.assemble 1 = .ok buffer ∧
      variableCode buffer.instructions =
        [.comment "param x at [ebp+8]", .comment "local x at [ebp-4]",
          .comment "local y at [ebp-8]", .mov Register.eax (.frame 8),
          .mov (.frame (-4)) Register.eax, .mov Register.eax (.frame (-4)),
          .mov (.frame (-8)) Register.eax, .mov Register.eax (.frame (-4)),
          .mov (.frame (-8)) Register.eax] ∧
      [.proc "f", .push Register.ebp, .mov Register.ebp Register.esp,
        .sub .esp (.immediate 8)] <+: buffer.instructions := by
  obtain ⟨arena, emission, hbuild, hgenerate⟩ :
      ∃ arena emission, Compiler.build "sample.c" Sample.shadowing = .ok arena ∧
        emissionOfArena {} arena = .ok emission := exists_emission_of_isOk (by decide +kernel)
  obtain ⟨unit, hunit, -, hall⟩ := names_generated_file hbuild hgenerate
  obtain rfl := Except.ok.inj
    (Eq.trans (show CompileUnit.ofProduction _ _ = .ok _ from rfl).symm hunit)
  obtain ⟨buffer, hbuffer, hcode, hopens, hfits⟩ := hall _ 1 (List.mem_singleton_self _)
  obtain ⟨hprologue, -, -⟩ := hfits ⟨by decide +kernel, by decide +kernel⟩
  rw [hprologue] at hopens
  refine ⟨arena, emission, buffer, hbuild, hgenerate, hbuffer, hcode.trans ?_, ?_⟩
  · decide +kernel
  · refine List.IsPrefix.trans ?_ hopens
    decide +kernel

end MiniC
