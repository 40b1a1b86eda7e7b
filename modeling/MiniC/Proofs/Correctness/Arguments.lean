import MiniC.Proofs.Correctness.Functions
import MiniC.Proofs.Correctness.Names
import MiniC.Proofs.Machine.Calls

/-!
# Correctness of arguments

A caller hands arguments over by their places in the list: the one with the number `i` is
`8 + 4 * i` bytes above the `ebp` of the called function (`Machine.delivers_of_arguments`).  The
function looks its parameters up by name, and its frame has a slot for each different name.
So the two sides agree on a parameter as long as the names of the parameters before it are
different from each other (`arguments_generated_file`).  Where a name is repeated, the
parameters after the repetition are read from slots that are too low.
-/

namespace MiniC

open Asm (Instruction Operand Register)
open Ast (Arena)
open Codegen (emissionOfArena)
open Machine (Delivers Layout Memory State executeAll opening)
open ParseTree (Element Production)

/-! ## Slots of parameters -/

/-- The operand with which a function addresses the argument with a number. -/
def argumentSlot (index : Nat) : Operand := .frame (.ofInt (8 + 4 * index))

namespace FunctionDefinition

variable (definition : FunctionDefinition)

/-- Some code of a function uses a slot for one of its parameters: wherever the body reads the
parameter or assigns to it before a local of that name is declared, the instructions that
address variables begin with those of the occurrences before, and the next one has the slot. -/
structure UsesSlot (code : List Instruction) (name : String) (slot : Operand) : Prop where
  reads : ∀ earlier later, definition.body.occurrences = earlier ++ .read name :: later →
    name ∉ declaredIn earlier →
    definition.names.comments ++ accesses definition.parameterNames [] earlier ++
      [.mov Register.eax slot] <+: variableCode code
  assigns : ∀ earlier later, definition.body.occurrences = earlier ++ .assign name :: later →
    name ∉ declaredIn earlier →
    definition.names.comments ++ accesses definition.parameterNames [] earlier ++
      [.mov slot Register.eax] <+: variableCode code

/-- What an occurrence stands for comes after what the earlier ones stand for. -/
theorem prefix_variableCode (serial : Nat) {earlier later : List Occurrence}
    {occurrence : Occurrence} {instruction : Instruction}
    (hsplit : definition.body.occurrences = earlier ++ occurrence :: later)
    (hinstruction : occurrence.instruction? definition.parameterNames (declaredIn earlier) =
      some instruction) :
    definition.names.comments ++ accesses definition.parameterNames [] earlier ++ [instruction] <+:
      variableCode (definition.code serial) := by
  rw [definition.variableCode_code serial, hsplit, accesses_append, List.nil_append, accesses,
    hinstruction, ← List.append_assoc, ← List.append_assoc]
  exact List.prefix_append _ _

/-- A function uses the slot that goes with the position of a parameter among the different
names. -/
theorem usesSlot_parameter (serial : Nat) {name : String} (h : name ∈ definition.parameterNames) :
    definition.UsesSlot (definition.code serial) name
      (argumentSlot (position definition.parameterNames name)) := by
  have hslot : ∀ {earlier : List Occurrence}, name ∉ declaredIn earlier →
      operandOf definition.parameterNames (declaredIn earlier) name =
        argumentSlot (position definition.parameterNames name) := by
    intro earlier hearlier
    rw [operandOf, if_neg hearlier, if_pos h, argumentSlot]
  constructor
  · intro earlier later hsplit hearlier
    apply definition.prefix_variableCode serial hsplit
    rw [Occurrence.instruction?, hslot hearlier]
  · intro earlier later hsplit hearlier
    apply definition.prefix_variableCode serial hsplit
    rw [Occurrence.instruction?, hslot hearlier]

/-- A parameter whose name is there only once has the slot that goes with the number of different
names before it. -/
theorem usesSlot_getElem (serial : Nat) {index : Nat}
    (h : index < definition.parameterNames.length)
    (honce : definition.parameterNames.count definition.parameterNames[index] = 1) :
    definition.UsesSlot (definition.code serial) definition.parameterNames[index]
      (argumentSlot (definition.parameterNames.take index).eraseDups.length) := by
  rw [← position_of_count_eq_one h honce]
  exact definition.usesSlot_parameter serial (List.getElem_mem h)

/-- These are as many as the parameters before it if the names of those are different. -/
theorem length_eraseDups_take_iff {index : Nat} (h : index < definition.parameterNames.length) :
    (definition.parameterNames.take index).eraseDups.length = index ↔
      (definition.parameterNames.take index).Nodup := by
  have hlength : (definition.parameterNames.take index).length = index :=
    List.length_take_of_le (Nat.le_of_lt h)
  rw [← length_eraseDups_eq_iff, hlength]

/-! ## Values of arguments -/

variable {definition}

/-- The arguments of a call in a function arrive at the function that is called. -/
theorem delivers_of_mem_callSites {frame : Frame} {name : String} {values : List Expr}
    (hsite : (frame, name, values) ∈ definition.callSites) {layout : Layout} {oracle : Oracle}
    {world : World} {state : State} (hframe : layout.frame = definition.frame)
    (hvariables : ∀ name ∈ argumentNames values, frame.resolve name = .global name →
      name ∈ layout.globals)
    (hfollows : ∀ call ∈ argumentCalls values, layout.Follows oracle call.1 call.2)
    (represents : layout.Represents world state)
    (room : layout.Room (max (argumentNeed layout.reserve values) (4 * values.length + 8)) state)
    (callee : Frame) :
    Machine.Agrees (fun answer after => answer.1.length = values.length ∧
        Delivers layout.linkage name callee after answer.1)
      (evaluateArguments oracle frame values world)
      (executeAll layout.linkage (argumentCode frame values) state) := by
  have hwithin := definition.within_of_mem_callSites hsite
  rw [← hframe] at hwithin
  have hcovered : Machine.Covered layout oracle frame (argumentNames values)
      (argumentCalls values) := by
    refine ⟨?_, hfollows⟩
    intro name hname
    exact Layout.owns_resolve hwithin (hvariables name hname)
  exact Machine.delivers_of_arguments hcovered represents room name callee

end FunctionDefinition

/-- **Arguments and parameters.**  Where code is generated for a built program, let a function of
the program be called by one of its functions.  If the values of a world are in their places
and the stack has room, the code that stands before the `call` traps at a division if an
argument has no value, and otherwise leaves the values of the arguments where the called
function finds them at `[ebp+8+4*i]` after its prologue.  A parameter whose name is there only
once is addressed at the slot that goes with the number of different names before it, up to
the declaration of a local of the name.  That is the slot of the argument if the names before
it are different from each other, and only then. -/
theorem arguments_generated_file {file : String} {production : Production} {arena : Arena}
    {options : Asm.Options} {emission : Emission}
    (hbuild : Compiler.build file production = .ok arena)
    (hgenerate : emissionOfArena options arena = .ok emission) :
    ∃ unit, CompileUnit.ofProduction file production = .ok unit ∧
      emission.functions = unit.functions.map Prod.snd ∧
      ∀ callee serial, (callee, serial) ∈ unit.functions →
        ∃ buffer, emission.assemble serial = .ok buffer ∧
          opening callee.name callee.names <+: buffer.instructions ∧
          (∀ (index : Nat) (h : index < callee.parameterNames.length),
            callee.parameterNames.count callee.parameterNames[index] = 1 →
            callee.UsesSlot buffer.instructions callee.parameterNames[index]
                (argumentSlot (callee.parameterNames.take index).eraseDups.length) ∧
              ((callee.parameterNames.take index).eraseDups.length = index ↔
                (callee.parameterNames.take index).Nodup)) ∧
          ∀ caller number, (caller, number) ∈ unit.functions →
            ∃ callerBuffer, emission.assemble number = .ok callerBuffer ∧
              ∀ frame values, (frame, callee.name, values) ∈ caller.callSites →
                callCode frame callee.name values <:+: callerBuffer.instructions ∧
                ∀ (layout : Layout) (oracle : Oracle) (world : World) (state : State),
                  layout.frame = caller.frame →
                  (∀ name ∈ argumentNames values, frame.resolve name = .global name →
                    name ∈ layout.globals) →
                  (∀ call ∈ argumentCalls values, layout.Follows oracle call.1 call.2) →
                  layout.Represents world state →
                  layout.Room (max (argumentNeed layout.reserve values) (4 * values.length + 8))
                    state →
                  match evaluateArguments oracle frame values world with
                  | none =>
                      executeAll layout.linkage (argumentCode frame values) state = .error .divide
                  | some (results, _) =>
                      results.length = values.length ∧
                        ∃ middle,
                          executeAll layout.linkage (argumentCode frame values) state =
                            .ok middle ∧
                          Delivers layout.linkage callee.name callee.names middle results := by
  obtain ⟨unit, hunit, hfile⟩ := fileAt_of_build hbuild hgenerate
  refine ⟨unit, hunit, hfile.functions_eq, ?_⟩
  intro callee serial hcallee
  obtain ⟨buffer, hbuffer, hcode⟩ := instructions_of_lays_function hfile hcallee
  refine ⟨buffer, hbuffer, ?_, ?_, ?_⟩
  · rw [hcode]
    exact callee.opening_prefix_code serial
  · intro index h honce
    rw [hcode]
    exact ⟨callee.usesSlot_getElem serial h honce, callee.length_eraseDups_take_iff h⟩
  -- the other side of a call: what the code of a caller leaves on the stack
  · intro caller number hcaller
    obtain ⟨callerBuffer, hcallerBuffer, hcallerCode⟩ := instructions_of_lays_function hfile hcaller
    refine ⟨callerBuffer, hcallerBuffer, ?_⟩
    intro frame values hsite
    rw [hcallerCode]
    refine ⟨caller.callCode_infix_of_mem number hsite, ?_⟩
    intro layout oracle world state hframe hvariables hfollows represents room
    have hagrees := FunctionDefinition.delivers_of_mem_callSites hsite hframe hvariables hfollows
      represents room callee.names
    cases hresults : evaluateArguments oracle frame values world with
    | none =>
        rw [hresults] at hagrees
        exact hagrees
    | some answer =>
        rw [hresults] at hagrees
        obtain ⟨middle, hmiddle, hlength, hdelivers⟩ := hagrees
        exact ⟨hlength, middle, hmiddle, hdelivers⟩

/-! ## A function with a repeated parameter -/

namespace Sample

/-- The type and the name of a parameter. -/
def parameter (name : String) : List Element :=
  [part .typeSpecifier [token .typeName "int"], token .identifier name]

/-- A function with a body of one `return`. -/
def returning (name : String) (parameters : List Element) (value : Element) : Element :=
  part .functionDefinition (parameter name ++
    [part .fargs parameters,
      part .block [part .statementList [part .statement [token .keyword "return", value]]]])

/-- The file `int f(int a, int a, int b) { return b; } int main() { return f(1, 2, 3); }`. -/
def repeated : Production :=
  ⟨.compileUnit, 1, 1,
    [returning "f" (parameter "a" ++ parameter "a" ++ parameter "b") (token .identifier "b"),
      returning "main" [] (part .callExpression [token .identifier "f",
        part .args [token .number "1", token .number "2", token .number "3"]])]⟩

/-- Code is generated for the file. -/
theorem generated_repeated : ∃ arena emission, Compiler.build "sample.c" repeated = .ok arena ∧
    emissionOfArena {} arena = .ok emission :=
  exists_emission_of_isOk (by decide +kernel)

/-- The arguments of the call. -/
def passed : List Expr := [.number place 1, .number place 2, .number place 3]

/-- A function of the file. -/
def returningDefinition (name : String) (parameters : List String) (value : Expr) :
    FunctionDefinition where
  location := place
  name := name
  returnType := "int"
  returnTypeLocation := place
  parameters := some ⟨place, parameters.map (⟨place, ·, "int"⟩)⟩
  body := ⟨place, [.returnValue place (some value)]⟩

/-- The function with the repeated parameter. -/
def repeating : FunctionDefinition := returningDefinition "f" ["a", "a", "b"] (.name place "b")

/-- The function that calls it. -/
def main : FunctionDefinition :=
  returningDefinition "main" [] (.call place "f" (some ⟨place, passed⟩))

theorem ofProduction_repeated : CompileUnit.ofProduction "sample.c" repeated =
    .ok ⟨place, [.function repeating, .function main]⟩ := by rfl

/-- A stack that starts at the address 4096, for a function without names. -/
def mainLayout : Layout := { layout with frame := { name := "main" }, globals := [] }

theorem represents_main : mainLayout.Represents world state where
  fits := by
    refine ⟨by decide, by decide, ?_, ?_⟩
    · intro name hname
      cases hname
    · intro name hname
      cases hname
  values_eq place howns := by
    cases place with
    | localSlot offset =>
        obtain ⟨position, hposition, -⟩ := howns
        cases hposition
    | parameterSlot offset =>
        obtain ⟨position, hposition, -⟩ := howns
        cases hposition
    | global name => cases howns
  calls_eq := rfl

end Sample

/-- The third argument arrives at `[ebp+16]`, and the function uses `[ebp+12]` for its third
parameter. -/
theorem arguments_generated_sample :
    ∃ arena emission buffer middle start,
      Compiler.build "sample.c" Sample.repeated = .ok arena ∧
      emissionOfArena {} arena = .ok emission ∧ emission.assemble 1 = .ok buffer ∧
      Sample.repeating.parameterNames = ["a", "a", "b"] ∧
      Sample.repeating.UsesSlot buffer.instructions "b" (argumentSlot 1) ∧
      executeAll Sample.mainLayout.linkage (argumentCode Sample.mainLayout.frame Sample.passed)
        Sample.state = .ok middle ∧
      executeAll Sample.mainLayout.linkage (opening "f" Sample.repeating.names) (middle.push 64) =
        .ok start ∧
      start.memory.load (start.ebp + 16) = 3 := by
  obtain ⟨arena, emission, hbuild, hgenerate⟩ := Sample.generated_repeated
  obtain ⟨unit, hunit, -, hall⟩ := arguments_generated_file hbuild hgenerate
  obtain rfl := Except.ok.inj (Sample.ofProduction_repeated.symm.trans hunit)
  obtain ⟨buffer, hbuffer, -, hslots, hcallers⟩ := hall Sample.repeating 1 List.mem_cons_self
  obtain ⟨huses, -⟩ := hslots 2 (by decide) (by decide)
  obtain ⟨callerBuffer, -, hsites⟩ :=
    hcallers Sample.main _ (List.mem_cons_of_mem _ (List.mem_singleton_self _))
  obtain ⟨-, hruns⟩ := hsites _ Sample.passed (List.mem_singleton_self _)
  obtain ⟨-, middle, hmiddle, hdelivers⟩ :=
    hruns Sample.mainLayout Sample.oracle Sample.world Sample.state rfl
      (fun _ hname => nomatch hname) (fun _ hcall => nomatch hcall) Sample.represents_main
      ⟨by decide, by decide⟩
  obtain ⟨start, hstart, hloads⟩ := hdelivers 64
  exact ⟨arena, emission, buffer, middle, start, hbuild, hgenerate, hbuffer, rfl, huses, hmiddle,
    hstart, hloads 2 (by decide)⟩

/-- A parameter after a repeated one is not read from the slot of its argument. -/
theorem read_of_repeated_parameter :
    ∃ arena emission buffer, Compiler.build "sample.c" Sample.repeated = .ok arena ∧
      emissionOfArena {} arena = .ok emission ∧ emission.assemble 1 = .ok buffer ∧
      Instruction.mov Register.eax (argumentSlot 1) ∈ buffer.instructions ∧
      Instruction.mov Register.eax (argumentSlot 2) ∉ buffer.instructions := by
  obtain ⟨arena, emission, hbuild, hgenerate⟩ := Sample.generated_repeated
  obtain ⟨unit, hunit, hfile⟩ := fileAt_of_build hbuild hgenerate
  obtain rfl := Except.ok.inj (Sample.ofProduction_repeated.symm.trans hunit)
  have hcallee : (Sample.repeating, 1) ∈
      CompileUnit.functions ⟨Sample.place, [.function Sample.repeating, .function Sample.main]⟩ :=
    List.mem_cons_self
  obtain ⟨buffer, hbuffer, hcode⟩ := instructions_of_lays_function hfile hcallee
  refine ⟨arena, emission, buffer, hbuild, hgenerate, hbuffer, ?_, ?_⟩
  · rw [hcode]
    decide +kernel
  · rw [hcode]
    decide +kernel

end MiniC
