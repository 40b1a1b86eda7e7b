import MiniC.Proofs.Codegen.Breaks
import MiniC.Proofs.Correctness.Expressions
import MiniC.Proofs.Correctness.Files
import MiniC.Proofs.Machine.Functions

/-!
# Correctness of generated functions

What is assembled from the node of a function, put on the machine: it simulates the
interpreter of statements in both directions.  That the instructions are those of the
function is `Codegen.FileAt.lays_function`; what they do is
`Machine.returns_of_finished` and `Machine.finished_of_returns`.
-/

namespace MiniC

open Ast (Arena)
open Codegen (emissionOfArena)
open Machine (Hosts Layout Memory Returns State)
open ParseTree (Element Production)

/-- **Correctness of functions.**  Where code is generated for a built program, the
nodes of functions are those of the functions of the program.  Put on a machine where
the function is entered with the values of a world in their places, the instructions of
each of them come to `ret` if the interpreter finishes with some budget, and the
interpreter finishes if they come to `ret`.  Either way the function leaves with the value
and the world that the interpreter has come to, which do not depend on the budget. -/
theorem execute_generated_function {file : String} {production : Production} {arena : Arena}
    {options : Asm.Options} {emission : Emission}
    (hbuild : Compiler.build file production = .ok arena)
    (hgenerate : emissionOfArena options arena = .ok emission) :
    ∃ unit, CompileUnit.ofProduction file production = .ok unit ∧
      emission.functions = unit.functions.map Prod.snd ∧
      ∀ definition serial, (definition, serial) ∈ unit.functions →
        ∃ buffer, emission.assemble serial = .ok buffer ∧
          ∀ (layout : Layout) (oracle : Oracle) (need : Nat) (world : World) (state : State),
            layout.frame = definition.frame → Hosts layout oracle need definition.expressions →
            layout.Enters need world state →
            (∀ budget value next,
              (definition.run oracle budget world).finished? = some (value, next) →
                ∃ final, Returns layout.linkage buffer.instructions state final ∧
                  layout.Leaves value next state final) ∧
            ∀ final, Returns layout.linkage buffer.instructions state final →
              ∃ value next, layout.Leaves value next state final ∧
                (∃ budget, (definition.run oracle budget world).finished? = some (value, next)) ∧
                ∀ budget outcome, (definition.run oracle budget world).finished? = some outcome →
                  outcome = (value, next) := by
  obtain ⟨unit, hunit, rfl⟩ := unit_of_build hbuild
  rw [emissionOfArena_ofTree] at hgenerate
  have hfile := Codegen.fileAt_of_emissionOfTree hgenerate
  refine ⟨unit, hunit, hfile.functions_eq, ?_⟩
  intro definition serial hfunction
  obtain ⟨buffer, hbuffer, hcode⟩ := instructions_of_lays_function hfile hfunction
  have hbreaks := Codegen.breaksInLoops_of_emissionOfTree hgenerate hfunction
  refine ⟨buffer, hbuffer, ?_⟩
  intro layout oracle need world state hframe hosts enters
  rw [hcode]
  -- forwards by the simulation; backwards since the machine can do one thing only, and the
  -- answer is then that of every budget which is enough
  constructor
  · exact fun _ _ _ => Machine.returns_of_finished hframe hbreaks hosts enters serial
  · intro final hreturns
    obtain ⟨budget, value, next, hfinished, leaves⟩ :=
      Machine.finished_of_returns hframe hbreaks hosts enters serial hreturns
    exact ⟨value, next, leaves, ⟨budget, hfinished⟩,
      fun other outcome hother => definition.finished?_unique hother hfinished⟩

/-! ## A function on the machine -/

namespace Sample

/-- Where everything of the sample file is. -/
def place : Location := ⟨"sample.c", 1, 1⟩

/-- A call of `sum` in a parse tree. -/
def sumOf (arguments : List Element) : Element :=
  part .callExpression [token .identifier "sum", part .args arguments]

/-- The file `int y; int f(int x) { while (sum(x)) break; return sum(x, 2); }`. -/
def summing : Production :=
  ⟨.compileUnit, 1, 1,
    [part .declaration [part .typeSpecifier [token .typeName "int"], token .identifier "y"],
      part .functionDefinition [part .typeSpecifier [token .typeName "int"],
        token .identifier "f",
        part .fargs [part .typeSpecifier [token .typeName "int"], token .identifier "x"],
        part .block [part .statementList
          [part .whileStatement [token .keyword "while", sumOf [token .identifier "x"],
              part .statement [token .keyword "break"]],
            part .statement [token .keyword "return",
              sumOf [token .identifier "x", token .number "2"]]]]]]⟩

/-- Code is generated for the file. -/
theorem generated_summing : ∃ arena emission, Compiler.build "sample.c" summing = .ok arena ∧
    emissionOfArena {} arena = .ok emission :=
  exists_emission_of_isOk (by decide +kernel)

/-- A call of `sum`. -/
def sumCall (arguments : List Expr) : Expr := .call place "sum" (some ⟨place, arguments⟩)

/-- The function of the file. -/
def adder : FunctionDefinition where
  location := place
  name := "f"
  returnType := "int"
  returnTypeLocation := place
  parameters := some ⟨place, [⟨place, "x", "int"⟩]⟩
  body := ⟨place,
    [.whileLoop place (sumCall [.name place "x"]) (.breakLoop place),
      .returnValue place (some (sumCall [.name place "x", .number place 2]))]⟩

/-- The program of the file. -/
def summingUnit : CompileUnit :=
  ⟨place, [.global ⟨place, place, "int", place, "y", none⟩, .function adder]⟩

theorem ofProduction_summing :
    CompileUnit.ofProduction "sample.c" summing = .ok summingUnit := by rfl

theorem mem_functions : (adder, 3) ∈ summingUnit.functions := by
  rw [show summingUnit.functions = [(adder, 3)] from rfl]
  exact List.mem_singleton_self _

/-- A stack that starts at the address 4096, above the only variable. -/
def functionLayout : Layout :=
  { linkage := linkage "y"
    frame := { name := "f", parameters := ["x"] }
    globals := ["y"]
    bottom := 4096
    reserve := 0 }

/-- A world in which the parameter is one and everything else is zero. -/
def argumentWorld : World := ⟨fun place => if place = .parameterSlot 8 then 1 else 0, []⟩

/-- A machine on which the function has been called with one. -/
def calledState : State :=
  { state with ebp := 9000, esp := 8192, memory := Memory.store (fun _ => 0) 8196 1 }

theorem hosts : Hosts functionLayout oracle 16 adder.expressions where
  globals_mem := by decide
  follows _ _ call _ := follows rfl rfl call.1 call.2
  need_le := by decide

theorem enters : functionLayout.Enters 16 argumentWorld calledState where
  represents := by
    refine ⟨⟨by decide, by decide, ?_, ?_⟩, ?_, rfl⟩
    · intro name hname
      exact ⟨(by decide : 256 + 4 ≤ 4294967296), .inl (by decide : 256 + 4 ≤ 4096)⟩
    · intro name hname other hother hne
      obtain rfl := List.mem_singleton.mp hname
      obtain rfl := List.mem_singleton.mp hother
      exact absurd rfl hne
    · intro place howns
      cases place with
      | localSlot offset =>
          obtain ⟨position, hposition, -⟩ := howns
          cases hposition
      | parameterSlot offset =>
          obtain ⟨position, hposition, rfl⟩ := howns
          obtain rfl : position = 0 := Nat.lt_one_iff.mp hposition
          exact Memory.load_store_self
      | global name => exact (by decide : (Memory.store (fun _ => 0) 8196 1).load 256 = 0)
  room := by decide
  size_lt := by decide

end Sample

/-- The function of the sample file, called with one, returns three.  It calls `sum` with one
argument and with two. -/
theorem execute_generated_function_sample :
    ∃ arena emission buffer final, Compiler.build "sample.c" Sample.summing = .ok arena ∧
      emissionOfArena {} arena = .ok emission ∧ emission.assemble 3 = .ok buffer ∧
      Returns Sample.functionLayout.linkage buffer.instructions Sample.calledState final ∧
      final.eax = 3 ∧ final.esp = 8192 ∧ final.ebp = 9000 ∧ final.memory.load 256 = 2 ∧
      final.calls = [⟨"sum", [1]⟩, ⟨"sum", [1, 2]⟩] := by
  obtain ⟨arena, emission, hbuild, hgenerate⟩ := Sample.generated_summing
  obtain ⟨unit, hunit, -, hall⟩ := execute_generated_function hbuild hgenerate
  obtain rfl := Except.ok.inj (Sample.ofProduction_summing.symm.trans hunit)
  obtain ⟨buffer, hbuffer, hrun⟩ := hall _ _ Sample.mem_functions
  obtain ⟨hreturns, -⟩ :=
    hrun Sample.functionLayout Sample.oracle 16 Sample.argumentWorld Sample.calledState rfl
      Sample.hosts Sample.enters
  obtain ⟨final, hfinal, leaves⟩ := hreturns 1 (some 3) _ rfl
  exact ⟨arena, emission, buffer, final, hbuild, hgenerate, hbuffer, hfinal, leaves.eax_eq 3 rfl,
    leaves.esp_eq, leaves.ebp_eq, leaves.variables_eq "y" (List.mem_singleton_self _),
    leaves.calls_eq⟩

end MiniC
