import MiniC.Proofs.Codegen.Expressions
import MiniC.Proofs.Machine.Callees
import MiniC.Proofs.Machine.Expressions

/-!
# Correctness of the code of expressions

What code generation makes of the tree of an expression in a function, put on the
machine: it computes the value of the expression, or traps where the expression
has none.  The two halves are `Codegen.yields_of_expression`, which says what the
instructions are, and `Machine.computes_of_expression`, which says what they do.
-/

namespace MiniC

open Ast (Tree)
open Codegen (Scope generate)
open Machine (Covered Layout Linkage State executeAll)

/-- **Correctness of expressions.**  In a function, code generation of the tree of
an expression ends with a leaf.  Run where the values of a world are in their
places and the stack has room, the instructions of the leaf trap at a division
if the expression has no value, and otherwise leave its value in `eax`, the
stack and the frame as they were, and the values of the world after it in the
places. -/
theorem execute_generated_expression {scope : Scope} {emission : Emission} {function : Nat}
    {frame : Frame} {tree : Tree} {expr : Expr} (hfunction : scope.function = some function)
    (hframe : emission.frame function = .ok frame) (hparent : scope.parent < emission.nodes.size)
    (hexpr : tree.expression? = some expr) :
    ∃ after buffer, generate scope tree emission = .ok emission.nodes.size after ∧
      after.leaf emission.nodes.size = .ok buffer ∧
      ∀ (layout : Layout) (oracle : Oracle) (world : World) (state : State),
        layout.frame = frame →
        (∀ name ∈ expr.names, frame.resolve name = .global name → name ∈ layout.globals) →
        (∀ call ∈ expr.calls, layout.Follows oracle call.1 call.2) →
        layout.Represents world state → layout.Room (expr.need layout.reserve) state →
        match expr.evaluate oracle frame world with
        | none => executeAll layout.linkage buffer.instructions state = .error .divide
        | some (value, next) =>
            ∃ final, executeAll layout.linkage buffer.instructions state = .ok final ∧
              final.eax = value.toBitVec ∧ final.esp = state.esp ∧ final.ebp = state.ebp ∧
              layout.Represents next final := by
  obtain ⟨after, hgenerate, hgrows⟩ :=
    Codegen.yields_of_expression tree hexpr scope emission function frame hfunction hframe hparent
  refine ⟨after, _, hgenerate, hgrows.holds.leaf_eq, ?_⟩
  rintro layout oracle world state rfl hvariables hfollows represents room
  rw [Asm.Buffer.instructions_holding]
  have hcovered : Covered layout oracle layout.frame expr.names expr.calls :=
    ⟨fun name hname => Layout.owns_resolve (.refl _) (hvariables name hname), hfollows⟩
  -- from here on only the code counts, not the tree that it was kept in
  have hagrees := Machine.computes_of_expression expr hcovered world state represents room
  cases hvalue : expr.evaluate oracle layout.frame world with
  | none =>
      rw [hvalue] at hagrees
      exact hagrees
  | some answer =>
      rw [hvalue] at hagrees
      obtain ⟨final, hfinal, computed⟩ := hagrees
      exact ⟨final, hfinal, computed.eax_eq, computed.esp_eq, computed.keeps.ebp_eq,
        computed.represents⟩

/-! ## An expression on the machine -/

namespace Sample

open Machine (Memory)

/-- A function `f` with a parameter `a` and a local `x`. -/
def frame : Frame := { name := "f", parameters := ["a"], locals := ["x"] }

/-- A file with the function alone. -/
def emission : Emission :=
  { nodes := #[⟨none, 0, 0, .file [] []⟩, ⟨some 0, 0, 1, .function [] [] frame⟩]
    globals := {}
    options := {} }

/-- A call of a function with numbers. -/
def calling (name : String) (arguments : List Int32) : Expr :=
  .call .unknown name (some ⟨.unknown, arguments.map (.number .unknown)⟩)

/-- The expression `x = sum(1) - sum(1, 2)`. -/
def expr : Expr :=
  .assign .unknown .unknown "x" (.binary .unknown .sub (calling "sum" [1]) (calling "sum" [1, 2]))

/-- Every function adds up its arguments, and one to each variable. -/
def oracle : Oracle := fun _ call globals => (call.arguments.sum, fun name => globals name + 1)

/-- Functions that follow the oracle, and one variable. -/
def linkage (global : String) : Linkage :=
  { address := fun _ => 256, callee := Machine.answering oracle (fun _ => 256) [global] }

/-- A stack that starts at the address 4096, above the only variable. -/
def layout : Layout :=
  { linkage := linkage "g"
    frame
    globals := ["g"]
    bottom := 4096
    reserve := 16 }

/-- A world in which everything is zero. -/
def world : World := ⟨fun _ => 0, []⟩

/-- A machine whose memory is zero. -/
def state : State :=
  { eax := 1, ebx := 2, ecx := 3, edx := 4, ebp := 8192, esp := 8188, flags := none
    memory := fun _ => 0, calls := [] }

theorem oracle_localTo (names : List String) : oracle.LocalTo names :=
  fun _ _ _ _ h => ⟨rfl, fun name hname => congrArg (· + 1) (h name hname)⟩

theorem follows {layout : Layout} {global : String} (hlinkage : layout.linkage = linkage global)
    (hglobals : layout.globals = [global]) (name : String) (count : Nat) :
    layout.Follows oracle name count := by
  apply Machine.follows_answering ?_ (oracle_localTo _)
  · intro name hname
    rw [hlinkage]
    exact (by decide : 256 + 4 ≤ 4294967296)
  · rw [hglobals]
    intro name hname other hother hne
    obtain rfl := List.mem_singleton.mp hname
    obtain rfl := List.mem_singleton.mp hother
    exact absurd rfl hne
  · rw [hlinkage, hglobals]
    rfl

theorem represents : layout.Represents world state where
  fits := by
    refine ⟨by decide, by decide, fun name hname => ?_, fun name hname other hother hne => ?_⟩
    · exact ⟨(by decide : 256 + 4 ≤ 4294967296), .inl (by decide : 256 + 4 ≤ 4096)⟩
    · obtain rfl := List.mem_singleton.mp hname
      obtain rfl := List.mem_singleton.mp hother
      exact absurd rfl hne
  values_eq _ _ := by simp [Memory.load, state, world]
  calls_eq := rfl

theorem room : layout.Room (expr.need layout.reserve) state := ⟨by decide, by decide⟩

end Sample

/-- On the sample the expression is computed: `eax` and the local are -2.  One function is
called with one argument and with two. -/
theorem execute_generated_sample :
    ∃ after buffer final, generate ⟨1, some 1, none⟩ Sample.expr.toTree Sample.emission =
        .ok 2 after ∧ after.leaf 2 = .ok buffer ∧
      executeAll Sample.layout.linkage buffer.instructions Sample.state = .ok final ∧
      final.eax = -2 ∧ final.esp = 8188 ∧ final.ebp = 8192 ∧ final.memory.load 8188 = -2 ∧
      final.memory.load 256 = 2 ∧ final.calls = [⟨"sum", [1]⟩, ⟨"sum", [1, 2]⟩] := by
  obtain ⟨after, buffer, hgenerate, hbuffer, hrun⟩ :=
    @execute_generated_expression ⟨1, some 1, none⟩ Sample.emission 1 Sample.frame
      Sample.expr.toTree Sample.expr rfl rfl (by decide) (expression?_toTree Sample.expr)
  obtain ⟨final, hfinal, heax, hesp, hebp, represents⟩ :=
    hrun Sample.layout Sample.oracle Sample.world Sample.state rfl (by decide)
      (fun call _ => Sample.follows rfl rfl call.1 call.2) Sample.represents Sample.room
  have hlocal := represents.values_eq (.localSlot (-4)) ⟨0, by decide, by decide⟩
  have hglobal := represents.values_eq (.global "g") (List.mem_singleton_self _)
  rw [hebp] at hlocal
  exact ⟨after, buffer, final, hgenerate, hbuffer, hfinal, heax, hesp, hebp, hlocal, hglobal,
    represents.calls_eq⟩

end MiniC
