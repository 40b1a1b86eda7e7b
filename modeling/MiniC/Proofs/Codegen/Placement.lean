import MiniC.Codegen.Generate
import MiniC.Proofs.Ast.CompileUnits
import MiniC.Proofs.Emission.Tidy

/-!
# Code generation keeps emissions placed

The code of a tree without compile units is a new node that is in no list
(`makes_generate`).  Its caller appends it to a list of a composite that was made before,
absorbs it, or leaves it aside.  The lines that declarations add elsewhere are new nodes as
well, so that they come after their composites even where these were made long before.

A compile unit would not make a node: its code is the file itself.
-/

namespace MiniC.Codegen

open Ast (AllUnitFree Tree)
open Asm (Register)
open Emit (Makes MayMake Tidy)

theorem makes_blank (pending : List Nat) (scope : Scope) : Makes pending (blank scope) :=
  .create _ _

mutual

/-- **The code of a tree is a new node.** -/
theorem makes_generate (pending : List Nat) (scope : Scope) : (tree : Tree) → tree.UnitFree →
    Makes pending (generate scope tree)
  | .node kind location first second third, hfree => by
      obtain ⟨hkind, hfirst, hsecond, hthird⟩ := hfree
      unfold generate
      cases kind with
      | compileUnit => exact absurd rfl hkind
      | functionDefinition name returnType =>
          refine .seq (.discard (.registerFunction name)) fun _ _ =>
            .bind (.createFunction name) fun function => ?_
          let inner : Scope := ⟨function, some function, none⟩
          -- the parts go into the new function, which stays open until all of them are in it
          have hbody : Tidy (function :: pending) (fun _ => True) (do
              generateAll inner first
              generateInto inner function .functionBody second
              generateInto inner function .functionBody third) :=
            .bind (tidy_generateAll _ inner first hfirst) fun _ _ =>
              .bind (tidy_generateInto _ inner function (by simp) _ second hsecond) fun _ _ =>
              tidy_generateInto _ inner function (by simp) _ third hthird
          have hwhole : Tidy (function :: pending) (· = function) _ :=
            .inside function hbody (.pure rfl)
          simp only [bind_assoc] at hwhole
          exact hwhole
      | functionDeclaration name returnType =>
          exact .seq (.discard (.declareFunction _ _)) fun _ _ => makes_blank pending scope
      | globalDeclaration =>
          refine .seq (.ask _) ?_
          rintro ⟨name, others⟩ -
          exact .seq (.ask _) fun _ _ =>
            .seq (.discard (.declareVariable _ _)) fun _ _ => makes_blank pending scope
      | localDeclaration =>
          refine .seq (.ask _) fun function _ => .seq (.ask _) ?_
          rintro ⟨name, others⟩ -
          -- the leaf comes after the code of the initial value, if there is one
          refine .seq_maybe (mayMake_generateInitializer pending scope first hfirst) ?_
            fun value => ?_
          · exact .seq (.declareLocal function name) fun offset _ =>
              .bind (.create _ _) fun leaf => .pure rfl
          · exact .seq (.declareLocal function name) fun offset _ =>
              .bind (.create _ _) fun leaf => .bind (.absorb leaf (by simp)) fun _ _ =>
              .bind (.add leaf _) fun _ _ => .pure rfl
      | block =>
          exact .bind (.create _ _) fun compound => .inside compound
            (tidy_generateInto _ _ compound (by simp) _ first hfirst) (.pure rfl)
      | ifStatement =>
          refine .ite _ (.throw _) (.bind (.create _ _) fun conditional => ?_)
          exact .bind (tidy_generateInto _ _ conditional (by simp) _ first hfirst) fun _ _ =>
            .bind (tidy_generateInto _ _ conditional (by simp) _ second hsecond) fun _ _ =>
            .bind (tidy_generateInto _ _ conditional (by simp) _ third hthird) fun _ _ => .pure rfl
      | whileStatement =>
          refine .ite _ (.throw _) (.bind (.create _ _) fun loop => ?_)
          exact .bind (.ask _) fun loopEnd _ =>
            .bind (tidy_generateInto _ _ loop (by simp) _ first hfirst) fun _ _ =>
            .bind (tidy_generateInto _ _ loop (by simp) _ second hsecond) fun _ _ => .pure rfl
      | returnStatement =>
          refine .seq (.ask _) fun function _ => .bind (.create _ _) fun leaf => ?_
          -- the jump is the same with a value and without one
          have jump (pending : List Nat) : Tidy pending (· = leaf) (do
              let frame ← Emit.ask (·.frame function)
              Emit.add leaf (.jmp frame.exitLabel)
              return leaf) :=
            .bind (.ask _) fun frame _ => .bind (.add leaf _) fun _ _ => .pure rfl
          cases first with
          | nil => exact jump _
          | cons value others =>
              exact .making (makes_generate _ scope value hfirst.1) fun code =>
                .bind (.absorb leaf (by simp)) fun _ _ => jump _
      | breakStatement =>
          cases scope.loopEnd with
          | none => exact .throw _
          | some loopEnd =>
              exact .bind (.create _ _) fun leaf => .bind (.add leaf _) fun _ _ => .pure rfl
      | binary op =>
          match first, second with
          | [], _ | _ :: _, [] => exact .throw _
          | left :: _, right :: _ =>
              refine .bind (.create _ _) fun leaf =>
                .making (makes_generate _ scope left hfirst.1) fun code =>
                .bind (.absorb leaf (by simp)) fun _ _ => .bind (.add leaf _) fun _ _ => ?_
              exact .making (makes_generate _ scope right hsecond.1) fun code =>
                .bind (.absorb leaf (by simp)) fun _ _ => .bind (.add leaf _) fun _ _ =>
                .bind (.addAll leaf _) fun _ _ => .pure rfl
      | unary op =>
          match first with
          | [] => exact .throw _
          | operand :: _ =>
              exact .bind (.create _ _) fun leaf =>
                .making (makes_generate _ scope operand hfirst.1) fun code =>
                .bind (.absorb leaf (by simp)) fun _ _ =>
                .bind (.addAll leaf _) fun _ _ => .pure rfl
      | assignment =>
          match first, second with
          | [], _ | _ :: _, [] => exact .throw _
          | target :: _, value :: _ =>
              refine .seq (.ask _) fun name _ => .bind (.create _ _) fun leaf =>
                .making (makes_generate _ scope value hsecond.1) fun code =>
                .bind (.absorb leaf (by simp)) fun _ _ => ?_
              exact .bind (.ask _) fun place _ => .bind (.add leaf _) fun _ _ => .pure rfl
      | call name =>
          exact .bind (.create _ _) fun leaf =>
            .bind (tidy_generateLists _ scope leaf first hfirst) fun _ _ =>
            .bind (.add leaf _) fun _ _ => .bind (.addAll leaf _) fun _ _ => .pure rfl
      | number value =>
          exact .bind (.create _ _) fun leaf => .bind (.add leaf _) fun _ _ => .pure rfl
      | identifier name =>
          exact .seq (.ask _) fun place _ => .bind (.create _ _) fun leaf =>
            .bind (.add leaf _) fun _ _ => .pure rfl
      | parameter name type =>
          exact .seq (.ask _) fun function _ =>
            .seq (.discard (.declareParameter function name)) fun _ _ => makes_blank pending scope
      | parameterList =>
          exact .seq (tidy_generateAll pending scope first hfirst) fun _ _ =>
            makes_blank pending scope
      | typeSpecifier | argumentList => exact makes_blank pending scope

theorem tidy_generateAll (pending : List Nat) (scope : Scope) : (trees : List Tree) →
    AllUnitFree trees → Tidy pending (fun _ => True) (generateAll scope trees)
  | [], _ => by rw [generateAll]; exact .pure trivial
  | tree :: trees, hfree => by
      rw [generateAll]
      exact .bind (makes_generate pending scope tree hfree.1).tidy.discard fun _ _ =>
        tidy_generateAll pending scope trees hfree.2

theorem tidy_generateInto (pending : List Nat) (scope : Scope) (composite : Nat)
    (hcomposite : composite ∈ pending) (context : Emission.Context) : (trees : List Tree) →
    AllUnitFree trees → Tidy pending (fun _ => True) (generateInto scope composite context trees)
  | [], _ => by rw [generateInto]; exact .pure trivial
  | tree :: trees, hfree => by
      rw [generateInto]
      exact .attach (makes_generate pending scope tree hfree.1) hcomposite context
        (tidy_generateInto pending scope composite hcomposite context trees hfree.2)

theorem tidy_generateLists (pending : List Nat) (scope : Scope) (leaf : Nat) :
    (lists : List Tree) → AllUnitFree lists →
    Tidy pending (fun _ => True) (generateLists scope leaf lists)
  | [], _ => by rw [generateLists]; exact .pure trivial
  | .node _ _ arguments _ _ :: lists, hfree => by
      obtain ⟨⟨-, harguments, -, -⟩, hlists⟩ := hfree
      rw [generateLists]
      exact .bind (tidy_generateLists pending scope leaf lists hlists) fun _ _ =>
        tidy_generateArguments pending scope leaf arguments harguments

theorem tidy_generateArguments (pending : List Nat) (scope : Scope) (leaf : Nat) :
    (arguments : List Tree) → AllUnitFree arguments →
    Tidy pending (fun _ => True) (generateArguments scope leaf arguments)
  | [], _ => by rw [generateArguments]; exact .pure trivial
  | argument :: arguments, hfree => by
      rw [generateArguments]
      exact .bind (tidy_generateArguments pending scope leaf arguments hfree.2) fun _ _ =>
        .making (makes_generate pending scope argument hfree.1) fun code =>
        .bind (.absorb leaf (by simp)) fun _ _ => .add leaf _

theorem mayMake_generateInitializer (pending : List Nat) (scope : Scope) : (parts : List Tree) →
    AllUnitFree parts → MayMake pending (generateInitializer scope parts)
  | [], _ => by rw [generateInitializer]; exact .none
  | part :: parts, hfree => by
      rw [generateInitializer]
      exact .ite _ (mayMake_generateInitializer pending scope parts hfree.2)
        (mayMake_generateValue pending scope parts hfree.2)

theorem mayMake_generateValue (pending : List Nat) (scope : Scope) : (parts : List Tree) →
    AllUnitFree parts → MayMake pending (generateValue scope parts)
  | [], _ => by rw [generateValue]; exact .none
  | part :: parts, hfree => by
      rw [generateValue]
      exact .ite _ (mayMake_generateValue pending scope parts hfree.2)
        (makes_generate pending scope part hfree.1).some

end

/-! ## Files -/

theorem tidy_generateItems (scope : Scope) (trees : List Tree) (hfree : AllUnitFree trees) :
    Tidy [Emission.fileId] (fun _ => True) (generateItems scope trees) := by
  induction trees with
  | nil =>
      rw [generateItems]
      exact .pure trivial
  | cons tree trees ih =>
      rw [generateItems]
      exact .attach (makes_generate _ scope tree hfree.1) (by simp) _ (ih hfree.2)

/-- **The emission of a file is a strict tree**, where the file holds no compile unit. -/
theorem isStrictTree_of_emissionOfTree {options : Asm.Options} {emission : Emission}
    {kind : Ast.Kind} {location : Location} {first second third : List Tree}
    (hfree : AllUnitFree first)
    (h : emissionOfTree options (.node kind location first second third) = .ok emission) :
    emission.IsStrictTree ∧ 0 < emission.nodes.size := by
  have hready : (Emission.empty options).Ready [Emission.fileId] :=
    ⟨Emission.placed_empty options, by
      simpa [Emission.empty, Emission.fileId] using (Emission.placed_empty options).loose_file⟩
  rw [emissionOfTree] at h
  split at h
  next hkind =>
    obtain rfl : kind = .compileUnit := hkind
    split at h
    next id after hrun =>
      cases h
      rw [generate] at hrun
      obtain ⟨_, filled, hitems, hlast⟩ := Emit.bind_eq_ok.mp hrun
      obtain ⟨-, rfl⟩ := Emit.pure_eq_ok.mp hlast
      obtain ⟨hfollows, -⟩ := tidy_generateItems Scope.file first hfree hready hitems
      have hplaced := hfollows.placed hready.placed
      refine ⟨{ hplaced with level := fun {id node} hnode => ?_ }, hfollows.size_le⟩
      by_cases hfile : id = 0
      · subst hfile
        have hfirst : (Emission.empty options).nodes[0]? = some ⟨none, 0, 0, .file [] []⟩ := rfl
        obtain ⟨other, hother, hbase, hnesting⟩ := hfollows.old_level hfirst
        cases hnode.symm.trans hother
        rw [hbase, hnesting]
      · exact hfollows.new_level (Nat.one_le_iff_ne_zero.mpr hfile) hnode
    next => cases h
  next => cases h

end MiniC.Codegen
