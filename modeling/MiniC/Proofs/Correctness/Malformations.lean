import MiniC.Proofs.Building.Refinement
import MiniC.Proofs.Reading.Failures

/-!
# Parse trees that are refused

A parse tree is refused only for its shape, and at a place in it
(`ok_or_malformed_of_build`).  That holds of the step by step builder as well, which attaches
each node that it creates and could be refused an attachment: it is never refused one, also
not before it comes to the malformation that ends the construction.
-/

namespace MiniC

open ParseTree (Element Production)

/-- **Building a syntax tree succeeds, or the parse tree is malformed at a place in it.**
For any parse tree and any file name there is an arena, or the error is the one for
malformed input, in that file, at the line and column of an element that occurs in the tree.
Building step by step, under frames and with an attachment for each node, has the same
outcome. -/
theorem ok_or_malformed_of_build (file : String) (production : Production) :
    Building.build file production = Compiler.build file production ∧
      ((∃ arena, Compiler.build file production = .ok arena) ∨
        ∃ construct location reason, ∃ element : Element,
          Compiler.build file production = .error (.malformed construct location reason) ∧
          element.OccursIn (.production production) ∧
          location.file = file ∧ location = element.location file) := by
  refine ⟨Building.build_eq file production, ?_⟩
  rw [Compiler.build]
  cases hread : CompileUnit.ofProduction file production with
  | ok unit => exact .inl ⟨_, rfl⟩
  | error malformation =>
      obtain ⟨element, hoccurs, hlocation⟩ :=
        CompileUnit.locatedIn_ofProduction file production malformation hread
      refine .inr ⟨_, _, _, element, rfl, hoccurs, ?_, hlocation⟩
      rw [hlocation]
      cases element <;> rfl

end MiniC
