import MiniC.Proofs.Ast.Canonical
import MiniC.Proofs.Correctness.Files

/-!
# Built syntax trees

The arena that is built from a parse tree is canonical (`canonical_of_build`).  What
the parse tree is like matters only for whether there is such an arena.
-/

namespace MiniC

open Ast (Arena Kind)
open ParseTree (Production)

/-- **Built syntax trees are strict, canonically numbered and of the right shape.**  The
root is node 0, a compile unit without parent.  Walking from it visits every number in
order, which is the serial number of its node.  Each other node is in one place, below the
node that it names as its parent.  And the slots of each node have the children that its
kind takes. -/
theorem canonical_of_build {file : String} {production : Production} {arena : Arena}
    (hbuild : Compiler.build file production = .ok arena) : arena.Canonical := by
  obtain ⟨unit, -, rfl⟩ := unit_of_build hbuild
  exact Arena.canonical_ofTree unit.shaped rfl

/-- The arena of the sample file is canonical. -/
theorem canonical_sample :
    ∃ arena, Compiler.build "sample.c" Sample.production = .ok arena ∧ arena.Canonical := by
  obtain ⟨arena, -, hbuild, -⟩ := Sample.generated
  exact ⟨arena, hbuild, canonical_of_build hbuild⟩

end MiniC
