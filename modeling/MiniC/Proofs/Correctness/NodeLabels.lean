import MiniC.Proofs.Codegen.Statements
import MiniC.Proofs.Emission.Histories
import MiniC.Proofs.Translation.Labels

/-!
# The labels of emission nodes

A node has a label for each suffix, and the suffix may be any text.  No two of all these labels
are the same, and none of them ever changes (`label_injective_of_operations`):

* the word for a kind and a decimal number have no underscore, so that they end at the first two
  underscores of a label, wherever the suffix has more of them (`eq_of_labelOf_eq`);
* a node stays of the kind that it was created as (`Emission.label_afterAll`).
-/

namespace MiniC

namespace Emission

variable {emission : Emission} {id : Nat}

theorem exists_label (h : id < emission.nodes.size) (suffix : String) :
    ∃ kind, emission.label id suffix = .ok (labelOf kind id suffix) := by
  obtain ⟨node, hnode⟩ := exists_node_of_lt h
  exact ⟨node.kind, Codegen.label_of_some hnode suffix⟩

/-- The labels of a node stay what they are, whatever is done to the emission. -/
theorem label_afterAll (hwellFormed : emission.WellFormed) (h : id < emission.nodes.size)
    (suffix : String) (operations : List Operation) :
    (emission.afterAll operations).label id suffix = emission.label id suffix := by
  obtain ⟨node, hnode⟩ := exists_node_of_lt h
  obtain ⟨other, hother, hkind, -⟩ := nesting_afterAll hwellFormed operations hnode
  rw [Codegen.label_of_some hother, Codegen.label_of_some hnode, hkind]

end Emission

open Emission in
/-- **The labels of emission nodes are injective.**  After any operations on an empty emission
every node has a label for every suffix, which it keeps whatever operations follow, and a label
belongs to one node and one suffix only. -/
theorem label_injective_of_operations (options : Asm.Options) (operations : List Operation) :
    let emission := (empty options).afterAll operations
    (∀ (id : Nat) (suffix : String), id < emission.nodes.size →
      ∃ text, emission.label id suffix = .ok text ∧
        ∀ since, (emission.afterAll since).label id suffix = .ok text) ∧
    ∀ (first second : Nat) (suffix other : String),
      first < emission.nodes.size → second < emission.nodes.size →
        emission.label first suffix = emission.label second other →
          first = second ∧ suffix = other := by
  intro emission
  have hwellFormed : emission.WellFormed := (wellFormed_empty options).afterAll operations
  constructor
  · intro id suffix hid
    obtain ⟨kind, hlabel⟩ := exists_label hid suffix
    refine ⟨_, hlabel, ?_⟩
    intro since
    rw [label_afterAll hwellFormed hid, hlabel]
  · intro first second suffix other hfirst hsecond heq
    obtain ⟨firstKind, hfirstLabel⟩ := exists_label hfirst suffix
    obtain ⟨secondKind, hsecondLabel⟩ := exists_label hsecond other
    rw [hfirstLabel, hsecondLabel] at heq
    exact eq_of_labelOf_eq (Except.ok.inj heq)

open Emission in
/-- The digits and underscores of a suffix do not run into the number: node 1 and node 12. -/
theorem label_injective_twelve :
    let emission := (empty {}).afterAll (List.replicate 12 (.create .conditional fileId))
    1 < emission.nodes.size ∧ 12 < emission.nodes.size ∧
      (emission.label 1 "2_end").toOption = some "IF_1_2_end" ∧
      (emission.label 12 "end").toOption = some "IF_12_end" ∧
      emission.label 1 "2_end" ≠ emission.label 12 "end" := by
  intro emission
  have hfirst : 1 < emission.nodes.size := by decide +kernel
  have hsecond : 12 < emission.nodes.size := by decide +kernel
  refine ⟨hfirst, hsecond, by decide +kernel, by decide +kernel, ?_⟩
  intro heq
  have hnumbers := (label_injective_of_operations {} _).2 1 12 "2_end" "end" hfirst hsecond heq
  exact absurd hnumbers.1 (by decide)

end MiniC
