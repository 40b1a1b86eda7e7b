import MiniC.Proofs.ParseTree.Json

/-!
# Parse trees survive their JSON form

A parse tree is read back from its JSON text if its productions are nested at most 42 deep, and
that text is refused otherwise (`read?_pretty_tree`).

The same bound decides whether a tree that was read from some text survives.  Texts may be
shorter than the one that is written, so that a tree of 43 levels can be read, but no deeper one
(`reread_of_read?`).  Such a tree is then lost (`refused_at_limit`).
-/

namespace MiniC.ParseTree

open MiniC.Json

theorem Production.read?_pretty_eq (production : Production) :
    read? production.pretty =
      if production.toJson.depth ≤ Value.nestingLimit then some production else none := by
  rw [read?, pretty, read?_pretty, Option.bind_eq_bind, Option.bind_some, ofJson?_toJson]

/-- The containers that a text may hold suffice for 42 productions in each other. -/
theorem Production.depth_toJson_le_limit_iff (production : Production) :
    production.toJson.depth ≤ Value.nestingLimit ↔ production.nesting ≤ 42 :=
  production.depth_toJson_le_iff 42

/-- **Parse trees survive their JSON form.**  The text of a parse tree, wherever its parts stand
and whatever characters are in its tokens, reads back as the tree if its productions are nested
at most 42 deep.  The text of a deeper tree is refused. -/
theorem read?_pretty_tree (production : Production) :
    Production.read? production.pretty =
      if production.nesting ≤ 42 then some production else none := by
  rw [Production.read?_pretty_eq]
  exact if_congr production.depth_toJson_le_limit_iff rfl rfl

/-- **A tree that was read survives but for the deepest ones.**  The productions of a tree that
was read from some text are nested at most 43 deep.  The text that is written for the tree reads
back as the tree unless they are nested just as deep, and is refused then. -/
theorem reread_of_read? {text : String} {production : Production}
    (h : Production.read? text = some production) :
    production.nesting ≤ 43 ∧
      Production.read? production.pretty =
        if production.nesting = 43 then none else some production := by
  obtain ⟨value, -, hvalue⟩ := Option.bind_eq_some_iff.mp h
  have hnesting := Production.nesting_of_ofJson? hvalue
  rw [Value.nestingLimit] at hnesting
  refine ⟨by omega, ?_⟩
  rw [Production.read?_pretty_eq, if_congr production.depth_toJson_le_limit_iff rfl rfl]
  by_cases hdeep : production.nesting = 43
  · rw [if_pos hdeep, if_neg (by omega)]
  · rw [if_neg hdeep, if_pos (by omega)]

namespace Sample

/-- The text of a block that has no position and no list of children but a key that is skipped. -/
def terseText : String := "\x7b\"rule\":\"block\",\"note\":[1.5,null]\x7d"

/-- A block in a number of blocks. -/
def blocks : Nat → Production
  | 0 => .ofRule .block
  | n + 1 => (Production.ofRule .block).append (.production (blocks n))

/-- The form of a block in a number of blocks, with no list of children for the innermost. -/
def terseBlocks : Nat → Value
  | 0 => .ofFields [("rule", .ofText "block")]
  | n + 1 =>
      .ofFields [("rule", .ofText "block"),
        ("children", .array [.ofFields [("node", terseBlocks n)]])]

end Sample

/-- A block is read from a terse text, and survives. -/
theorem reread_terse :
    ∃ production, Production.read? Sample.terseText = some production ∧
      Production.read? production.pretty = some production := by
  have hread : Production.read? Sample.terseText = some (.ofRule .block) := by decide +kernel
  refine ⟨_, hread, ?_⟩
  rw [(reread_of_read? hread).2]
  decide +kernel

/-- A text with 43 blocks in each other is read, but what is written for them is refused. -/
theorem refused_at_limit :
    Production.read? (Sample.terseBlocks 42).pretty = some (Sample.blocks 42) ∧
      Production.read? (Sample.blocks 42).pretty = none := by
  constructor
  · rw [Production.read?, read?_pretty, Option.bind_eq_bind, Option.bind_some]
    decide +kernel
  · rw [Production.read?_pretty_eq]
    decide +kernel

end MiniC.ParseTree
