import MiniC.Json.Reader
import MiniC.Json.Printer
import MiniC.ParseTree.Basic

/-!
# The JSON form of parse trees

A production is a record of its rule, line, column and children; each child is
an alternative `node` or `token`.  Positions and children may be left out and
are then zero and none.  Reading spends one container of its budget on each
production, list of children, alternative and token that it enters, so that a
text holds at most 127 of them nested.
-/

namespace MiniC.ParseTree

open MiniC.Json

/-! ## Writing -/

/-- A token, as a JSON value. -/
def Token.toJson (token : Token) : Value :=
  .ofFields
    [("kind", .ofText token.kind.key), ("text", .ofText token.text),
      ("line", .ofInt token.line.toNat), ("column", .ofInt token.column.toNat)]

mutual

/-- A child of a production, as a JSON value. -/
def Element.toJson : Element → Value
  | .token token => .ofFields [("token", token.toJson)]
  | .production production => .ofFields [("node", production.toJson)]

/-- A production, as a JSON value. -/
def Production.toJson : Production → Value
  | ⟨rule, line, column, children⟩ =>
      .ofFields
        [("rule", .ofText rule.key), ("line", .ofInt line.toNat), ("column", .ofInt column.toNat),
          ("children", .array (childrenToJson children))]

/-- The children of a production, as JSON values. -/
def childrenToJson : List Element → List Value
  | [] => []
  | child :: children => child.toJson :: childrenToJson children

end

/-- The JSON text of a production. -/
def Production.pretty (production : Production) : String := production.toJson.pretty

/-! ## Reading -/

/-- A rule in its JSON form. -/
def Rule.ofJson? (budget : Nat) (value : Value) : Option Rule := value.plain? budget >>= ofKey?

/-- A sort of token in its JSON form. -/
def TokenKind.ofJson? (budget : Nat) (value : Value) : Option TokenKind :=
  value.plain? budget >>= ofKey?

/-- A line or column in its JSON form, zero where it is left out. -/
def coordinate? : Option Value → Option UInt32
  | none => some 0
  | some value => value.uint32?

/-- A token in its JSON form. -/
def Token.ofJson? : Nat → Value → Option Token
  | 0, _ => none
  | budget + 1, value => do
      match ← value.fields? ["kind", "text", "line", "column"] with
      | [some kind, some text, line, column] =>
          some ⟨← TokenKind.ofJson? budget kind, ← text.text?, ← coordinate? line,
            ← coordinate? column⟩
      | _ => none

mutual

/-- A production in its JSON form. -/
def Production.ofJson? : Nat → Value → Option Production
  | 0, _ => none
  | budget + 1, value => do
      match ← value.fields? ["rule", "line", "column", "children"] with
      | [some rule, line, column, children] =>
          let rule ← Rule.ofJson? budget rule
          let line ← coordinate? line
          let column ← coordinate? column
          match children with
          | none => some ⟨rule, line, column, []⟩
          | some children => some ⟨rule, line, column, ← children? budget children⟩
      | _ => none

/-- A list of children in its JSON form. -/
def children? : Nat → Value → Option (List Element)
  | budget + 1, .array items => items.mapM (Element.ofJson? budget)
  | _, _ => none

/-- A child in its JSON form. -/
def Element.ofJson? : Nat → Value → Option Element
  | 0, _ => none
  | budget + 1, value => do
      match ← value.tagged? with
      | ("node", value) => some (.production (← Production.ofJson? budget value))
      | ("token", value) => some (.token (← Token.ofJson? budget value))
      | _ => none

end

/-- The production that a JSON value describes, however deep it is nested. -/
def Production.ofValue? (value : Value) : Option Production := ofJson? value.depth value

/-- The child that a JSON value describes, however deep it is nested. -/
def Element.ofValue? (value : Value) : Option Element := ofJson? value.depth value

/-- The production that a JSON text describes. -/
def Production.read? (text : String) : Option Production :=
  Value.read? text >>= ofJson? Value.nestingLimit

end MiniC.ParseTree
