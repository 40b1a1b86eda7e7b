import MiniC.Ast.Kind
import MiniC.Location

/-!
# Syntax trees

A syntax tree as a value: a node with its kind, its location and the children
in each of its slots.  No kind has more than three slots; a slot that a kind
does not have is empty.
-/

namespace MiniC.Ast

/-- A node and everything below it. -/
inductive Tree where
  | node (kind : Kind) (location : Location) (first second third : List Tree)

namespace Tree

/-- What the root of a tree stands for. -/
def kind : Tree → Kind
  | node kind _ _ _ _ => kind

/-- Where the root of a tree stands. -/
def location : Tree → Location
  | node _ location _ _ _ => location

/-- The children in the first slot. -/
def first : Tree → List Tree
  | node _ _ first _ _ => first

/-- A node without children. -/
def leaf (kind : Kind) (location : Location) : Tree := node kind location [] [] []

section Walk

variable {Scope Answer : Type} (visit : Kind → Location → Scope → List Answer → Answer)
  (descend : Scope → Scope)

mutual

/-- A walk over a tree.  A scope is handed down, changed at each level, and
`visit` gives the answer of a node from the answers of its children, taken slot
by slot. -/
def walk (scope : Scope) : Tree → Answer
  | node kind location first second third =>
      visit kind location scope
        (walkAll (descend scope) first ++ walkAll (descend scope) second ++
          walkAll (descend scope) third)

/-- The answers of several trees. -/
def walkAll (scope : Scope) : List Tree → List Answer
  | [] => []
  | tree :: trees => walk scope tree :: walkAll scope trees

end

end Walk

end Tree

end MiniC.Ast
