import MiniC.Proofs.Reading.Grammar
import MiniC.Proofs.Reading.Places

/-!
# Tidy parse trees

A production of a parse tree may have more parts than its rule has places.  Reading looks
for the parts that it needs and passes over the others.  A tree is tidy if there are no
others: in each production the parts fit the places of the rule (`Production.isTidy`).
Nothing is asked of what is there, so that a tidy tree may well lack a part or have a
malformed one.

Two symbols take part in this.  A name that is declared with an initial value stands before
the `=`, and an `else` stands between two blocks.
-/

namespace MiniC.ParseTree

instance (production : Production) : Decidable production.ElseInPlace :=
  inferInstanceAs (Decidable (_ → _ ∧ _))

/-- Whether the parts of a production fit the places of its rule. -/
def Production.isTidy (production : Production) : Bool :=
  match production.rule with
  | .compileUnit | .block | .statementList | .fargs => true
  | .functionDefinition =>
      fits [Element.isOf .typeSpecifier, Element.isName, Element.isOf .fargs, Element.isOf .block]
        production.parts
  | .functionDeclaration =>
      fits [Element.isOf .typeSpecifier, Element.isName, Element.isOf .fargs] production.parts
  | .declaration =>
      fits [Element.isOf .functionDeclaration] production.parts ||
        fits [Element.isOf .typeSpecifier, Element.isName, Element.isOf .initializer]
          production.parts
  | .initializer =>
      production.beforeAssign.isEmpty && fits [Element.isExpression] production.afterAssign
  | .localDeclaration =>
      fits [Element.isOf .typeSpecifier, Element.isName] production.beforeAssign &&
        fits [Element.isExpression] production.afterAssign &&
        (!production.children.any Element.isAssign || production.beforeAssign.any Element.isName)
  | .typeSpecifier =>
      production.productions.isEmpty && (production.tokens.filter Token.isTypeWord).length ≤ 1
  | .statement =>
      if production.hasToken .keyword "return" then fits [Element.isExpression] production.parts
      else if production.hasToken .keyword "break" then production.parts.isEmpty
      else (production.children.filter (!·.isPunctuation)).length ≤ 1
  | .ifStatement =>
      fits [Element.isExpression, Element.isOf .block, Element.isOf .block] production.parts &&
        decide production.ElseInPlace
  | .whileStatement => (production.children.filter (!·.isPunctuationOrKeyword)).length ≤ 2
  | .primaryExpression | .parenExpression => fits [Element.isExpression] production.parts
  | .unaryExpression =>
      fits [Element.isExpression] production.parts && production.operators.length ≤ 1
  | .binaryExpression =>
      production.parts.all Element.isExpression && production.operators.length ≤ 1
  | .assignExpression | .args => production.parts.all Element.isExpression
  | .callExpression => fits [Element.isName, Element.isOf .args] production.parts

mutual

/-- Whether every production in an element passes a test. -/
def Element.everywhere (test : Production → Bool) : Element → Bool
  | .token _ => true
  | .production p => p.everywhere test

/-- Whether a production and every production in it pass a test. -/
def Production.everywhere (test : Production → Bool) : Production → Bool
  | ⟨rule, line, column, children⟩ =>
    test ⟨rule, line, column, children⟩ && everywhereIn test children

/-- Whether every production in elements passes a test. -/
def everywhereIn (test : Production → Bool) : List Element → Bool
  | [] => true
  | child :: children => child.everywhere test && everywhereIn test children

end

theorem everywhereIn_iff {test : Production → Bool} {children : List Element} :
    everywhereIn test children ↔ ∀ child ∈ children, child.everywhere test := by
  induction children with
  | nil => simp [everywhereIn]
  | cons child children ih => simp [everywhereIn, ih]

theorem Production.everywhere_iff {test : Production → Bool} {production : Production} :
    production.everywhere test ↔
      test production ∧ ∀ child ∈ production.children, child.everywhere test := by
  obtain ⟨rule, line, column, children⟩ := production
  rw [everywhere, Bool.and_eq_true, everywhereIn_iff]

/-- Whether every production in an element is tidy. -/
abbrev Element.tidy (element : Element) : Bool := element.everywhere Production.isTidy

/-- Whether a production and every production in it is tidy. -/
abbrev Production.tidy (production : Production) : Bool := production.everywhere Production.isTidy

theorem Production.tidy_iff {production : Production} :
    production.tidy ↔ production.isTidy ∧ ∀ child ∈ production.children, child.tidy :=
  everywhere_iff

theorem Production.tidy_of_mem_parts {production : Production} (h : production.tidy)
    {part : Element} (hpart : part ∈ production.parts) : part.tidy :=
  (tidy_iff.mp h).2 part (mem_children_of_mem_parts hpart)

end MiniC.ParseTree
