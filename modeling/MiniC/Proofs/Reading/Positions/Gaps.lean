import MiniC.Program.Tree
import MiniC.Proofs.Reading.Numbers

/-!
# Where values stand

A place in a parse tree is a list of productions, from the outermost to the innermost, each with
a gap for the next one (`Gap`).  What stands in a gap is read in some role (`Role`), and
`Gap.Takes` says in which one, by the rule of the production and the children in front of the gap:
the operands of an operator, the value of an assignment, the arguments of a call, and so on.
Children that are not read at all, such as a second expression in parentheses, are in no role.

A place for a value is one at which an expression is read (`Position`).  The operand of a minus
sign that is a number is none: it is read together with the sign.
-/

namespace MiniC

open ParseTree
open Ast (Tree)

/-- A tree is one of some trees, or stands below one of them. -/
inductive Ast.Tree.Within (tree : Tree) : List Tree → Prop where
  | here {trees : List Tree} (h : tree ∈ trees) : Within tree trees
  | under {kind : Ast.Kind} {location : Location} {first second third trees : List Tree}
      (h : .node kind location first second third ∈ trees)
      (hunder : Within tree (first ++ second ++ third)) : Within tree trees

theorem Ast.Tree.Within.mono {tree : Tree} {trees others : List Tree} (h : tree.Within trees)
    (hsubset : trees ⊆ others) : tree.Within others := by
  cases h with
  | here h => exact .here (hsubset h)
  | under h hunder => exact .under (hsubset h) hunder

section Node

variable {tree : Tree} {kind : Ast.Kind} {location : Location}
  {trees first second third : List Tree} (h : tree.Within trees)
include h

/-! What stands in a slot of a node stands below the node. -/

theorem Ast.Tree.Within.node_first (hsubset : trees ⊆ first) :
    tree.Within [.node kind location first second third] := by
  refine .under List.mem_cons_self (h.mono ?_)
  exact List.subset_append_of_subset_left _ (List.subset_append_of_subset_left _ hsubset)

theorem Ast.Tree.Within.node_second (hsubset : trees ⊆ second) :
    tree.Within [.node kind location first second third] := by
  refine .under List.mem_cons_self (h.mono ?_)
  exact List.subset_append_of_subset_left _ (List.subset_append_of_subset_right _ hsubset)

theorem Ast.Tree.Within.node_third (hsubset : trees ⊆ third) :
    tree.Within [.node kind location first second third] :=
  .under List.mem_cons_self (h.mono (List.subset_append_of_subset_right _ hsubset))

end Node

namespace ParseTree

/-! ## Gaps -/

/-- A production with a gap among its children. -/
structure Gap where
  rule : Rule
  line : UInt32
  column : UInt32
  front : List Element
  back : List Element

namespace Gap

/-- The production with an element in the gap. -/
def fill (gap : Gap) (element : Element) : Production :=
  ⟨gap.rule, gap.line, gap.column, gap.front ++ element :: gap.back⟩

/-- The production with nothing in the gap. -/
def empty (gap : Gap) : Production := ⟨gap.rule, gap.line, gap.column, gap.front ++ gap.back⟩

end Gap

/-- The element with another one in the innermost of some gaps, the outermost first. -/
def fillAll (gaps : List Gap) (element : Element) : Element :=
  gaps.foldr (fun gap inner => .production (gap.fill inner)) element

/-! ## Roles -/

/-- What a part of a parse tree is read as. -/
inductive Role where
  | expression | arguments | initializer | statement | statements | block | item

namespace Role

/-- What is found in a role. -/
abbrev Result : Role → Type
  | expression | initializer => Expr
  | arguments => ArgumentList
  | statement => Stmt
  | statements => List Stmt
  | block => Block
  | item => Item

/-- The syntax trees of what is found. -/
def trees : (role : Role) → role.Result → List Tree
  | expression, found | initializer, found => [Expr.toTree found]
  | arguments, found => [ArgumentList.toTree found]
  | statement, found => [Stmt.toTree found]
  | statements, found => statementTrees found
  | block, found => [Block.toTree found]
  | item, found => [Item.toTree found]

end Role

/-- Whether elements have a token `=`, after which no expression is among them. -/
def awaitsValue (elements : List Element) : Bool :=
  elements.any Element.isAssign &&
    !((elements.dropWhile (!·.isAssign)).drop 1).any Element.isExpression

/-- A production is read in a role, and what stands in its gap is read for that in another
role. -/
inductive Gap.Takes (gap : Gap) : Role → Role → Prop where
  | enclosed (hrule : gap.rule.isWrapper) (hfirst : gap.front.any Element.isExpression = false) :
      Takes gap .expression .expression
  | operand (hrule : gap.rule = .binaryExpression) : Takes gap .expression .expression
  | signed (hrule : gap.rule = .unaryExpression)
      (hfirst : gap.front.any Element.isExpression = false) : Takes gap .expression .expression
  | assigned (hrule : gap.rule = .assignExpression)
      (htarget : gap.front.any Element.isExpression = true) : Takes gap .expression .expression
  | called (hrule : gap.rule = .callExpression)
      (hfirst : gap.front.any (Element.isOf .args) = false) : Takes gap .expression .arguments
  | argument (hrule : gap.rule = .args) : Takes gap .arguments .expression
  | returned (hrule : gap.rule = .statement)
      (hreturn : gap.empty.hasToken .keyword "return" = true)
      (hfirst : gap.front.any Element.isExpression = false) : Takes gap .statement .expression
  | wrapped (hrule : gap.rule = .statement)
      (hreturn : gap.empty.hasToken .keyword "return" = false)
      (hbreak : gap.empty.hasToken .keyword "break" = false)
      (hfirst : gap.front.all Element.isPunctuation = true) : Takes gap .statement .statement
  | tested (hrule : gap.rule = .ifStatement)
      (hfirst : gap.front.any Element.isExpression = false) : Takes gap .statement .expression
  | chosen (hrule : gap.rule = .ifStatement) : Takes gap .statement .block
  | repeating (hrule : gap.rule = .whileStatement)
      (hfirst : gap.front.all Element.isPunctuationOrKeyword = true) :
      Takes gap .statement .expression
  | repeated (hrule : gap.rule = .whileStatement)
      (hsecond : (gap.front.filter (!·.isPunctuationOrKeyword)).length = 1) :
      Takes gap .statement .statement
  | declared (hrule : gap.rule = .localDeclaration) (hvalue : awaitsValue gap.front = true) :
      Takes gap .statement .expression
  | stated (hrule : gap.rule = .block) : Takes gap .block .statement
  | listing (hrule : gap.rule = .block) : Takes gap .block .statements
  | listed (hrule : gap.rule = .statementList) : Takes gap .statements .statement
  | body (hrule : gap.rule = .functionDefinition)
      (hfirst : gap.front.any (Element.isOf .block) = false) : Takes gap .item .block
  | initialized (hrule : gap.rule = .declaration)
      (hvariable : gap.empty.child? .functionDeclaration = none)
      (hfirst : gap.front.any (Element.isOf .initializer) = false) : Takes gap .item .initializer
  | initial (hrule : gap.rule = .initializer) (hvalue : awaitsValue gap.front = true) :
      Takes gap .initializer .expression

/-- A place in a production that is read in a role: some gaps one inside the other, with a value
in the innermost, and no number directly behind a minus sign.  The values that the place is for
are given. -/
inductive Position (values : Element → Prop) : List Gap → Role → Prop where
  | here : Position values [] .expression
  | inside {gap : Gap} {gaps : List Gap} {outer inner : Role} (h : gap.Takes outer inner)
      (hgaps : Position values gaps inner)
      (hsign : ∀ element, values element → ∀ token,
        ¬ (gap.fill (fillAll gaps element)).Negates token) : Position values (gap :: gaps) outer
  | statement {gaps : List Gap} (h : Position values gaps .expression) :
      Position values gaps .statement
  | block {gaps : List Gap} (h : Position values gaps .block) : Position values gaps .statement

end ParseTree

end MiniC
