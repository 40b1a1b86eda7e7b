import Mathlib.Logic.Relation
import MiniC.Proofs.Correctness.Files
import MiniC.Proofs.Reading.Parentheses.Productions

/-!
# Parentheses

Parentheses leave nothing behind: however many of the elements of a parse tree that stand where
an expression is read are put in parentheses, and however often, the same arena is built from
the parse tree, or it is refused with the same error (`build_of_parenthesizes`).
-/

namespace MiniC

open ParseTree (Element Production)

/-- **Parentheses are transparent.**  A parse tree in which elements have been put in
parentheses, one after another, where an expression is read builds what the parse tree builds
without them: the same arena, or the same error. -/
theorem build_of_parenthesizes {production other : Production}
    (h : Relation.ReflTransGen Production.Parenthesizes production other) (file : String) :
    Compiler.build file other = Compiler.build file production := by
  induction h with
  | refl => rfl
  | tail _ hstep ih =>
      rw [← ih, Compiler.build, Compiler.build, CompileUnit.ofProduction_of_parenthesizes hstep]

/-! ## A negated number in parentheses -/

namespace Sample

/-- The file `int f() { return -operand; }`. -/
def negating (operand : Element) : Production :=
  ⟨.compileUnit, 1, 1,
    [part .functionDefinition [part .typeSpecifier [token .typeName "int"],
      token .identifier "f",
      part .block [part .statementList [part .statement [token .keyword "return",
        part .unaryExpression [token .operator "-", operand]]]]]]⟩

/-- The operand is put in parentheses. -/
theorem parenthesizes_negating {operand : Element} {wrapper : Production}
    (h : wrapper.Encloses operand) :
    (negating operand).Parenthesizes (negating (.production wrapper)) :=
  .deeper [] [] (.deeper [_, _] [] (.deeper [] [] (.deeper [] [] (.deeper [_] []
    (.here [token .operator "-"] [] rfl h)))))

/-- The number 2147483648, which is in range only together with the sign before it. -/
def magnitude : Element := token .number "2147483648"

/-- The number as a primary expression. -/
def primary : Production := ⟨.primaryExpression, 2, 5, [magnitude]⟩

/-- The number as a primary expression in parentheses. -/
def parenthesized : Production :=
  ⟨.parenExpression, 2, 4, [token .punctuation "(", .production primary, token .punctuation ")"]⟩

end Sample

/-- The sign is read with the number through the parentheses, and the file is accepted as it is
without them. -/
theorem build_parenthesized :
    (Compiler.build "sample.c" (Sample.negating (.production Sample.parenthesized))).isOk = true ∧
      Compiler.build "sample.c" (Sample.negating (.production Sample.parenthesized)) =
        Compiler.build "sample.c" (Sample.negating Sample.magnitude) := by
  have hprimary : Sample.primary.Encloses Sample.magnitude := ⟨rfl, rfl⟩
  have hparenthesized : Sample.parenthesized.Encloses (.production Sample.primary) := ⟨rfl, rfl⟩
  refine ⟨by decide +kernel, build_of_parenthesizes ?_ "sample.c"⟩
  exact .tail (.single (Sample.parenthesizes_negating hprimary))
    (Sample.parenthesizes_negating hparenthesized)

end MiniC
