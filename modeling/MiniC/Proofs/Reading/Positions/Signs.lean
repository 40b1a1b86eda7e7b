import MiniC.Proofs.Reading.Positions.Expressions

/-!
# Signs in front of a place

The way to a place goes through a sign in front of a number only if the number stands at the place
(`Position.isNumber_of_fillAll`): parentheses and signs take their first expression, which is the
one on the way.  So whether a place is one for some values only depends on the numbers among them,
and every value that is no number may stand there as well (`Position.widen`).
-/

namespace MiniC.ParseTree

variable {gap : Gap} {gaps : List Gap} {outer inner role : Role} {values : Element → Prop}
  {element : Element} {token : Token}

/-- Parentheses and signs take their first expression. -/
theorem Gap.Takes.first (h : gap.Takes outer inner)
    (hrule : gap.rule.isWrapper ∨ gap.rule = .unaryExpression) :
    inner = .expression ∧ gap.front.any Element.isExpression = false := by
  cases h with
  | enclosed _ hfirst => exact ⟨rfl, hfirst⟩
  | signed _ hfirst => exact ⟨rfl, hfirst⟩
  | _ => simp_all [Rule.isWrapper]

/-- A gap that is read in an expression is one of an expression. -/
theorem Gap.Takes.isExpression (h : gap.Takes .expression inner) : gap.rule.isExpression := by
  cases h with
  | enclosed hrule _ => exact Rule.isExpression_of_isWrapper hrule
  | operand hrule | signed hrule _ | assigned hrule _ | called hrule _ =>
      rw [hrule]
      rfl

theorem Position.isExpression_fillAll (h : Position values gaps .expression)
    (helement : element.isExpression) : (fillAll gaps element).isExpression := by
  cases h with
  | here => exact helement
  | inside htakes _ _ => exact htakes.isExpression

/-- What is a number but for parentheses is one at the place in it. -/
theorem Position.isNumber_of_fillAll (h : Position values gaps role) (hrole : role = .expression)
    (helement : element.isExpression) (hnumber : (fillAll gaps element).IsNumber token) :
    element.IsNumber token := by
  induction h with
  | here => exact hnumber
  | @inside gap gaps outer inner htakes hgaps _ ih =>
      cases hnumber with
      | @enclosed _ found hencloses hfound =>
          obtain ⟨rfl, hfirst⟩ := htakes.first (.inl hencloses.1)
          have hhead : (gap.fill (fillAll gaps element)).expressions.head? =
              some (fillAll gaps element) :=
            Gap.head?_expressions_fill (hgaps.isExpression_fillAll helement) hfirst
          obtain rfl := Option.some.inj (hhead.symm.trans hencloses.2)
          exact ih rfl hfound
  | statement _ _ => cases hrole
  | block _ _ => cases hrole

/-- **What may stand at a place.**  A place for some values is one for all values that are no
numbers. -/
theorem Position.widen (h : Position values gaps role) :
    Position (fun element => element.IsValue ∧ (element.IsNumeral → values element))
      gaps role := by
  induction h with
  | here => exact .here
  | @inside gap gaps outer inner htakes hgaps hsign ih =>
      refine .inside htakes ih ?_
      intro element helement token hnegates
      obtain ⟨operand, hoperand, hnumber⟩ := hnegates.operand
      obtain ⟨rfl, hfirst⟩ := htakes.first (.inr hnegates.rule_eq)
      have hhead : (gap.fill (fillAll gaps element)).expressions.head? =
          some (fillAll gaps element) :=
        Gap.head?_expressions_fill (hgaps.isExpression_fillAll helement.1.isExpression) hfirst
      obtain rfl := Option.some.inj (hhead.symm.trans hoperand)
      -- the number behind the sign is the one at the place
      have hplace := hgaps.isNumber_of_fillAll rfl helement.1.isExpression hnumber
      exact hsign element (helement.2 ⟨token, hplace⟩) token hnegates
  | statement _ ih => exact .statement ih
  | block _ ih => exact .block ih

end MiniC.ParseTree
