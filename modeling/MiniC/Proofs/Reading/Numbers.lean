import MiniC.Proofs.Reading.Parentheses.Elements
import MiniC.Proofs.Reading.Sound.Expressions
import MiniC.Proofs.Reading.Accepts
import MiniC.Proofs.Text.Decimal

/-!
# Numbers

What a number is read as, in any number of parentheses (`Element.IsNumber`) and with a minus sign
in front of it (`Production.Negates`).  A number by itself has to be one of 32 bits with sign
(`Expr.ofToken_of_denotes`, `Expr.ofToken_of_out_of_range`).  A negation is read from its number,
but the sign of 2³¹, which does not fit, is read together with it
(`Expr.ofProduction_of_negates`), so that negated numbers go up to 2³¹
(`Expr.ofProduction_of_denotes`).
-/

namespace MiniC

namespace ParseTree

/-- An element is a number token, in any number of parentheses. -/
inductive Element.IsNumber (token : Token) : Element → Prop where
  | token (hkind : token.kind = .number) : IsNumber token (.token token)
  | enclosed {wrapper : Production} {inner : Element} (h : wrapper.Encloses inner)
      (hinner : IsNumber token inner) : IsNumber token (.production wrapper)

/-- An element is some number, in any number of parentheses. -/
def Element.IsNumeral (element : Element) : Prop := ∃ token, element.IsNumber token

/-- A production is a minus sign in front of a number, in any number of parentheses. -/
structure Production.Negates (token : Token) (production : Production) : Prop where
  rule_eq : production.rule = .unaryExpression
  operator_eq : ∃ operator, production.firstToken? .operator = some operator ∧ operator.text = "-"
  operand : ∃ operand, production.expressions.head? = some operand ∧ operand.IsNumber token

/-- An element is a minus sign in front of some number. -/
def Element.IsNegation (element : Element) : Prop :=
  ∃ production token, element = .production production ∧ production.Negates token

namespace Element.IsNumber

variable {token : Token} {element : Element} (h : element.IsNumber token)
include h

theorem kind_eq : token.kind = .number := by
  induction h with
  | token hkind => exact hkind
  | enclosed _ _ ih => exact ih

theorem isExpression : element.isExpression := by
  cases h with
  | token hkind => simp [Element.isExpression, Token.isExpression, hkind]
  | enclosed h _ => exact Rule.isExpression_of_isWrapper h.1

theorem isName_eq : element.isName = false := by
  cases h with
  | token hkind => simp [Element.isName, hkind]
  | enclosed _ _ => rfl

theorem innerToken?_eq : innerToken? element = some token := by
  induction h with
  | token _ => rw [innerToken?]
  | enclosed h _ ih => rw [innerToken?_of_encloses h, ih]

end Element.IsNumber

theorem Element.IsNegation.not_isNumeral {element : Element} (h : element.IsNegation) :
    ¬ element.IsNumeral := by
  obtain ⟨production, token, rfl, hnegates⟩ := h
  rintro ⟨number, hnumber⟩
  cases hnumber with
  | enclosed hencloses _ =>
      have hwrapper := hencloses.1
      rw [hnegates.rule_eq] at hwrapper
      cases hwrapper

/-- A token that an element is but for parentheses is in it. -/
theorem isNumber_of_numberToken? {token : Token} {element : Element}
    (h : numberToken? element = some token) : element.IsNumber token := by
  obtain ⟨hinner, hkind⟩ := Option.filter_eq_some_iff.mp h
  have hnumber : token.kind = .number := by simpa using hkind
  induction element using Element.induction with
  | token found =>
      rw [innerToken?] at hinner
      cases hinner
      exact .token hnumber
  | production production ih =>
      rw [innerToken?_production] at hinner
      split at hinner
      next hrule =>
        -- parentheses are read through to the first expression in them
        obtain ⟨first, hfirst, htoken⟩ := Option.bind_eq_some_iff.mp hinner
        have hmem : first ∈ production.children :=
          (List.mem_filter.mp (List.mem_of_mem_head? hfirst)).1
        refine .enclosed ⟨hrule, hfirst⟩ (ih first hmem ?_ htoken)
        exact Option.filter_eq_some_iff.mpr ⟨htoken, hkind⟩
      next => cases hinner

end ParseTree

open ParseTree

variable {file : String} {token : Token} {element : Element} {production : Production}

/-! ## A number by itself -/

theorem Expr.ofElement_of_isNumber (h : element.IsNumber token) :
    Expr.ofElement file element = Expr.ofToken file token := by
  induction h with
  | token _ => rfl
  | enclosed h _ ih => exact (Expr.ofProduction_of_encloses h).trans ih

/-- A text of a number has a value of 32 bits, or none. -/
theorem Expr.ofToken_eq (hkind : token.kind = .number) :
    Expr.ofToken file token =
      match Text.int32? token.text with
      | some value => .ok (.number (token.location file) value)
      | none => .error ⟨.primaryExpression, token.location file, .numberRange token.text⟩ := by
  obtain ⟨kind, text, line, column⟩ := token
  cases hkind
  rfl

theorem int32?_eq_none {text : String}
    (h : ∀ value, Text.Denotes text value → ¬ (-2147483648 ≤ value ∧ value < 2147483648)) :
    Text.int32? text = none := by
  rw [Text.int32?]
  cases hvalue : Text.integer? text with
  | none => rfl
  | some value => exact if_neg (h value (Text.integer?_eq_some_iff.mp hvalue))

/-- A number of 32 bits is a literal. -/
theorem Expr.ofToken_of_denotes {value : Int} (hkind : token.kind = .number)
    (h : Text.Denotes token.text value) (hlow : -2147483648 ≤ value) (hhigh : value < 2147483648) :
    Expr.ofToken file token = .ok (.number (token.location file) (Int32.ofInt value)) := by
  rw [Expr.ofToken_eq hkind,
    int32?_of_integer? (Text.integer?_eq_some_iff.mpr h) hlow hhigh]

/-- Any other text is refused, and the token is reported. -/
theorem Expr.ofToken_of_out_of_range (hkind : token.kind = .number)
    (h : ∀ value, Text.Denotes token.text value →
      ¬ (-2147483648 ≤ value ∧ value < 2147483648)) :
    Expr.ofToken file token =
      .error ⟨.primaryExpression, token.location file, .numberRange token.text⟩ := by
  rw [Expr.ofToken_eq hkind, int32?_eq_none h]

/-! ## A negated number -/

theorem isMinimumMagnitude_iff {text : String} :
    isMinimumMagnitude text ↔ Text.Denotes text 2147483648 := by
  rw [isMinimumMagnitude, beq_iff_eq, Text.integer?_eq_some_iff]

/-- An operator in front of an operand, by its text, unless its sign is read with a number. -/
def unaryOf (file : String) (production : Production) (operand : Element) (text : String) :
    Reading Expr :=
  match UnaryOp.ofText? text with
  | none => .error (production.malformed file (.unknownUnary text))
  | some op =>
      match negatedMinimum? op operand with
      | some token => .ok (.number (token.location file) Int32.minValue)
      | none => Expr.unary (production.location file) op <$> Expr.ofElement file operand

theorem Expr.ofProduction_unary_eq {operand : Element} (hrule : production.rule = .unaryExpression)
    (hoperand : production.expressions.head? = some operand) :
    Expr.ofProduction file production =
      operatorText file production >>= unaryOf file production operand := by
  obtain ⟨rule, line, column, children⟩ := production
  cases hrule
  have hread : (operandsOf file children).head? = some (Expr.ofElement file operand) := by
    rw [operandsOf_eq, List.head?_map]
    exact congrArg (Option.map (Expr.ofElement file)) hoperand
  rw [ofProduction, hread, hoperand]
  refine bind_congr fun text => ?_
  rw [unaryOf]
  cases UnaryOp.ofText? text with
  | none => rfl
  | some op =>
      dsimp only [Production.required, bind, Except.bind]
      cases negatedMinimum? op operand with
      | some token => rfl
      | none => cases Expr.ofElement file operand <;> rfl

/-- A sign is read by itself unless the production negates a number. -/
theorem negatedMinimum?_eq_none {text : String} {op : UnaryOp} {operand : Element}
    (hrule : production.rule = .unaryExpression)
    (htext : operatorText file production = .ok text) (hop : UnaryOp.ofText? text = some op)
    (hoperand : production.expressions.head? = some operand)
    (h : ∀ token, ¬ production.Negates token) : negatedMinimum? op operand = none := by
  rw [negatedMinimum?]
  -- with another operator nothing is read together, with a minus sign only a number would be
  by_cases hminus : op = .minus
  · cases hnumber : numberToken? operand with
    | none => rw [if_pos hminus, Option.filter_none]
    | some token =>
        obtain ⟨operator, hoperator, hsame⟩ := Expr.operatorText_eq_ok.mp htext
        have hsign : operator.text = "-" := by
          rw [hsame, ← UnaryOp.text_of_ofText? hop, hminus]
          rfl
        exact absurd ⟨hrule, ⟨operator, hoperator, hsign⟩,
          operand, hoperand, isNumber_of_numberToken? hnumber⟩ (h token)
  · rw [if_neg hminus]

/-- The sign of 2³¹ is read with it, and the sign of another number apart from it. -/
theorem Expr.ofProduction_of_negates (h : production.Negates token) :
    Expr.ofProduction file production =
      if isMinimumMagnitude token.text then .ok (.number (token.location file) Int32.minValue)
      else Expr.unary (production.location file) .minus <$> Expr.ofToken file token := by
  obtain ⟨operator, hoperator, hminus⟩ := h.operator_eq
  obtain ⟨operand, hoperand, hnumber⟩ := h.operand
  have htext : operatorText file production = .ok UnaryOp.minus.text := by
    rw [operatorText, hoperator]
    exact congrArg Except.ok hminus
  have hfound : numberToken? operand = some token :=
    Option.filter_eq_some_iff.mpr ⟨hnumber.innerToken?_eq, by simp [hnumber.kind_eq]⟩
  have hsign : negatedMinimum? .minus operand =
      if isMinimumMagnitude token.text then some token else none := by
    rw [negatedMinimum?, if_pos rfl, hfound, Option.filter_some]
  rw [Expr.ofProduction_unary_eq h.rule_eq hoperand, htext, ← Expr.ofElement_of_isNumber hnumber]
  simp only [bind, Except.bind, unaryOf, UnaryOp.ofText?_text, hsign]
  cases isMinimumMagnitude token.text <;> rfl

/-- A negated number is accepted from -2³¹ to 2³¹, as a literal or as the negation of one. -/
theorem Expr.ofProduction_of_denotes {value : Int} (h : production.Negates token)
    (hdenotes : Text.Denotes token.text value) (hlow : -2147483648 ≤ value)
    (hhigh : value ≤ 2147483648) :
    Expr.ofProduction file production = .ok (
      if value = 2147483648 then .number (token.location file) Int32.minValue
      else .unary (production.location file) .minus
        (.number (token.location file) (Int32.ofInt value))) := by
  obtain ⟨operand, -, hnumber⟩ := h.operand
  rw [Expr.ofProduction_of_negates h]
  by_cases hminimum : value = 2147483648
  · subst hminimum
    rw [if_pos (isMinimumMagnitude_iff.mpr hdenotes), if_pos rfl]
  -- a text denotes one number only, so this one is not read as 2³¹
  · have hmagnitude : ¬ isMinimumMagnitude token.text := by
      intro hmagnitude
      exact hminimum (hdenotes.unique (isMinimumMagnitude_iff.mp hmagnitude)).symm
    rw [if_neg hmagnitude, if_neg hminimum,
      Expr.ofToken_of_denotes hnumber.kind_eq hdenotes hlow (by omega)]
    rfl

/-- Any other text is refused with a sign too, and the token is reported. -/
theorem Expr.ofProduction_of_out_of_range (h : production.Negates token)
    (hrange : ∀ value, Text.Denotes token.text value →
      ¬ (-2147483648 ≤ value ∧ value ≤ 2147483648)) :
    Expr.ofProduction file production =
      .error ⟨.primaryExpression, token.location file, .numberRange token.text⟩ := by
  obtain ⟨operand, -, hnumber⟩ := h.operand
  have hmagnitude : ¬ isMinimumMagnitude token.text := by
    intro hmagnitude
    exact hrange _ (isMinimumMagnitude_iff.mp hmagnitude) (by omega)
  have hout : ∀ value, Text.Denotes token.text value →
      ¬ (-2147483648 ≤ value ∧ value < 2147483648) := by
    intro value hvalue hbounds
    exact hrange value hvalue ⟨hbounds.1, by omega⟩
  rw [Expr.ofProduction_of_negates h, if_neg hmagnitude,
    Expr.ofToken_of_out_of_range hnumber.kind_eq hout]
  rfl

end MiniC
