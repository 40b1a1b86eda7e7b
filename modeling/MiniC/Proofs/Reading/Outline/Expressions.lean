import MiniC.Proofs.Reading.Outline.Trees
import MiniC.Proofs.Reading.Places
import MiniC.Proofs.Reading.Results
import MiniC.Proofs.Translation.Outline

/-!
# Reading the outline of an expression

The outline of an element spells the outline of the expression that the element spells,
and where it spells none the outline spells none for the same reason
(`Expr.ofElement_outline`).
-/

namespace MiniC

open ParseTree

/-! ## Expressions -/

section Expressions

variable (file : String)

/-- An element whose outline spells the outline of its expression. -/
def SpellsOutline (element : Element) : Prop :=
  Expr.ofElement unnamedFile (element.outline false) =
    outlineReading Expr.outline (Expr.ofElement file element)

theorem Expr.ofToken_outline (token : Token) :
    Expr.ofToken unnamedFile (token.outline false) =
      outlineReading Expr.outline (Expr.ofToken file token) := by
  obtain ⟨kind, text, line, column⟩ := token
  cases kind with
  | number =>
      simp only [Token.outline, ofToken, Bool.false_eq_true, if_false]
      cases Text.int32? text <;> rfl
  | _ => rfl

theorem innerToken?_outline (element : Element) :
    innerToken? (element.outline false) = (innerToken? element).map (Token.outline false) := by
  induction element using Element.induction with
  | token token => rfl
  | production production ih =>
      rw [Element.outline, innerToken?_production, innerToken?_production,
        Production.rule_outline]
      by_cases hrule : production.rule.isWrapper
      -- a wrapper is no type specifier, so its outline keeps the texts
      · have hspecifier : production.rule ≠ .typeSpecifier := by
          intro heq
          rw [heq] at hrule
          cases hrule
        rw [if_pos hrule, if_pos hrule, Production.expressions_outline hspecifier, List.head?_map]
        cases hfirst : production.expressions.head? with
        | none => rfl
        | some first =>
            exact ih first (List.mem_filter.mp (List.mem_of_mem_head? hfirst)).1
      · rw [if_neg hrule, if_neg hrule]
        rfl

theorem nameToken?_outline (element : Element) :
    nameToken? (element.outline false) = (nameToken? element).map (Token.outline false) := by
  rw [nameToken?, nameToken?, innerToken?_outline]
  exact option_filter_outline (fun _ => rfl) _

theorem negatedMinimum?_outline (op : UnaryOp) (element : Element) :
    negatedMinimum? op (element.outline false) =
      (negatedMinimum? op element).map (Token.outline false) := by
  unfold negatedMinimum? numberToken?
  rw [innerToken?_outline]
  by_cases hop : op = .minus
  · rw [if_pos hop, if_pos hop, option_filter_outline fun _ => rfl]
    exact option_filter_outline (fun _ => rfl) _
  · rw [if_neg hop, if_neg hop]
    rfl

theorem operatorText_outline {production : Production} (h : production.rule ≠ .typeSpecifier) :
    operatorText unnamedFile (production.outline false) =
      outlineReading id (operatorText file production) := by
  rw [operatorText, operatorText, Production.firstToken?_outline h]
  exact outline_bind (required_outline file false production _ _) fun _ => rfl

theorem requiredIdentifier_outline {production : Production}
    (h : production.rule ≠ .typeSpecifier) :
    requiredIdentifier unnamedFile (production.outline false) =
      outlineReading (Token.outline false) (requiredIdentifier file production) := by
  rw [requiredIdentifier, requiredIdentifier, Production.firstToken?_outline h]
  exact required_outline file false production _ _

variable {file}

theorem operandsOf_outline {children : List Element}
    (h : ∀ child ∈ children, SpellsOutline file child) :
    operandsOf unnamedFile (children.map (Element.outline false)) =
      (operandsOf file children).map (outlineReading Expr.outline) := by
  rw [operandsOf_eq, operandsOf_eq,
    filter_map_outline (Element.isExpression_outline false) children, List.map_map, List.map_map]
  exact List.map_congr_left fun child hchild => h child (List.mem_filter.mp hchild).1

theorem argumentsOf?_outline {children : List Element}
    (h : ∀ list, .production list ∈ children → ∀ child ∈ list.children, SpellsOutline file child) :
    argumentsOf? unnamedFile (children.map (Element.outline false)) =
      (argumentsOf? file children).map fun (_, values) =>
        (.unknown, values.map (outlineReading Expr.outline)) := by
  rw [argumentsOf?_eq, argumentsOf?_eq, Production.filterMap_production?_outline,
    find?_map_outline (fun production => by rw [Production.rule_outline]) _]
  cases hlist : (children.filterMap Element.production?).find? (·.rule == .args) with
  | none => rfl
  | some list =>
      have hargs : list.rule = .args := by simpa using List.find?_some hlist
      have hmem : .production list ∈ children :=
        @mem_children_of_mem_productions ⟨.args, 0, 0, children⟩ list
          (List.mem_of_find?_eq_some hlist)
      have hvalues : (list.outline false).expressions.map (Expr.ofElement unnamedFile) =
          (list.expressions.map (Expr.ofElement file)).map (outlineReading Expr.outline) := by
        rw [Production.expressions_outline (by rw [hargs]; decide), List.map_map, List.map_map]
        exact List.map_congr_left fun child hchild =>
          h list hmem child (List.mem_filter.mp hchild).1
      simp only [Option.map_some, hvalues]
      rw [unnamedFile, Production.location_outline]

theorem Expr.ofProduction_outline (production : Production)
    (h : ∀ child ∈ production.children, SpellsOutline file child)
    (hbelow : ∀ list, .production list ∈ production.children →
      ∀ child ∈ list.children, SpellsOutline file child) :
    Expr.ofProduction unnamedFile (production.outline false) =
      outlineReading Expr.outline (Expr.ofProduction file production) := by
  obtain ⟨rule, line, column, children⟩ := production
  have hoperands : operandsOf unnamedFile (children.map (Element.outline false)) =
      (operandsOf file children).map (outlineReading Expr.outline) := operandsOf_outline h
  cases rule with
  | primaryExpression | parenExpression =>
      rw [Production.outline_mk (by decide), ofProduction, ofProduction, hoperands, List.head?_map,
        ← Production.outline_mk (by decide) line column children]
      exact outline_bind (required_outline file false _ _ _) fun reading => rfl
  | binaryExpression =>
      have hrule : Rule.binaryExpression ≠ .typeSpecifier := by decide
      rw [Production.outline_mk hrule, ofProduction, ofProduction, hoperands,
        ← Production.outline_mk hrule line column children]
      refine outline_bind (operatorText_outline file hrule) fun text => ?_
      simp only [id_eq, List.length_map]
      cases BinaryOp.ofText? text with
      | none => exact congrArg Except.error (malformed_outline file false _ _)
      | some op =>
          -- the outline has as many operands, so both readings fail or both go on
          rcases operandsOf file children with _ | ⟨left, _ | ⟨right, _ | ⟨third, others⟩⟩⟩
          · exact congrArg Except.error (malformed_outline file false _ _)
          · exact congrArg Except.error (malformed_outline file false _ _)
          · exact outline_bind rfl fun first => outline_bind rfl fun second => rfl
          · exact congrArg Except.error (malformed_outline file false _ _)
  | unaryExpression =>
      have hrule : Rule.unaryExpression ≠ .typeSpecifier := by decide
      rw [Production.outline_mk hrule, ofProduction, ofProduction, hoperands,
        ← Production.outline_mk hrule line column children, Production.expressions_outline hrule,
        List.head?_map, List.head?_map]
      refine outline_bind (operatorText_outline file hrule) fun text => ?_
      simp only [id_eq]
      cases UnaryOp.ofText? text with
      | none => exact congrArg Except.error (malformed_outline file false _ _)
      | some op =>
          refine outline_bind (required_outline file false _ _ _) fun element => ?_
          -- the text of the operand is kept, and with it what the sign belongs to
          rw [negatedMinimum?_outline]
          cases negatedMinimum? op element with
          | some token => rfl
          | none =>
              refine outline_bind (required_outline file false _ _ _) fun reading => ?_
              exact outline_bind rfl fun operand => rfl
  | assignExpression =>
      have hrule : Rule.assignExpression ≠ .typeSpecifier := by decide
      rw [Production.outline_mk hrule, ofProduction, ofProduction, hoperands,
        ← Production.outline_mk hrule line column children, Production.expressions_outline hrule]
      rcases Production.expressions ⟨.assignExpression, line, column, children⟩ with
        _ | ⟨target, _ | ⟨other, _ | ⟨third, others⟩⟩⟩
      · exact congrArg Except.error (malformed_outline file false _ _)
      · exact congrArg Except.error (malformed_outline file false _ _)
      · rcases operandsOf file children with _ | ⟨first, _ | ⟨value, _ | ⟨more, rest⟩⟩⟩
        · exact congrArg Except.error (malformed_outline file false _ _)
        · exact congrArg Except.error (malformed_outline file false _ _)
        · simp only [List.map_cons, List.map_nil, nameToken?_outline]
          cases nameToken? target with
          | none => exact congrArg Except.error (malformed_outline file false _ _)
          | some token => exact outline_bind rfl fun assigned => rfl
        · exact congrArg Except.error (malformed_outline file false _ _)
      · exact congrArg Except.error (malformed_outline file false _ _)
  | callExpression =>
      have hrule : Rule.callExpression ≠ .typeSpecifier := by decide
      rw [Production.outline_mk hrule, ofProduction, ofProduction, argumentsOf?_outline hbelow,
        ← Production.outline_mk hrule line column children]
      refine outline_bind (requiredIdentifier_outline file hrule) fun callee => ?_
      cases argumentsOf? file children with
      | none => rfl
      | some list =>
          refine outline_bind (outline_mapM fun _ _ => rfl) fun values => ?_
          rw [← outlineValues_eq]
          rfl
  | _ => rfl

variable (file)

/-- The outline of an element spells the outline of its expression. -/
theorem Expr.ofElement_outline (element : Element) : SpellsOutline file element := by
  induction element using Element.induction_below with
  | token token => exact Expr.ofToken_outline file token
  | production production ih below => exact Expr.ofProduction_outline production ih below

end Expressions

end MiniC
