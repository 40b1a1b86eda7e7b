import MiniC.Proofs.Reading.Positions.Dependence
import MiniC.Proofs.Reading.Parentheses.Productions

/-!
# Values in expressions

Each production of an expression is read from what stands in its gap, if it takes an expression
there (`Gap.Takes`): an expression in parentheses, an operand, the value of an assignment, an
argument.
-/

namespace MiniC

open ParseTree
open Ast (Tree)

namespace ParseTree

/-- An element that is looked for as an expression only.  A name may be looked for as an
identifier as well. -/
structure Element.IsValue (element : Element) : Prop where
  isExpression : element.isExpression = true
  isName_eq : element.isName = false

theorem Element.IsNumeral.isValue {element : Element} (h : element.IsNumeral) :
    element.IsValue := by
  obtain ⟨token, hnumber⟩ := h
  exact ⟨hnumber.isExpression, hnumber.isName_eq⟩

theorem Element.IsNegation.isValue {element : Element} (h : element.IsNegation) :
    element.IsValue := by
  obtain ⟨production, token, rfl, hnegates⟩ := h
  refine ⟨?_, rfl⟩
  rw [Element.isExpression, hnegates.rule_eq]
  rfl

/-- A change of what is found keeps it in the syntax tree. -/
def Role.Keeps (inner outer : Role) (change : inner.Result → outer.Result) : Prop :=
  ∀ found (tree : Tree), tree.Within (inner.trees found) → tree.Within (outer.trees (change found))

theorem Role.keeps_id (role : Role) : role.Keeps role id := fun _ _ h => h

namespace Gap

variable {gap : Gap} {element : Element}

/-- An element in a gap with no number behind a minus sign. -/
def Admits (gap : Gap) (element : Element) : Prop :=
  element.IsValue ∧ ∀ token, ¬ (gap.fill element).Negates token

/-! ## What a gap leaves alone -/

/-- What is looked for among tokens is looked for outside the gap. -/
theorem find?_tokens_fill {test : Token → Bool}
    (h : ∀ token, element = .token token → test token = false) :
    (gap.fill element).tokens.find? test = gap.empty.tokens.find? test := by
  rw [Production.tokens, Production.tokens, fill, empty]
  simp only [List.filterMap_append, List.find?_append]
  -- the element is no token, or one that is not looked for
  cases element with
  | production production => rfl
  | token token =>
      rw [List.filterMap_cons_some (by rfl), List.find?_cons_of_neg (by simp [h token rfl])]

theorem operatorText_fill (file : String) (h : element.isExpression) :
    operatorText file (gap.fill element) = operatorText file gap.empty := by
  have hoperator : (gap.fill element).firstToken? .operator = gap.empty.firstToken? .operator := by
    apply find?_tokens_fill
    rintro token rfl
    exact beq_eq_false_iff_ne.mpr (kind_ne_of_isExpression h (by decide) (by decide))
  rw [operatorText, operatorText, hoperator]
  rfl

theorem requiredIdentifier_fill (file : String) (h : element.isName = false) :
    requiredIdentifier file (gap.fill element) = requiredIdentifier file gap.empty := by
  have hname : (gap.fill element).firstToken? .identifier = gap.empty.firstToken? .identifier := by
    apply find?_tokens_fill
    rintro token rfl
    exact h
  rw [requiredIdentifier, requiredIdentifier, hname]
  rfl

theorem child?_fill {rule : Rule} (h : element.isOf rule = false) :
    (gap.fill element).child? rule = gap.empty.child? rule := by
  rw [Production.child?, Production.child?, Production.productions, Production.productions, fill,
    empty]
  simp only [List.filterMap_append, List.find?_append]
  cases element with
  | token token => rfl
  | production production =>
      rw [List.filterMap_cons_some (by rfl),
        List.find?_cons_of_neg (by simpa [Element.isOf] using h)]

/-- The first production of a rule is in the gap if there is none in front of it. -/
theorem child?_fill_of_first {rule : Rule} {production : Production} (h : production.rule = rule)
    (hfirst : gap.front.any (Element.isOf rule) = false) :
    (gap.fill (.production production)).child? rule = some production := by
  -- no production of the rule is in front of the gap
  have hfront : (gap.front.filterMap Element.production?).find? (·.rule == rule) = none := by
    rw [List.find?_eq_none]
    intro other hother hsame
    obtain ⟨element, hmem, helement⟩ := List.mem_filterMap.mp hother
    cases element with
    | token token => cases helement
    | production found =>
        cases helement
        have hany : gap.front.any (Element.isOf rule) = true :=
          List.any_eq_true.mpr ⟨_, hmem, hsame⟩
        rw [hfirst] at hany
        cases hany
  rw [Production.child?, Production.productions, fill, List.filterMap_append, List.find?_append,
    hfront, List.filterMap_cons_some (by rfl), List.find?_cons_of_pos (by simp [h])]
  rfl

/-- The first expression is in the gap if there is none in front of it. -/
theorem head?_expressions_fill (h : element.isExpression)
    (hfirst : gap.front.any Element.isExpression = false) :
    (gap.fill element).expressions.head? = some element := by
  have hfront : gap.front.filter Element.isExpression = [] := by
    rw [List.filter_eq_nil_iff]
    intro other hother hexpression
    exact absurd (List.any_eq_true.mpr ⟨other, hother, hexpression⟩) (by simp [hfirst])
  rw [Production.expressions, fill, List.filter_append, hfront, List.filter_cons_of_pos h]
  rfl

theorem operandsOf_fill (file : String) (h : element.isExpression) :
    operandsOf file (gap.fill element).children =
      operandsOf file gap.front ++ Expr.ofElement file element :: operandsOf file gap.back := by
  rw [operandsOf_eq, operandsOf_eq, operandsOf_eq, fill, List.filter_append,
    List.filter_cons_of_pos h, List.map_append, List.map_cons]

end Gap

end ParseTree

/-! ## Expressions -/

section Expressions

variable {file : String} {gap : Gap}

theorem depends_enclosed (hrule : gap.rule.isWrapper)
    (hfirst : gap.front.any Element.isExpression = false) :
    Depends gap.Admits (Expr.ofElement file)
      (fun element => Expr.ofProduction file (gap.fill element))
      (Role.Keeps .expression .expression) := by
  refine .of_eq (Role.keeps_id .expression) ?_
  intro element helement
  rw [id_map, Expr.ofProduction_of_encloses
    ⟨hrule, Gap.head?_expressions_fill helement.1.isExpression hfirst⟩]

/-- What a binary operator is read as between the operands of a production. -/
def binaryOf (file : String) (production : Production) (text : String)
    (operands : List (Reading Expr)) : Reading Expr :=
  match BinaryOp.ofText? text with
  | none => .error (production.malformed file (.unknownBinary text))
  | some op =>
      match operands with
      | [left, right] => do return .binary (production.location file) op (← left) (← right)
      | _ => .error (production.malformed file (.operandCount operands.length))

theorem Expr.ofProduction_binary_eq {production : Production}
    (hrule : production.rule = .binaryExpression) :
    Expr.ofProduction file production = operatorText file production >>= fun text =>
      binaryOf file production text (operandsOf file production.children) := by
  obtain ⟨rule, line, column, children⟩ := production
  cases hrule
  rw [ofProduction]
  rfl

/-- There have to be two operands. -/
theorem exists_binaryOf_eq_error {operands : List (Reading Expr)} (h : operands.length ≠ 2)
    (production : Production) (text : String) :
    ∃ malformation, binaryOf file production text operands = .error malformation := by
  unfold binaryOf
  cases BinaryOp.ofText? text with
  | none => exact ⟨_, rfl⟩
  | some op =>
      rcases operands with _ | ⟨left, _ | ⟨right, _ | ⟨third, others⟩⟩⟩
      case cons.cons.nil => exact absurd rfl h
      all_goals exact ⟨_, rfl⟩

theorem binaryOf_pair {op : BinaryOp} {text : String} (h : BinaryOp.ofText? text = some op)
    (production : Production) (left right : Reading Expr) :
    binaryOf file production text [left, right] = left >>= fun first => right >>= fun second =>
      pure (.binary (production.location file) op first second) := by
  rw [binaryOf, h]

theorem depends_operand (hrule : gap.rule = .binaryExpression) :
    Depends gap.Admits (Expr.ofElement file)
      (fun element => Expr.ofProduction file (gap.fill element))
      (Role.Keeps .expression .expression) := by
  have heq : ∀ element, gap.Admits element → Expr.ofProduction file (gap.fill element) =
      operatorText file gap.empty >>= fun text =>
        binaryOf file gap.empty text (operandsOf file gap.front ++
          Expr.ofElement file element :: operandsOf file gap.back) := by
    intro element helement
    rw [Expr.ofProduction_binary_eq hrule, Gap.operatorText_fill file helement.1.isExpression,
      Gap.operandsOf_fill file helement.1.isExpression]
    rfl
  refine .congr heq (.bind fun text _ => ?_)
  cases hop : BinaryOp.ofText? text with
  | none =>
      refine .of_error (gap.empty.malformed file (.unknownBinary text)) ?_
      intro element _
      simp only [binaryOf, hop]
  | some op =>
      by_cases hcount : (operandsOf file gap.front).length + (operandsOf file gap.back).length = 1
      · -- the other operand stands in front of the gap or after it
        cases hfront : operandsOf file gap.front with
        | nil =>
            obtain ⟨right, hback⟩ := List.length_eq_one_iff.mp (by simpa [hfront] using hcount)
            rw [hback]
            refine .congr (fun element _ => binaryOf_pair hop _ _ right) (.before ?_)
            intro value found tree htree
            exact htree.node_first (List.Subset.refl _)
        | cons left lefts =>
            rw [hfront, List.length_cons] at hcount
            obtain rfl : lefts = [] := List.length_eq_zero_iff.mp (by omega)
            have hback : operandsOf file gap.back = [] := List.length_eq_zero_iff.mp (by omega)
            rw [hback]
            refine .congr (fun element _ => binaryOf_pair hop _ left _) (.bind fun first _ => ?_)
            refine .of_eq ?_ fun _ _ => rfl
            intro found tree htree
            exact htree.node_second (List.Subset.refl _)
      · refine .inl fun element _ => exists_binaryOf_eq_error ?_ _ _
        rw [List.length_append, List.length_cons]
        omega

theorem depends_signed (hrule : gap.rule = .unaryExpression)
    (hfirst : gap.front.any Element.isExpression = false) :
    Depends gap.Admits (Expr.ofElement file)
      (fun element => Expr.ofProduction file (gap.fill element))
      (Role.Keeps .expression .expression) := by
  have heq : ∀ element, gap.Admits element → Expr.ofProduction file (gap.fill element) =
      operatorText file gap.empty >>= unaryOf file (gap.fill element) element := by
    intro element helement
    have hvalue := helement.1.isExpression
    rw [Expr.ofProduction_unary_eq hrule (Gap.head?_expressions_fill hvalue hfirst),
      Gap.operatorText_fill file hvalue]
  refine .congr heq (.bind fun text htext => ?_)
  cases hop : UnaryOp.ofText? text with
  | none =>
      refine .of_error (gap.empty.malformed file (.unknownUnary text)) ?_
      intro element _
      rw [unaryOf, hop]
      rfl
  | some op =>
      have hkeeps : Role.Keeps .expression .expression
          (Expr.unary (gap.empty.location file) op) := by
        intro found tree htree
        exact htree.node_first (List.Subset.refl _)
      refine .of_eq hkeeps ?_
      intro element helement
      have hvalue := helement.1.isExpression
      have htext := (Gap.operatorText_fill file hvalue).trans htext
      -- no number is behind the minus sign, so the sign is read by itself
      have hnone := negatedMinimum?_eq_none hrule htext hop
        (Gap.head?_expressions_fill hvalue hfirst) helement.2
      simp only [unaryOf, hop, hnone]
      rfl

theorem Expr.ofProduction_assign_eq {production : Production} {target value : Element}
    (hrule : production.rule = .assignExpression)
    (hexpressions : production.expressions = [target, value]) :
    Expr.ofProduction file production =
      match nameToken? target with
      | none => .error (production.malformed file .notVariable)
      | some token =>
          Expr.assign (production.location file) (token.location file) token.text <$>
            Expr.ofElement file value := by
  obtain ⟨rule, line, column, children⟩ := production
  cases hrule
  have hread : operandsOf file children =
      [Expr.ofElement file target, Expr.ofElement file value] := by
    rw [operandsOf_eq]
    exact congrArg (List.map (Expr.ofElement file)) hexpressions
  rw [ofProduction]
  simp only [hread, hexpressions]
  cases nameToken? target with
  | none => rfl
  | some token => cases Expr.ofElement file value <;> rfl

/-- There has to be one value after the target. -/
theorem Expr.ofProduction_assign_error {production : Production}
    (hrule : production.rule = .assignExpression) (hcount : production.expressions.length ≠ 2) :
    Expr.ofProduction file production = .error (production.malformed file .notAssignment) := by
  obtain ⟨rule, line, column, children⟩ := production
  cases hrule
  rw [ofProduction]
  split
  next target value first second hexpressions hoperands =>
    rw [hexpressions] at hcount
    exact absurd rfl hcount
  next => rfl

theorem depends_assigned (hrule : gap.rule = .assignExpression)
    (htarget : gap.front.any Element.isExpression = true) :
    Depends gap.Admits (Expr.ofElement file)
      (fun element => Expr.ofProduction file (gap.fill element))
      (Role.Keeps .expression .expression) := by
  have hexpressions : ∀ element, gap.Admits element → (gap.fill element).expressions =
      gap.front.filter Element.isExpression ++
        element :: gap.back.filter Element.isExpression := by
    intro element helement
    rw [Production.expressions, Gap.fill, List.filter_append,
      List.filter_cons_of_pos helement.1.isExpression]
  have hpositive : 0 < (gap.front.filter Element.isExpression).length := by
    obtain ⟨target, hmem, hexpression⟩ := List.any_eq_true.mp htarget
    exact List.length_pos_of_mem (List.mem_filter.mpr ⟨hmem, hexpression⟩)
  -- one target in front and nothing after the value, or there are not two expressions
  by_cases hcount : (gap.front.filter Element.isExpression).length = 1 ∧
      gap.back.filter Element.isExpression = []
  · obtain ⟨hone, hback⟩ := hcount
    obtain ⟨target, hfront⟩ := List.length_eq_one_iff.mp hone
    have heq : ∀ element, gap.Admits element → Expr.ofProduction file (gap.fill element) =
        match nameToken? target with
        | none => .error (gap.empty.malformed file .notVariable)
        | some token =>
            Expr.assign (gap.empty.location file) (token.location file) token.text <$>
              Expr.ofElement file element := by
      intro element helement
      apply Expr.ofProduction_assign_eq hrule
      rw [hexpressions element helement, hfront, hback]
      rfl
    refine .congr heq ?_
    cases nameToken? target with
    | none => exact .of_error _ fun _ _ => rfl
    | some token =>
        refine .of_eq ?_ fun _ _ => rfl
        intro found tree htree
        exact htree.node_second (List.Subset.refl _)
  · refine .of_error (gap.empty.malformed file .notAssignment) ?_
    intro element helement
    apply Expr.ofProduction_assign_error hrule
    rw [hexpressions element helement, List.length_append, List.length_cons]
    intro htwo
    exact hcount ⟨by omega, List.length_eq_zero_iff.mp (by omega)⟩

/-! ## Arguments -/

/-- What the arguments of a call are read as. -/
def readArguments (file : String) (list : Production) : Reading ArgumentList :=
  (fun values => ⟨list.location file, values⟩) <$> list.expressions.mapM (Expr.ofElement file)

theorem expressionTrees_eq (values : List Expr) :
    expressionTrees values = values.map Expr.toTree := by
  induction values with
  | nil => rfl
  | cons value values ih => rw [expressionTrees, ih, List.map_cons]

theorem Expr.ofProduction_call_eq {production : Production}
    (hrule : production.rule = .callExpression) :
    Expr.ofProduction file production = requiredIdentifier file production >>= fun callee =>
      match argumentsOf? file production.children with
      | none => pure (.call (production.location file) callee.text none)
      | some (listLocation, values) => do
          return .call (production.location file) callee.text
            (some ⟨listLocation, ← values.mapM id⟩) := by
  obtain ⟨rule, line, column, children⟩ := production
  cases hrule
  rewrite [ofProduction]
  rfl

/-- The first arguments are in the gap if there are none in front of it. -/
theorem argumentsOf?_fill {list : Production} (hlist : list.rule = .args)
    (hfirst : gap.front.any (Element.isOf .args) = false) :
    argumentsOf? file (gap.fill (.production list)).children =
      some (list.location file, list.expressions.map (Expr.ofElement file)) := by
  have hchild : (gap.fill (.production list)).child? .args = some list :=
    Gap.child?_fill_of_first hlist hfirst
  rw [argumentsOf?_eq]
  exact congrArg (Option.map _) hchild

theorem depends_called (hrule : gap.rule = .callExpression)
    (hfirst : gap.front.any (Element.isOf .args) = false) :
    Depends (·.rule = .args) (readArguments file)
      (fun list => Expr.ofProduction file (gap.fill (.production list)))
      (Role.Keeps .arguments .expression) := by
  have heq : ∀ list : Production, list.rule = .args →
      Expr.ofProduction file (gap.fill (.production list)) =
        requiredIdentifier file gap.empty >>= fun callee =>
          (fun arguments => .call (gap.empty.location file) callee.text (some arguments)) <$>
            readArguments file list := by
    intro list hlist
    rw [Expr.ofProduction_call_eq hrule, argumentsOf?_fill hlist hfirst,
      Gap.requiredIdentifier_fill file (by rfl)]
    refine bind_congr fun callee => ?_
    dsimp only
    rw [readArguments, mapM_map_id]
    cases list.expressions.mapM (Expr.ofElement file) <;> rfl
  refine .congr heq (.bind fun callee _ => .of_eq ?_ fun _ _ => rfl)
  intro found tree htree
  exact htree.node_first (List.Subset.refl _)

theorem depends_argument :
    Depends gap.Admits (Expr.ofElement file) (fun element => readArguments file (gap.fill element))
      (Role.Keeps .expression .arguments) := by
  have heq : ∀ element, gap.Admits element → readArguments file (gap.fill element) =
      (fun values => ⟨gap.empty.location file, values⟩) <$>
        (gap.front.filter Element.isExpression ++
          element :: gap.back.filter Element.isExpression).mapM (Expr.ofElement file) := by
    intro element helement
    rw [readArguments, Production.expressions, Gap.fill, List.filter_append,
      List.filter_cons_of_pos helement.1.isExpression]
    rfl
  refine .congr heq (.map (.mapM fun _ _ => rfl) ?_)
  rintro inner ⟨before, after, hinner⟩ found tree htree
  have hsubset : [found.toTree] ⊆ expressionTrees (inner found) := by
    rw [expressionTrees_eq, hinner]
    simp
  exact htree.node_first hsubset

end Expressions

end MiniC
