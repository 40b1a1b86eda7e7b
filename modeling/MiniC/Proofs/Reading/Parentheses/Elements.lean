import Mathlib.Data.List.TakeWhile
import MiniC.Proofs.Reading.Results

/-!
# Elements in parentheses

An element that stands where an expression is read may be put in parentheses: a
parenthesized or primary expression takes its place, of which it is the first expression
(`Production.Parenthesizes`).

Of the two parse trees, the productions on the way down to that place are read alike
(`Production.Alike`), and so is what takes the place of a child (`Element.Alike`).  What a
production is read from is a list of its children, of which some are passed over and the
others are read, so that one child may be exchanged for another one that is read alike
(`map_filter_exchange`).
-/

namespace MiniC

namespace ParseTree

/-! ## Parentheses -/

/-- Whether an element after some children of a production can be read as an expression.  An
initial value comes after a token `=`, and in a function after the name of the variable too. -/
def Rule.expectsExpression (front : List Element) : Rule → Bool
  | binaryExpression | unaryExpression | assignExpression | parenExpression | primaryExpression
  | args | statement | ifStatement | whileStatement | block | statementList => true
  | initializer => front.any Element.isAssign
  | localDeclaration => front.any Element.isAssign && front.any Element.isName
  | _ => false

/-- A production that is parentheses around an element: the element is the first expression
in it. -/
def Production.Encloses (wrapper : Production) (element : Element) : Prop :=
  wrapper.rule.isWrapper ∧ wrapper.expressions.head? = some element

/-- One element of a parse tree that stands where an expression is read is put in
parentheses. -/
inductive Production.Parenthesizes : Production → Production → Prop
  | here {rule : Rule} {line column : UInt32} {element : Element} {wrapper : Production}
      (front back : List Element) (hposition : rule.expectsExpression front)
      (hencloses : wrapper.Encloses element) :
      Parenthesizes ⟨rule, line, column, front ++ element :: back⟩
        ⟨rule, line, column, front ++ .production wrapper :: back⟩
  | deeper {rule : Rule} {line column : UInt32} {inner changed : Production}
      (front back : List Element) (h : Parenthesizes inner changed) :
      Parenthesizes ⟨rule, line, column, front ++ .production inner :: back⟩
        ⟨rule, line, column, front ++ .production changed :: back⟩

theorem Production.Encloses.isExpression {wrapper : Production} {element : Element}
    (h : wrapper.Encloses element) : element.isExpression :=
  (List.mem_filter.mp (List.mem_of_mem_head? h.2)).2

theorem Element.isPunctuation_of_isSymbol {element : Element} (h : element.isSymbol = false) :
    element.isPunctuation = false := by
  cases element with
  | production production => rfl
  | token token =>
      rw [isSymbol, Bool.or_assoc, Bool.or_eq_false_iff] at h
      exact h.1

theorem Element.isPunctuationOrKeyword_of_isSymbol {element : Element}
    (h : element.isSymbol = false) : element.isPunctuationOrKeyword = false := by
  cases element with
  | production production => rfl
  | token token =>
      rw [isSymbol, Bool.or_eq_false_iff] at h
      exact h.1

end ParseTree

open ParseTree

/-! ## Productions that are read alike -/

/-- Two productions of the same rule in the same place that are read alike, whatever they are
read as. -/
structure ParseTree.Production.Alike (file : String) (p q : Production) : Prop where
  rule_eq : p.rule = q.rule
  location_eq : p.location file = q.location file
  innerToken?_eq : innerToken? (.production p) = innerToken? (.production q)
  expression_eq : Expr.ofProduction file p = Expr.ofProduction file q
  operands_eq : operandsOf file p.children = operandsOf file q.children
  statement_eq : Stmt.ofProduction file p = Stmt.ofProduction file q
  statements_eq : statementsOf file p.children = statementsOf file q.children
  listed_eq : listedStatements file p.children = listedStatements file q.children
  type_eq : p.rule = .typeSpecifier → typeText file p = typeText file q
  value_eq : p.rule = .initializer →
    (valueAfterAssign? p).map (Expr.ofElement file) =
      (valueAfterAssign? q).map (Expr.ofElement file)
  parameters_eq : p.rule = .fargs →
    ParameterList.ofProduction file p = ParameterList.ofProduction file q
  declaration_eq : p.rule = .functionDeclaration →
    FunctionDeclaration.ofProduction file p = FunctionDeclaration.ofProduction file q
  item_eq : Item.ofProduction file p = Item.ofProduction file q

/-- An element and what takes its place: parentheses around it, or a production that is read
alike. -/
inductive ParseTree.Element.Alike (file : String) : Element → Element → Prop
  | enclosed {element : Element} {wrapper : Production} (h : wrapper.Encloses element) :
      Alike file element (.production wrapper)
  | inside {p q : Production} (h : p.Alike file q) : Alike file (.production p) (.production q)

/-! ## What parentheses are read as -/

section Enclosing

variable {file : String} {wrapper : Production} {element : Element}

theorem Expr.ofProduction_of_encloses (h : wrapper.Encloses element) :
    Expr.ofProduction file wrapper = Expr.ofElement file element := by
  obtain ⟨rule, line, column, children⟩ := wrapper
  obtain ⟨hrule, hfirst⟩ := h
  have hoperand : (operandsOf file children).head? = some (Expr.ofElement file element) := by
    rw [operandsOf_eq, List.head?_map]
    exact congrArg (Option.map (Expr.ofElement file)) hfirst
  cases rule with
  | primaryExpression | parenExpression =>
      rw [Expr.ofProduction, hoperand]
      rfl
  | _ => cases hrule

/-- A production of an expression is read as a statement that is the expression. -/
theorem Stmt.ofProduction_of_isExpression {production : Production}
    (h : production.rule.isExpression) :
    Stmt.ofProduction file production = Stmt.expression <$> Expr.ofProduction file production := by
  obtain ⟨rule, line, column, children⟩ := production
  cases rule with
  | primaryExpression | parenExpression | binaryExpression | unaryExpression | assignExpression
  | callExpression => rfl
  | _ => cases h

theorem Stmt.ofElement_of_isExpression (h : element.isExpression) :
    Stmt.ofElement file element = Stmt.expression <$> Expr.ofElement file element := by
  cases element with
  | token token =>
      rw [Stmt.ofElement, Expr.ofElement]
      exact if_pos h
  | production production => exact Stmt.ofProduction_of_isExpression h

theorem innerToken?_of_encloses (h : wrapper.Encloses element) :
    innerToken? (.production wrapper) = innerToken? element := by
  rw [innerToken?_production, if_pos h.1, h.2, Option.bind_some]

end Enclosing

/-! ## What takes the place of an element -/

namespace ParseTree.Element.Alike

variable {file : String} {x y : Element}

theorem isExpression_eq (h : x.Alike file y) : x.isExpression = y.isExpression := by
  cases h with
  | enclosed h => exact h.isExpression.trans (Rule.isExpression_of_isWrapper h.1).symm
  | inside h => exact congrArg Rule.isExpression h.rule_eq

theorem isSymbol_eq (h : x.Alike file y) : x.isSymbol = false ∧ y.isSymbol = false := by
  cases h with
  | enclosed h => exact ⟨Element.not_isSymbol_of_isExpression h.isExpression, rfl⟩
  | inside h => exact ⟨rfl, rfl⟩

theorem isPunctuation_eq (h : x.Alike file y) : x.isPunctuation = y.isPunctuation := by
  rw [Element.isPunctuation_of_isSymbol h.isSymbol_eq.1,
    Element.isPunctuation_of_isSymbol h.isSymbol_eq.2]

theorem isPunctuationOrKeyword_eq (h : x.Alike file y) :
    x.isPunctuationOrKeyword = y.isPunctuationOrKeyword := by
  rw [Element.isPunctuationOrKeyword_of_isSymbol h.isSymbol_eq.1,
    Element.isPunctuationOrKeyword_of_isSymbol h.isSymbol_eq.2]

theorem innerToken?_eq (h : x.Alike file y) : innerToken? x = innerToken? y := by
  cases h with
  | enclosed h => exact (innerToken?_of_encloses h).symm
  | inside h => exact h.innerToken?_eq

theorem expression_eq (h : x.Alike file y) : Expr.ofElement file x = Expr.ofElement file y := by
  cases h with
  | enclosed h => exact (Expr.ofProduction_of_encloses h).symm
  | inside h => exact h.expression_eq

theorem statement_eq (h : x.Alike file y) : Stmt.ofElement file x = Stmt.ofElement file y := by
  cases h with
  | enclosed h =>
      rw [Stmt.ofElement_of_isExpression h.isExpression, ← Expr.ofProduction_of_encloses h]
      exact (Stmt.ofProduction_of_isExpression (Rule.isExpression_of_isWrapper h.1)).symm
  | inside h => exact h.statement_eq

end ParseTree.Element.Alike

/-! ## Exchanging one child -/

/-- One element is exchanged, and what is made of those that are looked for is the same. -/
theorem map_filter_exchange {α β : Type} {front back : List α} {x y : α} {test : α → Bool}
    {view : α → β} (htest : test x = test y) (hview : test x → view x = view y) :
    ((front ++ x :: back).filter test).map view = ((front ++ y :: back).filter test).map view := by
  rw [List.filter_append, List.filter_append, List.map_append, List.map_append]
  -- the elements in front are the same, and so are those behind
  congr 1
  cases hx : test x with
  | true =>
      rw [List.filter_cons_of_pos hx, List.filter_cons_of_pos (htest.symm.trans hx), List.map_cons,
        List.map_cons, hview hx]
  | false =>
      rw [List.filter_cons_of_neg (by simp [hx]), List.filter_cons_of_neg (by simp [← htest, hx])]

section Exchange

variable {file : String} {x y : Element} (h : x.Alike file y) (front back : List Element)

include h

theorem operandsOf_exchange :
    operandsOf file (front ++ x :: back) = operandsOf file (front ++ y :: back) := by
  rw [operandsOf_eq, operandsOf_eq]
  exact map_filter_exchange h.isExpression_eq fun _ => h.expression_eq

/-- The tokens that the expressions among children are but for parentheses. -/
theorem innerTokens_exchange :
    ((front ++ x :: back).filter Element.isExpression).map innerToken? =
      ((front ++ y :: back).filter Element.isExpression).map innerToken? :=
  map_filter_exchange h.isExpression_eq fun _ => h.innerToken?_eq

/-- Only tokens that are expressions are exchanged. -/
theorem find?_tokens_exchange {test : Token → Bool}
    (htest : ∀ token, token.isExpression → test token = false) :
    ((front ++ x :: back).filterMap Element.token?).find? test =
      ((front ++ y :: back).filterMap Element.token?).find? test := by
  cases h with
  | inside h => simp [Element.token?]
  | enclosed h =>
      cases x with
      | production production => simp [Element.token?]
      -- a token that is put in parentheses is an expression, so it is not looked for
      | token token => simp [Element.token?, htest token h.isExpression]

theorem innerStatement?_exchange :
    innerStatement? file (front ++ x :: back) = innerStatement? file (front ++ y :: back) := by
  rw [innerStatement?_eq, innerStatement?_eq, ← List.head?_filter, ← List.head?_filter,
    ← List.head?_map, ← List.head?_map,
    map_filter_exchange (by rw [h.isPunctuation_eq]) fun _ => h.statement_eq]

theorem listedStatements_exchange :
    listedStatements file (front ++ x :: back) = listedStatements file (front ++ y :: back) := by
  rw [listedStatements_eq, listedStatements_eq, ← mapM_map_id (Stmt.ofElement file),
    ← mapM_map_id (Stmt.ofElement file), map_filter_exchange (by rw [h.isPunctuation_eq])
      fun _ => h.statement_eq]

theorem loopBody?_exchange :
    loopBody? file (front ++ x :: back) = loopBody? file (front ++ y :: back) := by
  rw [loopBody?_eq, loopBody?_eq, ← List.getElem?_map, ← List.getElem?_map,
    map_filter_exchange (by rw [h.isPunctuationOrKeyword_eq]) fun _ => h.statement_eq]

/-- The condition of a loop is the first child that is neither punctuation nor a keyword, if
that is an expression. -/
theorem condition_exchange :
    (((front ++ x :: back).find? (!·.isPunctuationOrKeyword)).filter Element.isExpression).map
        (Expr.ofElement file) =
      (((front ++ y :: back).find? (!·.isPunctuationOrKeyword)).filter Element.isExpression).map
        (Expr.ofElement file) := by
  -- the first child that counts is read or it is not; either way the list is filtered as before
  have hread : ∀ children : List Element,
      ((children.find? (!·.isPunctuationOrKeyword)).filter Element.isExpression).map
          (Expr.ofElement file) =
        ((children.filter (!·.isPunctuationOrKeyword)).map fun child =>
          if child.isExpression then some (Expr.ofElement file child) else none).head?.join := by
    intro children
    rw [List.head?_map, List.head?_filter]
    cases children.find? (!·.isPunctuationOrKeyword) with
    | none => rfl
    | some child =>
        by_cases hchild : child.isExpression <;> simp [Option.filter, hchild]
  rw [hread, hread]
  congr 2
  refine map_filter_exchange ?_ fun _ => ?_
  · rw [h.isPunctuationOrKeyword_eq]
  · rw [h.isExpression_eq, h.expression_eq]

/-- The productions of a rule that is none of an expression. -/
theorem productionsOf_exchange {α : Type} {rule : Rule} (hrule : rule.isExpression = false)
    {view : Production → α}
    (hview : ∀ p q : Production, p.Alike file q → p.rule = rule → view p = view q) :
    (((front ++ x :: back).filterMap Element.production?).filter (·.rule == rule)).map view =
      (((front ++ y :: back).filterMap Element.production?).filter (·.rule == rule)).map view := by
  cases h with
  | inside h =>
      simp only [List.filterMap_append, List.filterMap_cons, Element.production?]
      refine map_filter_exchange (by rw [h.rule_eq]) fun hp => hview _ _ h (beq_iff_eq.mp hp)
  | @enclosed _ wrapper h =>
      -- parentheses are expressions, as is what is in them, so neither is of the rule
      have hwrapper : (Element.production wrapper).isExpression :=
        Rule.isExpression_of_isWrapper h.1
      rw [List.filterMap_append, List.filterMap_append, List.filter_append, List.filter_append,
        productionsOf_cons_of_isExpression h.isExpression hrule,
        productionsOf_cons_of_isExpression hwrapper hrule]

/-! ### Statements of a block -/

omit h in
theorem statementsOf_append :
    statementsOf file (front ++ back) = (do
      let statements ← statementsOf file front
      return statements ++ (← statementsOf file back)) := by
  induction front using statementElements.induct with
  | case1 =>
      rw [List.nil_append, statementsOf]
      cases statementsOf file back <;> rfl
  | case2 line column listed children ih =>
      rw [List.cons_append, statementsOf, ih, statementsOf]
      simp only [bind_assoc, pure_bind, List.append_assoc]
  | case3 child children hlist hchild ih =>
      rw [List.cons_append, statementsOf, if_pos hchild, ih, statementsOf, if_pos hchild]
        <;> exact hlist
  | case4 child children hlist hchild ih =>
      rw [List.cons_append, statementsOf, if_neg hchild, ih, statementsOf, if_neg hchild]
      · simp only [bind_assoc, pure_bind, List.cons_append]
      all_goals exact hlist

omit h in
/-- What is no list of statements is read as one statement. -/
theorem statementsOf_singleton {element : Element} (hlist : element.isOf .statementList = false) :
    statementsOf file [element] =
      if element.isPunctuation then .ok [] else (fun statement => [statement]) <$>
        Stmt.ofElement file element := by
  rw [statementsOf]
  · split
    · rfl
    · cases Stmt.ofElement file element <;> rfl
  · rintro line column listed rfl
    cases hlist

omit h in
theorem statementsOf_list {list : Production} (hlist : list.rule = .statementList) :
    statementsOf file [.production list] = listedStatements file list.children := by
  obtain ⟨rule, line, column, listed⟩ := list
  cases hlist
  rw [statementsOf, statementsOf]
  cases listedStatements file listed <;> simp [bind, Except.bind, pure, Except.pure]

/-- A list of statements is exchanged for one that is read alike, and what is read as a
statement for what is read as the same statement. -/
theorem statementsOf_singleton_exchange : statementsOf file [x] = statementsOf file [y] := by
  cases h with
  | @inside p q h =>
      -- a list of statements adds all of its statements to those of the block
      by_cases hlist : p.rule = .statementList
      · rw [statementsOf_list hlist, statementsOf_list (h.rule_eq.symm.trans hlist), h.listed_eq]
      · have hfirst : (Element.production p).isOf .statementList = false :=
          beq_eq_false_iff_ne.mpr hlist
        have hother : (Element.production q).isOf .statementList = false :=
          beq_eq_false_iff_ne.mpr fun heq => hlist (h.rule_eq.trans heq)
        have halike : (Element.production p).Alike file (.production q) := .inside h
        rw [statementsOf_singleton hfirst, statementsOf_singleton hother, halike.isPunctuation_eq,
          halike.statement_eq]
  | @enclosed _ wrapper h =>
      have halike : x.Alike file (.production wrapper) := .enclosed h
      have hwrapper : (Element.production wrapper).isExpression :=
        Rule.isExpression_of_isWrapper h.1
      rw [statementsOf_singleton (Element.not_isOf_of_isExpression h.isExpression rfl),
        statementsOf_singleton (Element.not_isOf_of_isExpression hwrapper rfl),
        halike.isPunctuation_eq, halike.statement_eq]

theorem statementsOf_exchange :
    statementsOf file (front ++ x :: back) = statementsOf file (front ++ y :: back) := by
  have hsplit : ∀ element : Element, front ++ element :: back = front ++ ([element] ++ back) :=
    fun _ => rfl
  -- the child is read apart from what is in front of it and behind it
  rw [hsplit x, hsplit y, statementsOf_append, statementsOf_append front, statementsOf_append [x],
    statementsOf_append [y], statementsOf_singleton_exchange h]

/-! ### Productions of one rule -/

/-- The first production of a rule that is none of an expression. -/
theorem child?_exchange {α : Type} {inner : Rule} (hrule : inner.isExpression = false)
    {view : Production → α}
    (hview : ∀ p q : Production, p.Alike file q → p.rule = inner → view p = view q)
    (rule : Rule) (line column : UInt32) :
    (Production.child? ⟨rule, line, column, front ++ x :: back⟩ inner).map view =
      (Production.child? ⟨rule, line, column, front ++ y :: back⟩ inner).map view := by
  have hfirst := congrArg List.head? (productionsOf_exchange h front back hrule hview)
  rw [List.head?_map, List.head?_map, List.head?_filter, List.head?_filter] at hfirst
  exact hfirst

theorem argumentsOf?_exchange :
    argumentsOf? file (front ++ x :: back) = argumentsOf? file (front ++ y :: back) := by
  rw [argumentsOf?_eq, argumentsOf?_eq]
  refine child?_exchange h front back rfl (fun p q halike _ => ?_) .callExpression 0 0
  have hoperands := halike.operands_eq
  rw [operandsOf_eq, operandsOf_eq] at hoperands
  rw [halike.location_eq]
  exact congrArg _ hoperands

theorem blocksOf_exchange :
    blocksOf file (front ++ x :: back) = blocksOf file (front ++ y :: back) := by
  rw [blocksOf_eq, blocksOf_eq]
  apply productionsOf_exchange h front back rfl
  intro p q halike _
  rw [Block.ofProduction_eq, Block.ofProduction_eq, halike.statements_eq, halike.location_eq]

/-! ### Initial values -/

omit h in
/-- A child that comes after a token `=`, or is none itself, is not what decides whether there
is one. -/
theorem any_isAssign_exchange
    (hassign : front.any Element.isAssign ∨ x.isAssign = false ∧ y.isAssign = false) :
    (front ++ x :: back).any Element.isAssign = (front ++ y :: back).any Element.isAssign := by
  rw [List.any_append, List.any_append, List.any_cons, List.any_cons]
  rcases hassign with hfront | ⟨hx, hy⟩
  · rw [hfront, Bool.true_or, Bool.true_or]
  · rw [hx, hy]

theorem valueAfterAssign?_exchange
    (hassign : front.any Element.isAssign ∨ x.isAssign = false ∧ y.isAssign = false)
    (rule : Rule) (line column : UInt32) :
    (valueAfterAssign? ⟨rule, line, column, front ++ x :: back⟩).map (Expr.ofElement file) =
      (valueAfterAssign? ⟨rule, line, column, front ++ y :: back⟩).map (Expr.ofElement file) := by
  simp only [valueAfterAssign?, List.dropWhile_append]
  cases hdrop : front.dropWhile (!·.isAssign) with
  | cons first rest =>
      -- the token `=` is in front, and the value is looked for after it
      simp only [List.isEmpty_cons, Bool.false_eq_true, if_false, List.cons_append, List.drop_one,
        List.tail_cons]
      rw [← List.head?_filter, ← List.head?_filter, ← List.head?_map, ← List.head?_map,
        map_filter_exchange h.isExpression_eq fun _ => h.expression_eq]
  | nil =>
      have hnone : ¬ front.any Element.isAssign := by
        simpa using List.dropWhile_eq_nil_iff.mp hdrop
      obtain ⟨hx, hy⟩ := hassign.resolve_left hnone
      simp [hx, hy]

end Exchange

end MiniC
