import MiniC.Proofs.Reading.Results
import MiniC.Proofs.Reading.Tidy

/-!
# Expressions that are read are of the grammar

A tidy expression that is read spells what is read of it (`Expr.spells_of_ofElement`).
Reading tells that the parts that it needs are there, and tidiness that there are no
others, so that the parts are those of the rule in their order.
-/

namespace MiniC

open ParseTree

variable {file : String}

/-! ## Operators and numbers -/

theorem operators_of_firstToken? {production : Production} {token : Token}
    (h : production.firstToken? .operator = some token) (htidy : production.operators.length ≤ 1) :
    production.operators = [token.text] := by
  rw [Production.firstToken?, ← List.head?_filter] at h
  rw [Production.operators, List.length_map] at htidy
  rw [Production.operators, eq_singleton_of_head? h htidy]
  rfl

theorem BinaryOp.text_of_ofText? {text : String} {op : BinaryOp} (h : ofText? text = some op) :
    op.text = text := by
  simpa using List.find?_some h

theorem UnaryOp.text_of_ofText? {text : String} {op : UnaryOp} (h : ofText? text = some op) :
    op.text = text := by
  simpa using List.find?_some h

theorem integer?_of_int32? {text : String} {value : Int32} (h : Text.int32? text = some value) :
    ∃ written, Text.integer? text = some written ∧ -2147483648 ≤ written ∧
      written < 2147483648 ∧ value = Int32.ofInt written := by
  rw [Text.int32?, Option.bind_eq_bind, Option.bind_eq_some_iff] at h
  obtain ⟨written, hwritten, h⟩ := h
  split at h
  next hrange => exact ⟨written, hwritten, hrange.1, hrange.2, (Option.some.inj h).symm⟩
  next => cases h

theorem Expr.spells_of_ofToken {token : Token} {expr : Expr}
    (h : Expr.ofToken file token = .ok expr) : SpellsExpr file (.token token) expr := by
  rcases Expr.ofToken_eq_ok.mp h with ⟨hkind, value, hvalue, rfl⟩ | ⟨hkind, rfl⟩
  · obtain ⟨written, hwritten, hlow, hhigh, rfl⟩ := integer?_of_int32? hvalue
    exact .number ⟨hkind, hwritten⟩ hlow hhigh
  · exact .name hkind

/-! ## Expressions -/

/-- A tidy production that wraps an expression has nothing else. -/
theorem parts_of_wrapper {production : Production} {inner : Element}
    (hrule : production.rule.isWrapper) (htidy : production.isTidy)
    (h : production.expressions.head? = some inner) : production.parts = [inner] := by
  have hfits : fits [Element.isExpression] production.parts := by
    cases hproduction : production.rule <;>
      simp_all [Rule.isWrapper, Production.isTidy]
  exact eq_singleton_of_fits hfits (mem_parts_of_head? h).1

theorem wraps_of_innerToken? {element : Element} {token : Token} (htidy : element.tidy)
    (h : innerToken? element = some token) : Wraps token element := by
  induction element using Element.induction with
  | token t =>
      rw [innerToken?] at h
      obtain rfl := Option.some.inj h
      exact .token
  | production production ih =>
      rw [innerToken?_production] at h
      split at h
      next hrule =>
        obtain ⟨inner, hinner, htoken⟩ := Option.bind_eq_some_iff.mp h
        have hparts := parts_of_wrapper hrule (Production.tidy_iff.mp htidy).1 hinner
        have hmem := (mem_parts_of_head? hinner).1
        exact .wrapper hrule hparts (ih inner (mem_children_of_mem_parts hmem)
          (Production.tidy_of_mem_parts htidy hmem) htoken)
      next => cases h

theorem spells_of_wraps {element : Element} {token : Token} {expr : Expr}
    (hwraps : Wraps token element) (h : SpellsExpr file (.token token) expr) :
    SpellsExpr file element expr := by
  induction hwraps with
  | token => exact h
  | wrapper hrule hparts _ ih => exact .wrapper hrule hparts ih

theorem spells_of_nameToken? {element : Element} {token : Token} (htidy : element.tidy)
    (h : nameToken? element = some token) :
    SpellsExpr file element (.name (token.location file) token.text) := by
  obtain ⟨hinner, hkind⟩ := Option.filter_eq_some_iff.mp h
  exact spells_of_wraps (wraps_of_innerToken? htidy hinner) (.name (by simpa using hkind))

theorem minimum_of_negatedMinimum? {op : UnaryOp} {element : Element} {token : Token}
    (htidy : element.tidy) (h : negatedMinimum? op element = some token) :
    op = .minus ∧ Wraps token element ∧ token.Writes 2147483648 := by
  rw [negatedMinimum?] at h
  split at h
  next hop =>
    obtain ⟨hnumber, hminimum⟩ := Option.filter_eq_some_iff.mp h
    obtain ⟨hinner, hkind⟩ := Option.filter_eq_some_iff.mp hnumber
    exact ⟨hop, wraps_of_innerToken? htidy hinner, by simpa using hkind,
      by simpa [isMinimumMagnitude] using hminimum⟩
  next => cases h

theorem spellsExprs_of_mapM {elements : List Element} {exprs : List Expr}
    (hread : ∀ element ∈ elements, ∀ expr, Expr.ofElement file element = .ok expr →
      SpellsExpr file element expr)
    (h : elements.mapM (Expr.ofElement file) = .ok exprs) : SpellsExprs file elements exprs := by
  induction elements generalizing exprs with
  | nil =>
      obtain rfl := mapM_nil_eq_ok.mp h
      exact .nil
  | cons element elements ih =>
      obtain ⟨expr, others, hexpr, hothers, rfl⟩ := mapM_cons_eq_ok.mp h
      exact .cons (hread element List.mem_cons_self expr hexpr)
        (ih (fun other hother => hread other (List.mem_cons_of_mem _ hother)) hothers)

/-- The parts of a production that are read as expressions spell what is read of them. -/
def PartsSpell (file : String) (production : Production) : Prop :=
  ∀ part ∈ production.parts, ∀ expr, Expr.ofElement file part = .ok expr →
    SpellsExpr file part expr

section Productions

variable {production : Production} {expr : Expr}

theorem Expr.spells_of_wrapper (hrule : production.rule.isWrapper) (htidy : production.tidy)
    (hspell : PartsSpell file production) (h : Expr.ofProduction file production = .ok expr) :
    SpellsExpr file (.production production) expr := by
  obtain ⟨inner, hinner, hread⟩ := (ofProduction_wrapper hrule).mp h
  exact .wrapper hrule (parts_of_wrapper hrule (Production.tidy_iff.mp htidy).1 hinner)
    (hspell inner (mem_parts_of_head? hinner).1 expr hread)

theorem Expr.spells_of_binary (hrule : production.rule = .binaryExpression)
    (htidy : production.tidy) (hspell : PartsSpell file production)
    (h : Expr.ofProduction file production = .ok expr) :
    SpellsExpr file (.production production) expr := by
  have hhere := (Production.tidy_iff.mp htidy).1
  simp only [Production.isTidy, hrule, Bool.and_eq_true, List.all_eq_true, decide_eq_true_eq]
    at hhere
  obtain ⟨token, op, left, right, first, second, htoken, hop, hoperands, hfirst, hsecond, rfl⟩ :=
    (ofProduction_binary hrule).mp h
  have hparts : production.parts = [left, right] := by
    rw [← Production.expressions_eq_parts hhere.1, hoperands]
  have hoperators : production.operators = [op.text] := by
    rw [operators_of_firstToken? htoken hhere.2, BinaryOp.text_of_ofText? hop]
  exact .binary hrule hparts hoperators (hspell left (by simp [hparts]) first hfirst)
    (hspell right (by simp [hparts]) second hsecond)

theorem Expr.spells_of_unary (hrule : production.rule = .unaryExpression)
    (htidy : production.tidy) (hspell : PartsSpell file production)
    (h : Expr.ofProduction file production = .ok expr) :
    SpellsExpr file (.production production) expr := by
  have hhere := (Production.tidy_iff.mp htidy).1
  simp only [Production.isTidy, hrule, Bool.and_eq_true, decide_eq_true_eq] at hhere
  obtain ⟨token, op, operand, htoken, hop, hoperand, h⟩ := (ofProduction_unary hrule).mp h
  have hmem := (mem_parts_of_head? hoperand).1
  have hparts := eq_singleton_of_fits hhere.1 hmem
  have hoperators : production.operators = [op.text] := by
    rw [operators_of_firstToken? htoken hhere.2, UnaryOp.text_of_ofText? hop]
  -- the sign belongs to the number 2³¹, or the operand is an expression by itself
  rcases h with ⟨minimum, hminimum, rfl⟩ | ⟨-, value, hvalue, rfl⟩
  · obtain ⟨rfl, hwraps, hwrites⟩ :=
      minimum_of_negatedMinimum? (Production.tidy_of_mem_parts htidy hmem) hminimum
    exact .minimum hrule hparts hoperators hwraps hwrites
  · exact .unary hrule hparts hoperators (hspell operand hmem value hvalue)

theorem Expr.spells_of_assign (hrule : production.rule = .assignExpression)
    (htidy : production.tidy) (hspell : PartsSpell file production)
    (h : Expr.ofProduction file production = .ok expr) :
    SpellsExpr file (.production production) expr := by
  have hhere := (Production.tidy_iff.mp htidy).1
  simp only [Production.isTidy, hrule, List.all_eq_true] at hhere
  obtain ⟨target, value, token, assigned, hoperands, htoken, hassigned, rfl⟩ :=
    (ofProduction_assign hrule).mp h
  have hparts : production.parts = [target, value] := by
    rw [← Production.expressions_eq_parts hhere, hoperands]
  have htarget : target.tidy := Production.tidy_of_mem_parts htidy (by simp [hparts])
  exact .assign hrule hparts (spells_of_nameToken? htarget htoken)
    (hspell value (by simp [hparts]) assigned hassigned)

/-- The parts of a tidy call: the callee, and the arguments if there are any. -/
theorem parts_of_call {callee : Token} (hrule : production.rule = .callExpression)
    (htidy : production.isTidy) (hcallee : production.firstToken? .identifier = some callee) :
    production.parts =
      .token callee :: (production.child? .args).toList.map Element.production := by
  simp only [Production.isTidy, hrule] at htidy
  obtain ⟨others, hparts, hothers⟩ := name_of_fits (by simp [Element.isOf]) htidy
    ((Production.firstToken?_identifier production).symm.trans hcallee)
  -- after the callee only a list of arguments fits
  rw [Production.child?_eq, hparts]
  exact congrArg _ (eq_of_fits_isOf hothers)

theorem Expr.spells_of_call (hrule : production.rule = .callExpression) (htidy : production.tidy)
    (hspell : ∀ list, .production list ∈ production.parts → PartsSpell file list)
    (h : Expr.ofProduction file production = .ok expr) :
    SpellsExpr file (.production production) expr := by
  obtain ⟨callee, hcallee, h⟩ := (ofProduction_call hrule).mp h
  have hparts := parts_of_call hrule (Production.tidy_iff.mp htidy).1 hcallee
  have hkind := kind_of_firstToken? hcallee
  rcases h with ⟨hnone, rfl⟩ | ⟨list, values, hlist, hvalues, rfl⟩
  · rw [hnone] at hparts
    exact .call hrule hparts hkind
  · rw [hlist] at hparts
    obtain ⟨hmem, hlistRule⟩ := mem_parts_of_child? hlist
    have harguments := (Production.tidy_iff.mp (Production.tidy_of_mem_parts htidy hmem)).1
    simp only [Production.isTidy, hlistRule, List.all_eq_true] at harguments
    rw [Production.expressions_eq_parts harguments] at hvalues
    exact .callWith hrule hparts hkind hlistRule (spellsExprs_of_mapM (hspell list hmem) hvalues)

end Productions

/-- **A tidy expression that is read spells what is read of it.** -/
theorem Expr.spells_of_ofElement {element : Element} {expr : Expr} (htidy : element.tidy)
    (h : Expr.ofElement file element = .ok expr) : SpellsExpr file element expr := by
  induction element using Element.induction_below generalizing expr with
  | token token => exact spells_of_ofToken h
  | production production ih ihbelow =>
      have hrule : production.rule.isExpression := Expr.isExpression_of_ofElement h
      have hspell : PartsSpell file production := fun part hmem value hread =>
        ih part (mem_children_of_mem_parts hmem) (Production.tidy_of_mem_parts htidy hmem) hread
      have hlists : ∀ list, .production list ∈ production.parts → PartsSpell file list :=
        fun list hlist part hmem value hread =>
          have hlistTidy : list.tidy := Production.tidy_of_mem_parts htidy hlist
          ihbelow list (mem_children_of_mem_parts hlist) part (mem_children_of_mem_parts hmem)
            (Production.tidy_of_mem_parts hlistTidy hmem) hread
      rw [Expr.ofElement] at h
      cases hproduction : production.rule with
      | primaryExpression | parenExpression =>
          exact spells_of_wrapper (by rw [hproduction]; rfl) htidy hspell h
      | binaryExpression => exact spells_of_binary hproduction htidy hspell h
      | unaryExpression => exact spells_of_unary hproduction htidy hspell h
      | assignExpression => exact spells_of_assign hproduction htidy hspell h
      | callExpression => exact spells_of_call hproduction htidy hlists h
      | _ =>
          rw [hproduction] at hrule
          cases hrule

end MiniC
