import MiniC.Proofs.Reading.Grammar
import MiniC.Proofs.Reading.Results

/-!
# Reading the grammar

A parse tree that spells a program is read as this program (`ofProduction_of_spells`).
The proof goes by the derivation of what the tree spells.  Identifiers are expressions by
themselves, so that each search for the first expression, the first name or the first
production of a rule is shown to find the part that the grammar means.
-/

namespace MiniC

open ParseTree

variable {file : String}

/-! ## Tokens in parentheses -/

theorem innerToken?_of_wraps {token : Token} {element : Element} (htoken : token.isExpression)
    (h : Wraps token element) : element.isExpression ∧ innerToken? element = some token := by
  induction h with
  | token => exact ⟨htoken, by rw [innerToken?]⟩
  | @wrapper production inner hrule hparts _ ih =>
      obtain ⟨hinner, htokenInner⟩ := ih
      have hexpressions : production.expressions = [inner] := by
        rw [Production.expressions_eq_parts, hparts]
        simpa [hparts] using hinner
      refine ⟨?_, ?_⟩
      · exact Rule.isExpression_of_isWrapper hrule
      · rw [innerToken?_production, if_pos hrule, hexpressions]
        exact htokenInner

theorem firstToken?_of_operators {production : Production} {text : String}
    (h : production.operators = [text]) :
    ∃ token, production.firstToken? .operator = some token ∧ token.text = text := by
  rw [Production.operators, List.map_eq_singleton_iff] at h
  obtain ⟨token, htoken, htext⟩ := h
  refine ⟨token, ?_, htext⟩
  rw [Production.firstToken?, ← List.head?_filter, htoken]
  rfl

/-! ## Expressions -/

theorem SpellsExpr.isExpression {element : Element} {expr : Expr}
    (h : SpellsExpr file element expr) : element.isExpression := by
  have hrule {production : Production} {rule : Rule} (hproduction : production.rule = rule)
      (hexpression : rule.isExpression) : (Element.production production).isExpression := by
    show production.rule.isExpression
    rw [hproduction]
    exact hexpression
  cases h with
  | number hwrites => simp [Element.isExpression, Token.isExpression, hwrites.1]
  | name hkind => simp [Element.isExpression, Token.isExpression, hkind]
  | @wrapper production _ _ hwrapper =>
      exact hrule rfl (Rule.isExpression_of_isWrapper hwrapper)
  | binary h | unary h | minimum h | assign h | call h | callWith h => exact hrule h rfl

/-- What is spelled as a name is a name in parentheses. -/
theorem wraps_of_spells_name {element : Element} {place : Location} {name : String}
    (h : SpellsExpr file element (.name place name)) :
    ∃ token, Wraps token element ∧ token.kind = .identifier ∧ token.location file = place ∧
      token.text = name := by
  induction element using Element.induction with
  | token t =>
      cases h with
      | name hkind => exact ⟨_, .token, hkind, rfl, rfl⟩
  | production production ih =>
      cases h with
      | @wrapper _ inner _ hrule hparts hinner =>
          obtain ⟨token, hwraps, hrest⟩ :=
            ih inner (mem_children_of_mem_parts (by simp [hparts])) hinner
          exact ⟨token, .wrapper hrule hparts hwraps, hrest⟩

theorem nameToken?_of_spells {element : Element} {place : Location} {name : String}
    (h : SpellsExpr file element (.name place name)) :
    ∃ token, nameToken? element = some token ∧ token.location file = place ∧
      token.text = name := by
  obtain ⟨token, hwraps, hkind, hplace, hname⟩ := wraps_of_spells_name h
  have htoken : token.isExpression := by simp [Token.isExpression, hkind]
  refine ⟨token, ?_, hplace, hname⟩
  rw [nameToken?, (innerToken?_of_wraps htoken hwraps).2]
  simp [Option.filter, hkind]

theorem int32?_of_integer? {text : String} {value : Int} (htext : Text.integer? text = some value)
    (hlow : -2147483648 ≤ value) (hhigh : value < 2147483648) :
    Text.int32? text = some (Int32.ofInt value) := by
  simp [Text.int32?, htext, hlow, hhigh]

/-- What is spelled as an expression is not the number 2³¹. -/
theorem numberToken?_of_spells {element : Element} {expr : Expr}
    (h : SpellsExpr file element expr) {token : Token} (htoken : innerToken? element = some token)
    (hnumber : token.kind = .number) : isMinimumMagnitude token.text = false := by
  induction element using Element.induction with
  | token t =>
      rw [innerToken?] at htoken
      obtain rfl := Option.some.inj htoken
      cases h with
      | @number _ value hwrites _ hhigh =>
          -- a number that is spelled by itself fits, and 2³¹ does not
          have hne : value ≠ 2147483648 := by omega
          simp [isMinimumMagnitude, hwrites.2, hne]
      | name hkind =>
          rw [hkind] at hnumber
          cases hnumber
  | production production ih =>
      rw [innerToken?_production] at htoken
      cases h with
      | @wrapper _ inner _ hrule hparts hinner =>
          have hexpressions : production.expressions = [inner] := by
            rw [Production.expressions_eq_parts, hparts]
            simpa [hparts] using hinner.isExpression
          rw [if_pos hrule, hexpressions] at htoken
          exact ih inner (mem_children_of_mem_parts (by simp [hparts])) hinner htoken
      | binary hrule | unary hrule | minimum hrule | assign hrule | call hrule | callWith hrule =>
          rw [hrule] at htoken
          cases htoken

theorem SpellsExprs.isExpression : {elements : List Element} → {exprs : List Expr} →
    SpellsExprs file elements exprs → ∀ element ∈ elements, element.isExpression
  | _, _, .nil, _, hmem => absurd hmem List.not_mem_nil
  | _, _, .cons hfirst hrest, element, hmem => by
      rcases List.mem_cons.mp hmem with rfl | hmem
      · exact hfirst.isExpression
      · exact hrest.isExpression element hmem

/-- The sign of what is spelled as an expression is read apart from it. -/
theorem negatedMinimum?_of_spells {operand : Element} {value : Expr} (op : UnaryOp)
    (h : SpellsExpr file operand value) : negatedMinimum? op operand = none := by
  rw [negatedMinimum?]
  split
  · rw [Option.filter_eq_none_iff]
    intro token htoken
    obtain ⟨hinner, hnumber⟩ := Option.filter_eq_some_iff.mp htoken
    simp [numberToken?_of_spells h hinner (by simpa using hnumber)]
  · rfl

/-- The number 2³¹ is read together with the sign before it. -/
theorem negatedMinimum?_of_wraps {operand : Element} {token : Token}
    (hwraps : Wraps token operand) (hwrites : token.Writes 2147483648) :
    negatedMinimum? .minus operand = some token := by
  have htoken : token.isExpression := by simp [Token.isExpression, hwrites.1]
  have hinner : innerToken? operand = some token := (innerToken?_of_wraps htoken hwraps).2
  simp [negatedMinimum?, numberToken?, hinner, Option.filter, hwrites.1, isMinimumMagnitude,
    hwrites.2]

mutual

/-- **An expression of the grammar is read as what it spells.** -/
theorem Expr.ofElement_of_spells : {element : Element} → {expr : Expr} →
    SpellsExpr file element expr → Expr.ofElement file element = .ok expr
  | _, _, .number hwrites hlow hhigh => by
      rw [Expr.ofElement, Expr.ofToken_eq_ok]
      exact .inl ⟨hwrites.1, _, int32?_of_integer? hwrites.2 hlow hhigh, rfl⟩
  | _, _, .name hkind => by
      rw [Expr.ofElement, Expr.ofToken_eq_ok]
      exact .inr ⟨hkind, rfl⟩
  | _, _, .wrapper hrule hparts hinner => by
      rw [Expr.ofElement, Expr.ofProduction_wrapper hrule]
      refine ⟨_, ?_, Expr.ofElement_of_spells hinner⟩
      rw [Production.expressions_eq_parts (by simp [hparts, hinner.isExpression]), hparts]
      rfl
  | _, _, .binary hrule hparts hoperators hleft hright => by
      obtain ⟨token, htoken, htext⟩ := firstToken?_of_operators hoperators
      rw [Expr.ofElement, Expr.ofProduction_binary hrule]
      refine ⟨token, _, _, _, _, _, htoken, ?_, ?_, Expr.ofElement_of_spells hleft,
        Expr.ofElement_of_spells hright, rfl⟩
      · rw [htext, BinaryOp.ofText?_text]
      · rw [Production.expressions_eq_parts, hparts]
        simp [hparts, hleft.isExpression, hright.isExpression]
  | _, _, .unary hrule hparts hoperators hoperand => by
      obtain ⟨token, htoken, htext⟩ := firstToken?_of_operators hoperators
      rw [Expr.ofElement, Expr.ofProduction_unary hrule]
      -- the operand spells an expression, so it is not 2³¹ and the sign is read by itself
      refine ⟨token, _, _, htoken, ?_, ?_, .inr ⟨negatedMinimum?_of_spells _ hoperand, _,
        Expr.ofElement_of_spells hoperand, rfl⟩⟩
      · rw [htext, UnaryOp.ofText?_text]
      · rw [Production.expressions_eq_parts (by simp [hparts, hoperand.isExpression]), hparts]
        rfl
  | _, _, .minimum hrule hparts hoperators hwraps hwrites => by
      obtain ⟨token, htoken, htext⟩ := firstToken?_of_operators hoperators
      have hexpression := (innerToken?_of_wraps (by simp [Token.isExpression, hwrites.1]) hwraps).1
      rw [Expr.ofElement, Expr.ofProduction_unary hrule]
      refine ⟨token, _, _, htoken, ?_, ?_, .inl ⟨_, negatedMinimum?_of_wraps hwraps hwrites, rfl⟩⟩
      · rw [htext, UnaryOp.ofText?_text]
      · rw [Production.expressions_eq_parts (by simp [hparts, hexpression]), hparts]
        rfl
  | _, _, .assign hrule hparts htarget hvalue => by
      obtain ⟨token, htoken, rfl, rfl⟩ := nameToken?_of_spells htarget
      rw [Expr.ofElement, Expr.ofProduction_assign hrule]
      refine ⟨_, _, token, _, ?_, htoken, Expr.ofElement_of_spells hvalue, rfl⟩
      rw [Production.expressions_eq_parts, hparts]
      simp [hparts, htarget.isExpression, hvalue.isExpression]
  | _, _, .call hrule hparts hkind => by
      rw [Expr.ofElement, Expr.ofProduction_call hrule]
      refine ⟨_, ?_, .inl ⟨?_, rfl⟩⟩
      · simp [Production.firstToken?_identifier, hparts, Element.isName, hkind, Element.token?]
      · simp [Production.child?_eq, hparts, Element.production?]
  | _, _, .callWith hrule hparts hkind hlist hvalues => by
      rw [Expr.ofElement, Expr.ofProduction_call hrule]
      refine ⟨_, ?_, .inr ⟨_, _, ?_, ?_, rfl⟩⟩
      · simp [Production.firstToken?_identifier, hparts, Element.isName, hkind, Element.token?]
      · simp [Production.child?_eq, hparts, Element.production?, hlist]
      · rw [Production.expressions_eq_parts hvalues.isExpression]
        exact Expr.mapM_ofElement_of_spells hvalues

theorem Expr.mapM_ofElement_of_spells : {elements : List Element} → {exprs : List Expr} →
    SpellsExprs file elements exprs → elements.mapM (Expr.ofElement file) = .ok exprs
  | _, _, .nil => rfl
  | _, _, .cons hfirst hrest =>
      mapM_cons_eq_ok.mpr ⟨_, _, Expr.ofElement_of_spells hfirst,
        Expr.mapM_ofElement_of_spells hrest, rfl⟩

end

/-! ## Declarations -/

theorem SpellsType.rule {production : Production} {typeName : String}
    (h : SpellsType production typeName) : production.rule = .typeSpecifier := by
  cases h with
  | word hrule => exact hrule

theorem typeText_of_spells {production : Production} {typeName : String}
    (h : SpellsType production typeName) : typeText file production = .ok typeName := by
  cases h with
  | word _ _ htokens =>
      refine typeText_eq_ok.mpr ⟨_, ?_, rfl⟩
      rw [← List.head?_filter, htokens]
      rfl

section Declarators

variable {production type : Production} {name : Token} {typeName : String} {others : List Element}

/-- A production that starts with a type and a name has this type. -/
theorem child?_typeSpecifier_of_parts
    (hparts : production.parts = .production type :: .token name :: others)
    (htype : SpellsType type typeName) : production.child? .typeSpecifier = some type := by
  simp [Production.child?_eq, hparts, Element.production?, htype.rule]

/-- A production that starts with a type and a name has this name. -/
theorem firstToken?_identifier_of_parts
    (hparts : production.parts = .production type :: .token name :: others)
    (hname : name.kind = .identifier) : production.firstToken? .identifier = some name := by
  simp [Production.firstToken?_identifier, hparts, Element.isName, hname, Element.token?]

theorem Declaration.ofParts_of_parts {value : Option Element} {initial : Option Expr}
    (hparts : production.parts = .production type :: .token name :: others)
    (htype : SpellsType type typeName) (hname : name.kind = .identifier)
    (hvalue : value.mapM (Expr.ofElement file) = .ok initial) :
    Declaration.ofParts file production value = .ok ⟨production.location file, type.location file,
      typeName, name.location file, name.text, initial⟩ :=
  Declaration.ofParts_eq_ok.mpr ⟨type, typeName, name, initial,
    child?_typeSpecifier_of_parts hparts htype, typeText_of_spells htype,
    firstToken?_identifier_of_parts hparts hname, hvalue, rfl⟩

end Declarators

theorem mapM_some_of_spells {value : Element} {initial : Expr}
    (h : SpellsExpr file value initial) :
    (some value).mapM (Expr.ofElement file) = .ok (some initial) :=
  option_mapM_eq_ok.mpr (.inr ⟨value, initial, rfl, Expr.ofElement_of_spells h, rfl⟩)

theorem valueAfterAssign?_of_spells {production : Production} {value : Element} {initial : Expr}
    (hafter : production.afterAssign = [value]) (h : SpellsExpr file value initial) :
    valueAfterAssign? production = some value := by
  rw [valueAfterAssign?_eq, hafter, List.find?_cons_of_pos h.isExpression]

theorem Declaration.ofLocal_of_spells {production : Production} {declared : Declaration}
    (h : SpellsLocal file production declared) :
    Declaration.ofLocal file production = .ok declared := by
  rw [Declaration.ofLocal_eq_ok]
  cases h with
  | plain hrule hassign hparts htype hname =>
      rw [if_neg (by simp [hassign])]
      exact Declaration.ofParts_of_parts hparts htype hname rfl
  | @valued type name _ _ _ hrule hassign hbefore htype hname hafter hvalue =>
      -- what is before the `=` comes first, so type and name are found there
      have hparts : production.parts = .production type :: .token name ::
          partsOf (production.children.dropWhile (!·.isAssign)) := by
        rw [Production.parts_eq_beforeAssign, hbefore, List.cons_append, List.cons_append,
          List.nil_append]
      rw [if_pos hassign]
      exact ⟨_, valueAfterAssign?_of_spells hafter hvalue,
        Declaration.ofParts_of_parts hparts htype hname (mapM_some_of_spells hvalue)⟩

theorem Declaration.ofGlobal_of_spells {production : Production} {declared : Declaration}
    (h : SpellsGlobal file production declared) :
    Declaration.ofGlobal file production = .ok declared := by
  rw [Declaration.ofGlobal_eq_ok]
  cases h with
  | plain hrule hparts htype hname =>
      have hinitializer : production.child? .initializer = none := by
        simp [Production.child?_eq, hparts, Element.production?, htype.rule]
      rw [hinitializer]
      exact Declaration.ofParts_of_parts hparts htype hname rfl
  | @valued _ initializer _ _ _ _ hrule hparts htype hname hinitializer _ _ hafter hvalue =>
      have hchild : production.child? .initializer = some initializer := by
        simp [Production.child?_eq, hparts, Element.production?, htype.rule, hinitializer]
      rw [hchild]
      exact ⟨_, valueAfterAssign?_of_spells hafter hvalue,
        Declaration.ofParts_of_parts hparts htype hname (mapM_some_of_spells hvalue)⟩

/-! ## Parameters -/

theorem ParameterList.ofElements_of_spells {elements : List Element} {parameters : List Parameter}
    (list : Production) (before : List Parameter) (h : SpellsParameters file elements parameters) :
    ParameterList.ofElements file list none before elements =
      .ok ⟨list.location file, before.reverse ++ parameters⟩ := by
  induction h generalizing before with
  | nil => simp [ParameterList.ofElements]
  | cons htype hname _ ih =>
      rw [ParameterList.ofElements]
      simp only [htype.rule, if_true, typeText_of_spells htype]
      rw [ParameterList.ofElements]
      simp only [hname, if_true, ih]
      simp

theorem parametersOf_of_spells {production : Production} {front list others : List Element}
    {parameters : Option ParameterList} (hparts : production.parts = front ++ (list ++ others))
    (hfront : (front.filterMap Element.production?).find? (·.rule == .fargs) = none)
    (hothers : (others.filterMap Element.production?).find? (·.rule == .fargs) = none)
    (h : SpellsParameterList file list parameters) :
    parametersOf file production = .ok parameters := by
  -- no list of parameters is before or after the one that is meant
  have hchild : production.child? .fargs =
      (list.filterMap Element.production?).find? (·.rule == .fargs) := by
    rw [Production.child?_eq, hparts, List.filterMap_append, List.filterMap_append,
      List.find?_append, List.find?_append, hfront, hothers, Option.none_or, Option.or_none]
  rw [parametersOf_eq_ok, hchild]
  cases h with
  | none => exact .inl ⟨rfl, rfl⟩
  | @some list parameters hrule hparameters =>
      refine .inr ⟨list, _, by simp [Element.production?, hrule], ?_, rfl⟩
      rw [ParameterList.ofProduction, ParameterList.ofElements_filter]
      exact ParameterList.ofElements_of_spells list [] hparameters

/-! ## Statements -/

theorem Stmt.ofElement_of_expression {element : Element} {expr : Expr}
    (h : Expr.ofElement file element = .ok expr) :
    Stmt.ofElement file element = .ok (.expression expr) := by
  have hexpression := Expr.isExpression_of_ofElement h
  cases element with
  | token token =>
      rw [Expr.ofElement] at h
      have htoken : token.isExpression := hexpression
      rw [Stmt.ofElement, if_pos htoken, h]
      rfl
  | production production =>
      rw [Expr.ofElement] at h
      rw [Stmt.ofElement, Stmt.ofProduction_expression hexpression]
      exact ⟨expr, h, rfl⟩

theorem SpellsLocal.rule {production : Production} {declared : Declaration}
    (h : SpellsLocal file production declared) : production.rule = .localDeclaration := by
  cases h with
  | plain hrule | valued hrule => exact hrule

theorem SpellsBlock.rule {production : Production} {block : Block}
    (h : SpellsBlock file production block) : production.rule = .block := by
  cases h with
  | block hrule => exact hrule

mutual

/-- **A statement of the grammar is read as what it spells.** -/
theorem Stmt.ofElement_of_spells : {element : Element} → {statement : Stmt} →
    SpellsStmt file element statement → Stmt.ofElement file element = .ok statement
  | _, _, .expression hexpr => Stmt.ofElement_of_expression (Expr.ofElement_of_spells hexpr)
  | _, _, .wrapper hrule hreturn hbreak hchildren hinner => by
      rw [Stmt.ofElement, Stmt.ofProduction_statement hrule, if_neg (by simp [hreturn]),
        if_neg (by simp [hbreak]), ← List.head?_filter, hchildren]
      exact ⟨_, rfl, Stmt.ofElement_of_spells hinner⟩
  | _, _, .declaration hlocal => by
      rw [Stmt.ofElement, Stmt.ofProduction_local hlocal.rule]
      exact ⟨_, Declaration.ofLocal_of_spells hlocal, rfl⟩
  | _, _, .block hblock => by
      rw [Stmt.ofElement, Stmt.ofProduction_block hblock.rule]
      exact ⟨_, Block.ofProduction_of_spells hblock, rfl⟩
  | _, _, .ifThen hrule hparts _ hcondition hthen => by
      rw [Stmt.ofElement, Stmt.ofProduction_if hrule]
      refine ⟨_, _, ?_, Expr.ofElement_of_spells hcondition,
        .inl ⟨_, _, ?_, Block.ofProduction_of_spells hthen, rfl⟩⟩
      · simp [Production.expressions_eq, hparts, hcondition.isExpression]
      · rw [Production.productions_eq, hparts, blocks_of_condition hcondition.isExpression]
        simp [Element.production?, hthen.rule]
  | _, _, .ifElse hrule hparts _ hcondition hthen helse => by
      rw [Stmt.ofElement, Stmt.ofProduction_if hrule]
      refine ⟨_, _, ?_, Expr.ofElement_of_spells hcondition,
        .inr ⟨_, _, _, _, ?_, Block.ofProduction_of_spells hthen,
          Block.ofProduction_of_spells helse, rfl⟩⟩
      · simp [Production.expressions_eq, hparts, hcondition.isExpression]
      · rw [Production.productions_eq, hparts, blocks_of_condition hcondition.isExpression]
        simp [Element.production?, hthen.rule, helse.rule]
  | _, _, .whileLoop hrule hparts hcondition hbody => by
      rw [Stmt.ofElement, Stmt.ofProduction_while hrule]
      exact ⟨_, _, [], _, _, hparts, hcondition.isExpression,
        Expr.ofElement_of_spells hcondition, Stmt.ofElement_of_spells hbody, rfl⟩
  | _, _, .returnNone hrule hreturn hparts => by
      rw [Stmt.ofElement, Stmt.ofProduction_statement hrule, if_pos hreturn,
        Production.expressions_eq, hparts]
      exact ⟨none, rfl, rfl⟩
  | _, _, .returnValue hrule hreturn hparts hvalue => by
      rw [Stmt.ofElement, Stmt.ofProduction_statement hrule, if_pos hreturn,
        Production.expressions_eq_parts (by simp [hparts, hvalue.isExpression]), hparts]
      exact ⟨_, mapM_some_of_spells hvalue, rfl⟩
  | _, _, .breakLoop hrule hreturn hbreak _ => by
      rw [Stmt.ofElement, Stmt.ofProduction_statement hrule, if_neg (by simp [hreturn]),
        if_pos hbreak]

/-- **A block of the grammar is read as what it spells.** -/
theorem Block.ofProduction_of_spells : {production : Production} → {block : Block} →
    SpellsBlock file production block → Block.ofProduction file production = .ok block
  | _, _, .block _ hstatements =>
      Block.ofProduction_eq_ok.mpr ⟨_, Stmt.mapM_ofElement_of_spells hstatements, rfl⟩

theorem Stmt.mapM_ofElement_of_spells : {elements : List Element} → {statements : List Stmt} →
    SpellsStmts file elements statements → elements.mapM (Stmt.ofElement file) = .ok statements
  | _, _, .nil => rfl
  | _, _, .cons hfirst hrest =>
      mapM_cons_eq_ok.mpr ⟨_, _, Stmt.ofElement_of_spells hfirst,
        Stmt.mapM_ofElement_of_spells hrest, rfl⟩

end

/-! ## Files -/

/-- A list of parameters is no other production. -/
theorem SpellsParameterList.find?_productions {list : List Element}
    {parameters : Option ParameterList} (h : SpellsParameterList file list parameters) (rule : Rule)
    (hrule : rule ≠ .fargs) :
    (list.filterMap Element.production?).find? (·.rule == rule) = Option.none := by
  cases h with
  | none => rfl
  | some hlist => simp [Element.production?, hlist, Ne.symm hrule]

theorem SpellsFunction.rule {production : Production} {declared : FunctionDeclaration}
    (h : SpellsFunction file production declared) : production.rule = .functionDeclaration := by
  cases h with
  | function hrule => exact hrule

theorem SpellsGlobal.rule {production : Production} {declared : Declaration}
    (h : SpellsGlobal file production declared) : production.rule = .declaration := by
  cases h with
  | plain hrule | valued hrule => exact hrule

theorem SpellsGlobal.child?_functionDeclaration {production : Production} {declared : Declaration}
    (h : SpellsGlobal file production declared) :
    production.child? .functionDeclaration = none := by
  cases h with
  | plain _ hparts htype =>
      simp [Production.child?_eq, hparts, Element.production?, htype.rule]
  | valued _ hparts htype _ hinitializer =>
      simp [Production.child?_eq, hparts, Element.production?, htype.rule, hinitializer]

theorem FunctionDeclaration.ofProduction_of_spells {production : Production}
    {declared : FunctionDeclaration} (h : SpellsFunction file production declared) :
    FunctionDeclaration.ofProduction file production = .ok declared := by
  cases h with
  | @function type name _ list _ hrule hparts htype hname hlist =>
      have hparameters : production.parts =
          [.production type, .token name] ++ (list ++ []) := by
        rw [hparts, List.append_nil]
        rfl
      refine FunctionDeclaration.ofProduction_eq_ok.mpr ⟨_, _, _, _,
        child?_typeSpecifier_of_parts hparts htype, typeText_of_spells htype,
        firstToken?_identifier_of_parts hparts hname,
        parametersOf_of_spells hparameters ?_ rfl hlist, rfl⟩
      simp [Element.production?, htype.rule]

theorem Item.ofProduction_of_spells {production : Production} {item : Item}
    (h : SpellsItem file production item) : Item.ofProduction file production = .ok item := by
  rw [Item.ofProduction_eq_ok]
  cases h with
  | @function type body name _ list _ _ hrule hparts htype hname hlist hbody =>
      have hparameters : production.parts =
          [.production type, .token name] ++ (list ++ [.production body]) := hparts
      -- the body is the first block, since neither the type nor the list of parameters is one
      have hblock : production.child? .block = some body := by
        have hnone := hlist.find?_productions .block (by decide)
        rw [Production.child?_eq, hparameters, List.filterMap_append, List.filterMap_append,
          List.find?_append, List.find?_append, hnone]
        simp [Element.production?, htype.rule, hbody.rule]
      refine .inl ⟨hrule, _, FunctionDefinition.ofProduction_eq_ok.mpr ⟨_, _, _, _, _, _,
        child?_typeSpecifier_of_parts hparts htype, typeText_of_spells htype,
        firstToken?_identifier_of_parts hparts hname, hblock,
        parametersOf_of_spells hparameters ?_ ?_ hlist, Block.ofProduction_of_spells hbody, rfl⟩,
        rfl⟩
      · simp [Element.production?, htype.rule]
      · simp [Element.production?, hbody.rule]
  | external hfunction =>
      exact .inr (.inl ⟨hfunction.rule, _, FunctionDeclaration.ofProduction_of_spells hfunction,
        rfl⟩)
  | wrapper hrule hparts hfunction =>
      refine .inr (.inr ⟨hrule, .inl ⟨_, _, ?_,
        FunctionDeclaration.ofProduction_of_spells hfunction, rfl⟩⟩)
      simp [Production.child?_eq, hparts, Element.production?, hfunction.rule]
  | global hglobal =>
      exact .inr (.inr ⟨hglobal.rule, .inr ⟨hglobal.child?_functionDeclaration, _,
        Declaration.ofGlobal_of_spells hglobal, rfl⟩⟩)

theorem Item.mapM_ofProduction_of_spells {productions : List Production} {items : List Item}
    (h : SpellsItems file productions items) :
    productions.mapM (Item.ofProduction file) = .ok items := by
  induction h with
  | nil => rfl
  | cons hfirst _ ih =>
      exact mapM_cons_eq_ok.mpr ⟨_, _, Item.ofProduction_of_spells hfirst, ih, rfl⟩

/-- **A parse tree that spells a program is read as this program.** -/
theorem CompileUnit.ofProduction_of_spells {production : Production} {unit : CompileUnit}
    (h : SpellsUnit file production unit) :
    CompileUnit.ofProduction file production = .ok unit := by
  cases h with
  | unit hrule hitems =>
      exact CompileUnit.ofProduction_eq_ok.mpr
        ⟨hrule, _, Item.mapM_ofProduction_of_spells hitems, rfl⟩

end MiniC
