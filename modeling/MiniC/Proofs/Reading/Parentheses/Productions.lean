import MiniC.Proofs.Reading.Parentheses.Elements

/-!
# Productions with an element in parentheses

A production is read as before after one of its children was put in parentheses, or was
exchanged for a production that is read alike (`Production.alike_of_exchange`).
-/

namespace MiniC

open ParseTree

/-- A child of a production and what takes its place: parentheses around it, where it is read as
an expression, or a production that is read alike. -/
inductive ParseTree.Exchange (file : String) (rule : Rule) (front : List Element) :
    Element → Element → Prop
  | enclosed {element : Element} {wrapper : Production} (hposition : rule.expectsExpression front)
      (h : wrapper.Encloses element) : Exchange file rule front element (.production wrapper)
  | inside {p q : Production} (h : p.Alike file q) :
      Exchange file rule front (.production p) (.production q)

section Readings

variable {α β γ : Type} {file : String}

/-- A part that must be present is read alike in two productions in the same place. -/
theorem required_bind_congr {p q : Production} (hrule : p.rule = q.rule)
    (hlocation : p.location file = q.location file) {view : α → γ} {found other : Option α}
    (hview : found.map view = other.map view) (part : String) {next follow : α → Reading β}
    (hnext : ∀ value changed, view value = view changed → next value = follow changed) :
    p.required file part found >>= next = q.required file part other >>= follow := by
  cases found with
  | none =>
      cases other with
      | none =>
          apply congrArg Except.error
          rw [Production.malformed, Production.malformed, hrule, hlocation]
      | some changed => cases hview
  | some value =>
      cases other with
      | none => cases hview
      | some changed => exact hnext value changed (Option.some.inj hview)

/-- An optional part is read alike. -/
theorem option_mapM_congr {view : α → Reading β} {found other : Option α}
    (h : found.map view = other.map view) : found.mapM view = other.mapM view := by
  cases found with
  | none =>
      cases other with
      | none => rfl
      | some changed => cases h
  | some value =>
      cases other with
      | none => cases h
      | some changed => rw [Option.mapM_some, Option.mapM_some, Option.some.inj h]

end Readings

namespace ParseTree.Exchange

variable {file : String} {rule : Rule} {front : List Element} {x y : Element}

theorem alike (h : Exchange file rule front x y) : x.Alike file y := by
  cases h with
  | enclosed _ h => exact .enclosed h
  | inside h => exact .inside h

/-- Where no expression is read, a production takes the place of another one. -/
theorem exists_productions (h : Exchange file rule front x y)
    (hrule : rule.expectsExpression front = false) :
    ∃ p q : Production, x = .production p ∧ y = .production q ∧ p.Alike file q := by
  cases h with
  | enclosed hposition h => exact absurd hposition (by simp [hrule])
  | inside h => exact ⟨_, _, rfl, rfl, h⟩

end ParseTree.Exchange

section Productions

variable {file : String} {rule : Rule} {front : List Element} {x y : Element}

/-! ## Tokens -/

theorem kind_ne_of_isExpression {token : Token} {kind : TokenKind} (htoken : token.isExpression)
    (hidentifier : kind ≠ .identifier) (hnumber : kind ≠ .number) : token.kind ≠ kind := by
  rintro rfl
  rw [Token.isExpression, Bool.or_eq_true, beq_iff_eq, beq_iff_eq] at htoken
  exact htoken.elim hnumber hidentifier

theorem operatorText_exchange (h : x.Alike file y) (rule : Rule) (line column : UInt32)
    (front back : List Element) :
    operatorText file ⟨rule, line, column, front ++ x :: back⟩ =
      operatorText file ⟨rule, line, column, front ++ y :: back⟩ := by
  have hoperator : Production.firstToken? ⟨rule, line, column, front ++ x :: back⟩ .operator =
      Production.firstToken? ⟨rule, line, column, front ++ y :: back⟩ .operator :=
    find?_tokens_exchange h front back fun token htoken =>
      beq_eq_false_iff_ne.mpr (kind_ne_of_isExpression htoken (by decide) (by decide))
  rw [operatorText, operatorText, hoperator]
  rfl

theorem hasKeyword_exchange (h : x.Alike file y) (rule : Rule) (line column : UInt32)
    (front back : List Element) (text : String) :
    Production.hasToken ⟨rule, line, column, front ++ x :: back⟩ .keyword text =
      Production.hasToken ⟨rule, line, column, front ++ y :: back⟩ .keyword text := by
  have hkeyword : ∀ token : Token, token.isExpression → token.is .keyword text = false := by
    intro token htoken
    have hkind : token.kind ≠ .keyword := kind_ne_of_isExpression htoken (by decide) (by decide)
    rw [Token.is, beq_eq_false_iff_ne.mpr hkind, Bool.false_and]
  have hfound : ∀ tokens : List Token, tokens.any (·.is .keyword text) =
      (tokens.find? (·.is .keyword text)).isSome := by
    intro tokens
    rw [Bool.eq_iff_iff, List.find?_isSome, List.any_eq_true]
  rw [Production.hasToken, Production.hasToken, hfound, hfound]
  exact congrArg Option.isSome (find?_tokens_exchange h front back hkeyword)

/-- Productions are no tokens. -/
theorem tokens_exchange (rule : Rule) (line column : UInt32) (front back : List Element)
    (p q : Production) :
    Production.tokens ⟨rule, line, column, front ++ .production p :: back⟩ =
      Production.tokens ⟨rule, line, column, front ++ .production q :: back⟩ := by
  rw [Production.tokens, Production.tokens, List.filterMap_append, List.filterMap_append]
  rfl

theorem requiredIdentifier_exchange (rule : Rule) (line column : UInt32)
    (front back : List Element) (p q : Production) :
    requiredIdentifier file ⟨rule, line, column, front ++ .production p :: back⟩ =
      requiredIdentifier file ⟨rule, line, column, front ++ .production q :: back⟩ := by
  rw [requiredIdentifier, requiredIdentifier, Production.firstToken?, Production.firstToken?,
    tokens_exchange _ _ _ _ _ p q]
  rfl

/-! ## Expressions -/

theorem innerToken?_exchange (h : x.Alike file y) (rule : Rule) (line column : UInt32)
    (front back : List Element) :
    innerToken? (.production ⟨rule, line, column, front ++ x :: back⟩) =
      innerToken? (.production ⟨rule, line, column, front ++ y :: back⟩) := by
  have hbind : ∀ first : Option Element,
      first.bind innerToken? = (first.map innerToken?).join := by
    rintro (_ | first) <;> rfl
  rw [innerToken?_production, innerToken?_production, hbind, hbind, ← List.head?_map,
    ← List.head?_map]
  exact congrArg (fun tokens => if rule.isWrapper then tokens.head?.join else none)
    (innerTokens_exchange h front back)

theorem negatedMinimum?_congr {element changed : Element}
    (h : innerToken? element = innerToken? changed) (op : UnaryOp) :
    negatedMinimum? op element = negatedMinimum? op changed := by
  rw [negatedMinimum?, negatedMinimum?, numberToken?, numberToken?, h]

theorem Expr.ofProduction_exchange (h : Exchange file rule front x y) (line column : UInt32)
    (back : List Element) :
    Expr.ofProduction file ⟨rule, line, column, front ++ x :: back⟩ =
      Expr.ofProduction file ⟨rule, line, column, front ++ y :: back⟩ := by
  have hoperands := operandsOf_exchange h.alike front back
  have htokens := innerTokens_exchange h.alike front back
  cases rule with
  | primaryExpression | parenExpression =>
      rw [ofProduction, ofProduction, hoperands]
      rfl
  | binaryExpression =>
      rw [ofProduction, ofProduction, hoperands, operatorText_exchange h.alike]
      rfl
  | unaryExpression =>
      rw [ofProduction, ofProduction, hoperands, operatorText_exchange h.alike]
      refine bind_congr fun text => ?_
      cases UnaryOp.ofText? text with
      | none => rfl
      | some op =>
          have hfirst := congrArg List.head? htokens
          rw [List.head?_map, List.head?_map] at hfirst
          refine required_bind_congr rfl rfl hfirst "operand" fun element changed htoken => ?_
          rw [negatedMinimum?_congr htoken]
          rfl
  | assignExpression =>
      rw [ofProduction, ofProduction, hoperands]
      simp only [Production.expressions]
      generalize (front ++ x :: back).filter Element.isExpression = expressions at htokens ⊢
      generalize (front ++ y :: back).filter Element.isExpression = others at htokens ⊢
      generalize operandsOf file (front ++ y :: back) = operands
      -- the two lists are of the same length, and only the tokens of the targets matter
      rcases expressions with _ | ⟨target, _ | ⟨value, _ | ⟨third, more⟩⟩⟩ <;>
        rcases others with _ | ⟨changed, _ | ⟨other, _ | ⟨last, rest⟩⟩⟩ <;>
        simp only [List.map_cons, List.map_nil, List.cons.injEq, reduceCtorEq, and_false] at htokens
      · rfl
      · rfl
      · have hname : nameToken? target = nameToken? changed := by
          rw [nameToken?, nameToken?, htokens.1]
        rcases operands with _ | ⟨first, _ | ⟨assigned, _ | ⟨third, rest⟩⟩⟩
        · rfl
        · rfl
        · simp only [hname]
          rfl
        · rfl
      · rfl
  | callExpression =>
      obtain ⟨p, q, rfl, rfl, halike⟩ := h.exists_productions rfl
      rw [ofProduction, ofProduction, argumentsOf?_exchange h.alike,
        requiredIdentifier_exchange _ _ _ _ _ p q]
      rfl
  | _ => rfl

/-! ## Declarations -/

/-- A name in front of what is exchanged is found first. -/
theorem requiredIdentifier_exchange_of_isName (hname : front.any Element.isName) (rule : Rule)
    (line column : UInt32) (back : List Element) (x y : Element) :
    requiredIdentifier file ⟨rule, line, column, front ++ x :: back⟩ =
      requiredIdentifier file ⟨rule, line, column, front ++ y :: back⟩ := by
  obtain ⟨element, hmem, helement⟩ := List.any_eq_true.mp hname
  have hfront : ((front.filterMap Element.token?).find? (·.kind == .identifier)).isSome := by
    cases element with
    | production production => cases helement
    | token token =>
        rw [List.find?_isSome]
        exact ⟨token, List.mem_filterMap.mpr ⟨_, hmem, rfl⟩, helement⟩
  obtain ⟨found, hfound⟩ := Option.isSome_iff_exists.mp hfront
  -- the name that is found is the first one, and that is in front
  have hfirst : ∀ element : Element,
      Production.firstToken? ⟨rule, line, column, front ++ element :: back⟩ .identifier =
        some found := by
    intro element
    rw [Production.firstToken?, Production.tokens, List.filterMap_append, List.find?_append, hfound]
    rfl
  rw [requiredIdentifier, requiredIdentifier, hfirst, hfirst]
  rfl

/-- Where the type of a declaration is and what it is called. -/
def typeView (file : String) (type : Production) : Location × Reading String :=
  (type.location file, typeText file type)

theorem typeView_exchange (h : x.Alike file y) (rule : Rule) (line column : UInt32)
    (front back : List Element) :
    (Production.child? ⟨rule, line, column, front ++ x :: back⟩ .typeSpecifier).map
        (typeView file) =
      (Production.child? ⟨rule, line, column, front ++ y :: back⟩ .typeSpecifier).map
        (typeView file) := by
  refine child?_exchange h front back rfl (fun p q halike hrule => ?_) rule line column
  rw [typeView, typeView, halike.location_eq, halike.type_eq hrule]

/-- A declaration is read alike if its parts are. -/
theorem Declaration.ofParts_congr {p q : Production}
    (htype : (p.child? .typeSpecifier).map (typeView file) =
      (q.child? .typeSpecifier).map (typeView file))
    (hname : requiredIdentifier file p = requiredIdentifier file q) (hrule : p.rule = q.rule)
    (hlocation : p.location file = q.location file) {value other : Option Element}
    (hvalue : value.map (Expr.ofElement file) = other.map (Expr.ofElement file)) :
    ofParts file p value = ofParts file q other := by
  rw [ofParts, ofParts]
  refine required_bind_congr hrule hlocation htype _ fun type changed hview => ?_
  obtain ⟨hplace, htext⟩ := Prod.mk.inj hview
  rw [htext, hname, option_mapM_congr hvalue, hlocation, hplace]

theorem Declaration.ofLocal_exchange (h : Exchange file .localDeclaration front x y)
    (line column : UInt32) (back : List Element) :
    ofLocal file ⟨.localDeclaration, line, column, front ++ x :: back⟩ =
      ofLocal file ⟨.localDeclaration, line, column, front ++ y :: back⟩ := by
  -- parentheses come after the `=` and after the name; a production is neither of them
  have hassign : front.any Element.isAssign ∨ x.isAssign = false ∧ y.isAssign = false := by
    cases h with
    | enclosed hposition _ => exact .inl ((Bool.and_eq_true _ _).mp hposition).1
    | inside _ => exact .inr ⟨rfl, rfl⟩
  have hname : requiredIdentifier file ⟨.localDeclaration, line, column, front ++ x :: back⟩ =
      requiredIdentifier file ⟨.localDeclaration, line, column, front ++ y :: back⟩ := by
    cases h with
    | enclosed hposition _ =>
        exact requiredIdentifier_exchange_of_isName ((Bool.and_eq_true _ _).mp hposition).2 ..
    | inside _ => exact requiredIdentifier_exchange ..
  have htype := typeView_exchange h.alike .localDeclaration line column front back
  have hany := any_isAssign_exchange front back hassign
  rw [ofLocal, ofLocal]
  simp only [hany]
  split
  · refine required_bind_congr rfl rfl (valueAfterAssign?_exchange h.alike front back hassign ..) _
      fun value changed hvalue => ?_
    exact ofParts_congr htype hname rfl rfl (congrArg some hvalue)
  · exact ofParts_congr htype hname rfl rfl rfl

/-! ## Statements -/

theorem Stmt.ofProduction_exchange (h : Exchange file rule front x y) (line column : UInt32)
    (back : List Element) :
    Stmt.ofProduction file ⟨rule, line, column, front ++ x :: back⟩ =
      Stmt.ofProduction file ⟨rule, line, column, front ++ y :: back⟩ := by
  have hexpression := Expr.ofProduction_exchange h line column back
  have hoperands := congrArg List.head? (operandsOf_exchange h.alike front back)
  rw [operandsOf_eq, operandsOf_eq, List.head?_map, List.head?_map] at hoperands
  cases rule with
  | statement =>
      rw [ofProduction, ofProduction, innerStatement?_exchange h.alike, hasKeyword_exchange h.alike,
        hasKeyword_exchange h.alike]
      have hvalue := option_mapM_congr hoperands
      simp only [Production.expressions, hvalue]
      rfl
  | ifStatement =>
      rw [ofProduction, ofProduction, blocksOf_exchange h.alike]
      refine required_bind_congr rfl rfl hoperands _ fun condition changed hcondition => ?_
      rw [hcondition]
      rfl
  | whileStatement =>
      rw [ofProduction, ofProduction, loopBody?_exchange h.alike]
      refine required_bind_congr rfl rfl (condition_exchange h.alike front back) _
        fun condition changed hcondition => ?_
      rw [hcondition]
      rfl
  | block =>
      rw [ofProduction, ofProduction, statementsOf_exchange h.alike]
      rfl
  | localDeclaration =>
      exact congrArg (fun reading => Stmt.declaration <$> reading)
        (Declaration.ofLocal_exchange h line column back)
  | primaryExpression | parenExpression | binaryExpression | unaryExpression | assignExpression
  | callExpression =>
      exact congrArg (fun reading => Stmt.expression <$> reading) hexpression
  | _ => rfl

/-! ## Parameters -/

/-- Of a list of parameters only the place matters besides its elements. -/
theorem ParameterList.ofElements_congr {list other : Production} (hrule : list.rule = other.rule)
    (hlocation : list.location file = other.location file) (pending : Option String)
    (parameters : List Parameter) (elements : List Element) :
    ofElements file list pending parameters elements =
      ofElements file other pending parameters elements := by
  induction elements generalizing pending parameters with
  | nil =>
      rw [ofElements, ofElements, Production.malformed, Production.malformed, hrule, hlocation]
  | cons element elements ih =>
      unfold ofElements
      simp only [ih, Production.malformed, hrule, hlocation]

section Items

variable {p q : Production} (h : p.Alike file q) (rule : Rule) (line column : UInt32)
  (front back : List Element)

include h

theorem ParameterList.ofElements_exchange (list : Production) (pending : Option String)
    (parameters : List Parameter) :
    ofElements file list pending parameters (front ++ .production p :: back) =
      ofElements file list pending parameters (front ++ .production q :: back) := by
  induction front generalizing pending parameters with
  | nil =>
      rw [List.nil_append, List.nil_append, ofElements, ofElements, ← h.rule_eq, h.location_eq]
      -- only types are read in a list of parameters, other productions are refused
      by_cases hrule : p.rule = .typeSpecifier
      · rw [h.type_eq hrule]
      · rw [if_neg hrule, if_neg hrule]
  | cons element elements ih =>
      rw [List.cons_append, List.cons_append]
      unfold ofElements
      simp only [ih]

theorem ParameterList.ofProduction_exchange :
    ofProduction file ⟨rule, line, column, front ++ .production p :: back⟩ =
      ofProduction file ⟨rule, line, column, front ++ .production q :: back⟩ := by
  rw [ofProduction, ofProduction, ofElements_exchange h]
  exact ofElements_congr (by rfl) (by rfl) ..

theorem parametersOf_exchange :
    parametersOf file ⟨rule, line, column, front ++ .production p :: back⟩ =
      parametersOf file ⟨rule, line, column, front ++ .production q :: back⟩ :=
  option_mapM_congr (child?_exchange (.inside h) front back rfl
    (fun _ _ halike hrule => halike.parameters_eq hrule) rule line column)

/-! ## Items -/

/-- Where an initializer is, and the value in it. -/
def initializerView (file : String) (initializer : Production) :
    Rule × Location × Option (Reading Expr) :=
  (initializer.rule, initializer.location file,
    (valueAfterAssign? initializer).map (Expr.ofElement file))

theorem Declaration.ofGlobal_exchange :
    ofGlobal file ⟨rule, line, column, front ++ .production p :: back⟩ =
      ofGlobal file ⟨rule, line, column, front ++ .production q :: back⟩ := by
  have halike : (Element.production p).Alike file (.production q) := .inside h
  have htype := typeView_exchange halike rule line column front back
  have hname : requiredIdentifier file ⟨rule, line, column, front ++ .production p :: back⟩ =
      requiredIdentifier file ⟨rule, line, column, front ++ .production q :: back⟩ :=
    requiredIdentifier_exchange ..
  have hchild : (Production.child? ⟨rule, line, column, front ++ .production p :: back⟩
        .initializer).map (initializerView file) =
      (Production.child? ⟨rule, line, column, front ++ .production q :: back⟩
        .initializer).map (initializerView file) := by
    refine child?_exchange halike front back rfl (fun p q halike hrule => ?_) rule line column
    rw [initializerView, initializerView, halike.rule_eq, halike.location_eq,
      halike.value_eq hrule]
  rw [ofGlobal, ofGlobal]
  cases hfound : Production.child? ⟨rule, line, column, front ++ .production p :: back⟩
      .initializer with
  | none =>
      rw [hfound, Option.map_none] at hchild
      rw [Option.map_eq_none_iff.mp hchild.symm]
      exact ofParts_congr htype hname rfl rfl rfl
  | some initializer =>
      rw [hfound, Option.map_some] at hchild
      obtain ⟨changed, hother, hview⟩ := Option.map_eq_some_iff.mp hchild.symm
      rw [hother]
      obtain ⟨hrule, hview⟩ := Prod.mk.inj hview.symm
      obtain ⟨hlocation, hvalue⟩ := Prod.mk.inj hview
      refine required_bind_congr hrule hlocation hvalue _ fun value other hvalue => ?_
      exact ofParts_congr htype hname rfl rfl (congrArg some hvalue)

theorem FunctionDeclaration.ofProduction_exchange :
    ofProduction file ⟨rule, line, column, front ++ .production p :: back⟩ =
      ofProduction file ⟨rule, line, column, front ++ .production q :: back⟩ := by
  rw [ofProduction, ofProduction]
  refine required_bind_congr rfl rfl (typeView_exchange (.inside h) rule line column front back) _
    fun type changed hview => ?_
  rw [(Prod.mk.inj hview).2, requiredIdentifier_exchange _ _ _ _ _ p q, parametersOf_exchange h]
  rfl

theorem FunctionDefinition.ofProduction_exchange :
    ofProduction file ⟨rule, line, column, front ++ .production p :: back⟩ =
      ofProduction file ⟨rule, line, column, front ++ .production q :: back⟩ := by
  have hbody : (Production.child? ⟨rule, line, column, front ++ .production p :: back⟩
        .block).map (Block.ofProduction file) =
      (Production.child? ⟨rule, line, column, front ++ .production q :: back⟩
        .block).map (Block.ofProduction file) := by
    refine child?_exchange (.inside h) front back rfl (fun p q halike _ => ?_) rule line column
    rw [Block.ofProduction_eq, Block.ofProduction_eq, halike.statements_eq, halike.location_eq]
  rw [ofProduction, ofProduction]
  refine required_bind_congr rfl rfl (typeView_exchange (.inside h) rule line column front back) _
    fun type changed hview => ?_
  obtain ⟨hplace, htext⟩ := Prod.mk.inj hview
  rw [htext, requiredIdentifier_exchange _ _ _ _ _ p q, parametersOf_exchange h, hplace]
  refine bind_congr fun returnType => bind_congr fun name => ?_
  refine required_bind_congr rfl rfl hbody _ fun body other hblock => ?_
  rw [hblock]
  rfl

theorem Item.ofProduction_exchange :
    ofProduction file ⟨rule, line, column, front ++ .production p :: back⟩ =
      ofProduction file ⟨rule, line, column, front ++ .production q :: back⟩ := by
  cases rule with
  | functionDefinition =>
      exact congrArg (fun reading => Item.function <$> reading)
        (FunctionDefinition.ofProduction_exchange h ..)
  | functionDeclaration =>
      exact congrArg (fun reading => Item.external <$> reading)
        (FunctionDeclaration.ofProduction_exchange h ..)
  | declaration =>
      have hchild : (Production.child? ⟨.declaration, line, column, front ++ .production p :: back⟩
            .functionDeclaration).map (FunctionDeclaration.ofProduction file) =
          (Production.child? ⟨.declaration, line, column, front ++ .production q :: back⟩
            .functionDeclaration).map (FunctionDeclaration.ofProduction file) :=
        child?_exchange (.inside h) front back rfl
          (fun _ _ halike hrule => halike.declaration_eq hrule) ..
      have hglobal := Declaration.ofGlobal_exchange h .declaration line column front back
      rw [ofProduction, ofProduction]
      simp only
      cases hfound : Production.child? ⟨.declaration, line, column, front ++ .production p :: back⟩
          .functionDeclaration with
      | none =>
          rw [hfound, Option.map_none] at hchild
          rw [Option.map_eq_none_iff.mp hchild.symm, hglobal]
      | some declared =>
          rw [hfound, Option.map_some] at hchild
          obtain ⟨changed, hother, hdeclared⟩ := Option.map_eq_some_iff.mp hchild.symm
          rw [hother]
          exact congrArg (fun reading => Item.external <$> reading) hdeclared.symm
  | _ => rfl

end Items

/-! ## Productions -/

theorem typeText_exchange (rule : Rule) (line column : UInt32) (front back : List Element)
    (p q : Production) :
    typeText file ⟨rule, line, column, front ++ .production p :: back⟩ =
      typeText file ⟨rule, line, column, front ++ .production q :: back⟩ := by
  rw [typeText, typeText, tokens_exchange _ _ _ _ _ p q]
  rfl

/-- A production is read alike after a child was put in parentheses where an expression is
read, or was exchanged for a production that is read alike. -/
theorem ParseTree.Production.alike_of_exchange (h : Exchange file rule front x y)
    (line column : UInt32) (back : List Element) :
    Production.Alike file ⟨rule, line, column, front ++ x :: back⟩
      ⟨rule, line, column, front ++ y :: back⟩ where
  rule_eq := rfl
  location_eq := rfl
  innerToken?_eq := innerToken?_exchange h.alike ..
  expression_eq := Expr.ofProduction_exchange h ..
  operands_eq := operandsOf_exchange h.alike ..
  statement_eq := Stmt.ofProduction_exchange h ..
  statements_eq := statementsOf_exchange h.alike ..
  listed_eq := listedStatements_exchange h.alike ..
  type_eq hrule := by
    obtain rfl : rule = .typeSpecifier := hrule
    obtain ⟨p, q, rfl, rfl, -⟩ := h.exists_productions rfl
    exact typeText_exchange ..
  value_eq hrule := by
    obtain rfl : rule = .initializer := hrule
    refine valueAfterAssign?_exchange h.alike front back ?_ ..
    cases h with
    | enclosed hposition _ => exact .inl hposition
    | inside _ => exact .inr ⟨rfl, rfl⟩
  parameters_eq hrule := by
    obtain rfl : rule = .fargs := hrule
    obtain ⟨p, q, rfl, rfl, halike⟩ := h.exists_productions rfl
    exact ParameterList.ofProduction_exchange halike ..
  declaration_eq hrule := by
    obtain rfl : rule = .functionDeclaration := hrule
    obtain ⟨p, q, rfl, rfl, halike⟩ := h.exists_productions rfl
    exact FunctionDeclaration.ofProduction_exchange halike ..
  item_eq := by
    cases h with
    | inside h => exact Item.ofProduction_exchange h ..
    -- where an expression is expected, the production is no item of a file
    | enclosed hposition _ => cases rule <;> first | rfl | cases hposition

/-- Two productions of which the one has an element in parentheses are read alike. -/
theorem ParseTree.Production.Parenthesizes.alike {p q : Production} (h : p.Parenthesizes q)
    (file : String) : p.Alike file q := by
  -- induction on the way down, so that each production on it is exchanged for one read alike
  induction h with
  | here front back hposition hencloses =>
      exact Production.alike_of_exchange (.enclosed hposition hencloses) ..
  | deeper front back _ ih => exact Production.alike_of_exchange (.inside ih) ..

/-- A file with an element in parentheses spells the program that it spells without. -/
theorem CompileUnit.ofProduction_of_parenthesizes {p q : Production} (h : p.Parenthesizes q)
    (file : String) : ofProduction file q = ofProduction file p := by
  cases h with
  | @here rule line column element wrapper front back hposition hencloses =>
      -- no expression is read at the top of a file
      have hrule : rule ≠ .compileUnit := by
        rintro rfl
        cases hposition
      rw [ofProduction, ofProduction, if_neg hrule, if_neg hrule]
      rfl
  | @deeper rule line column inner changed front back h =>
      have hitem := (h.alike file).item_eq
      rw [ofProduction, ofProduction]
      simp only [Production.productions, List.filterMap_append, List.filterMap_cons,
        Element.production?, List.mapM_append, List.mapM_cons, hitem]
      rfl

end Productions

end MiniC
