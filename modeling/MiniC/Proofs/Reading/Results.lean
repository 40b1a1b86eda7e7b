import MiniC.Proofs.Reading.Parts

/-!
# What reading finds

For each production, when it is read and what is read: the parts that are looked for are
there, and they are read themselves.  Each equation is an equivalence, so that it serves to
read a production of the grammar as well as to tell what an accepted one is like.
-/

namespace MiniC

open ParseTree

variable {file : String} {production : Production}

/-! ## Readings -/

section Readings

variable {α β : Type}

theorem reading_bind_eq_ok {reading : Reading α} {next : α → Reading β} {result : β} :
    reading >>= next = .ok result ↔ ∃ value, reading = .ok value ∧ next value = .ok result := by
  cases reading with
  | error malformation => simp [bind, Except.bind]
  | ok value => simp [bind, Except.bind]

theorem reading_map_eq_ok {reading : Reading α} {change : α → β} {result : β} :
    change <$> reading = .ok result ↔ ∃ value, reading = .ok value ∧ change value = result := by
  cases reading with
  | error malformation => simp [Functor.map, Except.map]
  | ok value => simp [Functor.map, Except.map]

theorem reading_pure_eq_ok {value result : α} : (pure value : Reading α) = .ok result ↔
    value = result := by
  simp [pure, Except.pure]

theorem required_eq_ok {part : String} {found : Option α} {value : α} :
    production.required file part found = .ok value ↔ found = some value := by
  cases found <;> simp [Production.required]

theorem requiredIdentifier_eq_ok {token : Token} :
    requiredIdentifier file production = .ok token ↔
      production.firstToken? .identifier = some token :=
  required_eq_ok

/-- An optional part is read where there is one. -/
theorem option_mapM_eq_ok {read : α → Reading β} {part : Option α} {result : Option β} :
    part.mapM read = .ok result ↔
      (part = none ∧ result = none) ∨
        ∃ value, ∃ found : β, part = some value ∧ read value = .ok found ∧ result = some found := by
  cases part with
  | none =>
      rw [Option.mapM_none]
      simp [pure, Except.pure, eq_comm]
  | some value =>
      cases hread : read value with
      | error malformation => simp [Option.mapM_some, hread, Functor.map, Except.map]
      | ok found => simp [Option.mapM_some, hread, Functor.map, Except.map, eq_comm]

theorem mapM_cons_eq_ok {read : α → Reading β} {element : α} {elements : List α}
    {result : List β} :
    (element :: elements).mapM read = .ok result ↔
      ∃ value values, read element = .ok value ∧ elements.mapM read = .ok values ∧
        result = value :: values := by
  rw [List.mapM_cons, reading_bind_eq_ok]
  constructor
  · rintro ⟨value, hvalue, h⟩
    obtain ⟨values, hvalues, h⟩ := reading_bind_eq_ok.mp h
    exact ⟨value, values, hvalue, hvalues, (reading_pure_eq_ok.mp h).symm⟩
  · rintro ⟨value, values, hvalue, hvalues, rfl⟩
    exact ⟨value, hvalue, reading_bind_eq_ok.mpr ⟨values, hvalues, rfl⟩⟩

theorem mapM_nil_eq_ok {read : α → Reading β} {result : List β} :
    ([] : List α).mapM read = .ok result ↔ result = [] := by
  rw [List.mapM_nil, reading_pure_eq_ok, eq_comm]

theorem mapM_map_id (read : α → Reading β) (elements : List α) :
    (elements.map read).mapM id = elements.mapM read := by
  induction elements with
  | nil => rfl
  | cons element elements ih => rw [List.map_cons, List.mapM_cons, List.mapM_cons, ih]; rfl

end Readings

/-! ## Expressions -/

namespace Expr

variable {expr : Expr}

theorem ofToken_eq_ok {token : Token} :
    ofToken file token = .ok expr ↔
      (token.kind = .number ∧ ∃ value, Text.int32? token.text = some value ∧
        expr = .number (token.location file) value) ∨
      token.kind = .identifier ∧ expr = .name (token.location file) token.text := by
  obtain ⟨kind, text, line, column⟩ := token
  cases kind with
  | number =>
      simp only [ofToken]
      cases Text.int32? text <;> simp [eq_comm]
  | identifier => simp [ofToken, eq_comm]
  | typeName | keyword | operator | punctuation => simp [ofToken]

theorem ofProduction_wrapper (h : production.rule.isWrapper) :
    ofProduction file production = .ok expr ↔
      ∃ inner, production.expressions.head? = some inner ∧ ofElement file inner = .ok expr := by
  obtain ⟨rule, line, column, children⟩ := production
  have hread : ofProduction file ⟨rule, line, column, children⟩ = (do
      let inner ← (⟨rule, line, column, children⟩ : Production).required file "inner expression"
        (operandsOf file children).head?
      inner) := by
    cases rule with
    | primaryExpression | parenExpression => rw [ofProduction]
    | _ => cases h
  rw [hread, reading_bind_eq_ok, operandsOf_eq]
  simp only [required_eq_ok, List.head?_map, Option.map_eq_some_iff]
  constructor
  · rintro ⟨reading, ⟨inner, hinner, rfl⟩, hexpr⟩
    exact ⟨inner, hinner, hexpr⟩
  · rintro ⟨inner, hinner, hexpr⟩
    exact ⟨_, ⟨inner, hinner, rfl⟩, hexpr⟩

theorem operatorText_eq_ok {text : String} :
    operatorText file production = .ok text ↔
      ∃ token, production.firstToken? .operator = some token ∧ token.text = text := by
  rw [operatorText, reading_bind_eq_ok]
  simp only [required_eq_ok, reading_pure_eq_ok]

theorem ofProduction_binary (h : production.rule = .binaryExpression) :
    ofProduction file production = .ok expr ↔
      ∃ token op left right first second, production.firstToken? .operator = some token ∧
        BinaryOp.ofText? token.text = some op ∧ production.expressions = [left, right] ∧
        ofElement file left = .ok first ∧ ofElement file right = .ok second ∧
        expr = .binary (production.location file) op first second := by
  obtain ⟨rule, line, column, children⟩ := production
  cases h
  rw [ofProduction, reading_bind_eq_ok, operandsOf_children file .binaryExpression line column]
  generalize (⟨.binaryExpression, line, column, children⟩ : Production) = production
  constructor
  · rintro ⟨text, htext, h⟩
    obtain ⟨token, htoken, rfl⟩ := operatorText_eq_ok.mp htext
    split at h
    next => cases h
    next op hop =>
      -- reading goes on with exactly two operands
      match hoperands : production.expressions, h with
      | [left, right], h =>
          obtain ⟨first, hfirst, h⟩ := reading_bind_eq_ok.mp h
          obtain ⟨second, hsecond, h⟩ := reading_bind_eq_ok.mp h
          exact ⟨token, op, left, right, first, second, htoken, hop, rfl, hfirst, hsecond,
            (reading_pure_eq_ok.mp h).symm⟩
      | [], h | [_], h | _ :: _ :: _ :: _, h => cases h
  · rintro ⟨token, op, left, right, first, second, htoken, hop, hoperands, hfirst, hsecond, rfl⟩
    refine ⟨token.text, operatorText_eq_ok.mpr ⟨token, htoken, rfl⟩, ?_⟩
    rw [hop, hoperands]
    exact reading_bind_eq_ok.mpr ⟨first, hfirst, reading_bind_eq_ok.mpr ⟨second, hsecond, rfl⟩⟩

theorem ofProduction_unary (h : production.rule = .unaryExpression) :
    ofProduction file production = .ok expr ↔
      ∃ token op operand, production.firstToken? .operator = some token ∧
        UnaryOp.ofText? token.text = some op ∧ production.expressions.head? = some operand ∧
        ((∃ minimum, negatedMinimum? op operand = some minimum ∧
            expr = .number (minimum.location file) Int32.minValue) ∨
          negatedMinimum? op operand = none ∧
            ∃ value, ofElement file operand = .ok value ∧
              expr = .unary (production.location file) op value) := by
  obtain ⟨rule, line, column, children⟩ := production
  cases h
  rw [ofProduction, reading_bind_eq_ok, operandsOf_children file .unaryExpression line column]
  generalize (⟨.unaryExpression, line, column, children⟩ : Production) = production
  constructor
  · rintro ⟨text, htext, h⟩
    obtain ⟨token, htoken, rfl⟩ := operatorText_eq_ok.mp htext
    split at h
    next => cases h
    next op hop =>
      obtain ⟨operand, hoperand, h⟩ := reading_bind_eq_ok.mp h
      rw [required_eq_ok] at hoperand
      refine ⟨token, op, operand, htoken, hop, hoperand, ?_⟩
      split at h
      next minimum hminimum => exact .inl ⟨minimum, hminimum, (reading_pure_eq_ok.mp h).symm⟩
      next hnone =>
        rw [List.head?_map, hoperand] at h
        obtain ⟨reading, hreading, h⟩ := reading_bind_eq_ok.mp h
        obtain rfl := Option.some.inj (required_eq_ok.mp hreading)
        obtain ⟨value, hvalue, h⟩ := reading_bind_eq_ok.mp h
        exact .inr ⟨hnone, value, hvalue, (reading_pure_eq_ok.mp h).symm⟩
  · rintro ⟨token, op, operand, htoken, hop, hoperand, h⟩
    refine ⟨token.text, operatorText_eq_ok.mpr ⟨token, htoken, rfl⟩, ?_⟩
    rw [hop]
    refine reading_bind_eq_ok.mpr ⟨operand, required_eq_ok.mpr hoperand, ?_⟩
    rcases h with ⟨minimum, hminimum, rfl⟩ | ⟨hnone, value, hvalue, rfl⟩
    · rw [hminimum]
      rfl
    · rw [hnone, List.head?_map, hoperand]
      exact reading_bind_eq_ok.mpr ⟨ofElement file operand, required_eq_ok.mpr rfl,
        reading_bind_eq_ok.mpr ⟨value, hvalue, rfl⟩⟩

theorem ofProduction_assign (h : production.rule = .assignExpression) :
    ofProduction file production = .ok expr ↔
      ∃ target value token assigned, production.expressions = [target, value] ∧
        nameToken? target = some token ∧ ofElement file value = .ok assigned ∧
        expr = .assign (production.location file) (token.location file) token.text assigned := by
  obtain ⟨rule, line, column, children⟩ := production
  cases h
  rw [ofProduction, operandsOf_children file .assignExpression line column]
  generalize (⟨.assignExpression, line, column, children⟩ : Production) = production
  constructor
  · intro h
    match hoperands : production.expressions, h with
    | [target, value], h =>
        rw [List.map_cons, List.map_cons, List.map_nil] at h
        cases htoken : nameToken? target with
        | none =>
            simp only [htoken] at h
            cases h
        | some token =>
            simp only [htoken] at h
            obtain ⟨assigned, hassigned, h⟩ := reading_bind_eq_ok.mp h
            exact ⟨target, value, token, assigned, rfl, htoken, hassigned,
              (reading_pure_eq_ok.mp h).symm⟩
    | [], h | [_], h | _ :: _ :: _ :: _, h => cases h
  · rintro ⟨target, value, token, assigned, hoperands, htoken, hassigned, rfl⟩
    rw [hoperands]
    rw [List.map_cons, List.map_cons, List.map_nil]
    simp only [htoken]
    exact reading_bind_eq_ok.mpr ⟨assigned, hassigned, rfl⟩

theorem ofProduction_call (h : production.rule = .callExpression) :
    ofProduction file production = .ok expr ↔
      ∃ callee, production.firstToken? .identifier = some callee ∧
        ((production.child? .args = none ∧
            expr = .call (production.location file) callee.text none) ∨
          ∃ list values, production.child? .args = some list ∧
            list.expressions.mapM (ofElement file) = .ok values ∧
            expr = .call (production.location file) callee.text
              (some ⟨list.location file, values⟩)) := by
  obtain ⟨rule, line, column, children⟩ := production
  cases h
  rw [ofProduction, reading_bind_eq_ok, argumentsOf?_eq]
  generalize hproduction : (⟨.callExpression, line, column, children⟩ : Production) = production
  have hchild : (children.filterMap Element.production?).find? (·.rule == .args) =
      production.child? .args := by
    rw [← hproduction]
    rfl
  rw [hchild]
  simp only [requiredIdentifier_eq_ok]
  constructor
  · rintro ⟨callee, hcallee, h⟩
    refine ⟨callee, hcallee, ?_⟩
    cases hlist : production.child? .args with
    | none =>
        rw [hlist] at h
        exact .inl ⟨rfl, (reading_pure_eq_ok.mp h).symm⟩
    | some list =>
        rw [hlist] at h
        obtain ⟨values, hvalues, h⟩ := reading_bind_eq_ok.mp h
        rw [mapM_map_id] at hvalues
        exact .inr ⟨list, values, rfl, hvalues, (reading_pure_eq_ok.mp h).symm⟩
  · rintro ⟨callee, hcallee, h⟩
    refine ⟨callee, hcallee, ?_⟩
    rcases h with ⟨hnone, rfl⟩ | ⟨list, values, hlist, hvalues, rfl⟩
    · rw [hnone]
      rfl
    · rw [hlist]
      exact reading_bind_eq_ok.mpr ⟨values, (mapM_map_id _ _).trans hvalues, rfl⟩

/-- Only expressions are read as expressions. -/
theorem isExpression_of_ofElement {element : Element} (h : ofElement file element = .ok expr) :
    element.isExpression := by
  cases element with
  | token t =>
      rw [ofElement, ofToken_eq_ok] at h
      rcases h with ⟨hkind, -⟩ | ⟨hkind, -⟩ <;>
        simp [Element.isExpression, Token.isExpression, hkind]
  | production p =>
      obtain ⟨rule, line, column, children⟩ := p
      cases rule with
      | primaryExpression | parenExpression | binaryExpression | unaryExpression
      | assignExpression | callExpression => rfl
      | _ => cases h

end Expr

/-- The token that a production is but for parentheses. -/
theorem innerToken?_production (production : Production) :
    innerToken? (.production production) =
      if production.rule.isWrapper then production.expressions.head?.bind innerToken?
      else none := by
  obtain ⟨rule, line, column, children⟩ := production
  cases rule with
  | primaryExpression | parenExpression =>
      rw [innerToken?, innerTokenOfFirst?_eq, Production.expressions, List.head?_filter]
      rfl
  | _ => rfl

/-! ## Declarations -/

theorem typeText_eq_ok {text : String} :
    typeText file production = .ok text ↔
      ∃ token, production.tokens.find? Token.isTypeWord = some token ∧ token.text = text := by
  rw [typeText, reading_bind_eq_ok]
  simp only [required_eq_ok, reading_pure_eq_ok]
  rfl

theorem requiredChild_eq_ok {rule : Rule} {child : Production} :
    requiredChild file production rule = .ok child ↔ production.child? rule = some child :=
  required_eq_ok

namespace Declaration

variable {declared : Declaration}

theorem ofParts_eq_ok {value : Option Element} :
    ofParts file production value = .ok declared ↔
      ∃ type typeName name initial, production.child? .typeSpecifier = some type ∧
        typeText file type = .ok typeName ∧ production.firstToken? .identifier = some name ∧
        value.mapM (Expr.ofElement file) = .ok initial ∧
        declared = ⟨production.location file, type.location file, typeName, name.location file,
          name.text, initial⟩ := by
  rw [ofParts, reading_bind_eq_ok]
  simp only [requiredChild_eq_ok]
  constructor
  · rintro ⟨type, htype, h⟩
    obtain ⟨typeName, htypeName, h⟩ := reading_bind_eq_ok.mp h
    obtain ⟨name, hname, h⟩ := reading_bind_eq_ok.mp h
    obtain ⟨initial, hinitial, h⟩ := reading_bind_eq_ok.mp h
    exact ⟨type, typeName, name, initial, htype, htypeName,
      requiredIdentifier_eq_ok.mp hname, hinitial, (reading_pure_eq_ok.mp h).symm⟩
  · rintro ⟨type, typeName, name, initial, htype, htypeName, hname, hinitial, rfl⟩
    exact ⟨type, htype, reading_bind_eq_ok.mpr ⟨typeName, htypeName, reading_bind_eq_ok.mpr
      ⟨name, requiredIdentifier_eq_ok.mpr hname, reading_bind_eq_ok.mpr
        ⟨initial, hinitial, rfl⟩⟩⟩⟩

theorem ofLocal_eq_ok :
    ofLocal file production = .ok declared ↔
      if production.children.any Element.isAssign then
        ∃ value, valueAfterAssign? production = some value ∧
          ofParts file production (some value) = .ok declared
      else ofParts file production none = .ok declared := by
  rw [ofLocal]
  split
  · rw [reading_bind_eq_ok]
    simp only [required_eq_ok]
  · rfl

theorem ofGlobal_eq_ok :
    ofGlobal file production = .ok declared ↔
      match production.child? .initializer with
      | some initializer =>
          ∃ value, valueAfterAssign? initializer = some value ∧
            ofParts file production (some value) = .ok declared
      | none => ofParts file production none = .ok declared := by
  rw [ofGlobal]
  cases production.child? .initializer with
  | none => rfl
  | some initializer =>
      dsimp only
      rw [reading_bind_eq_ok]
      simp only [required_eq_ok]

end Declaration

/-! ## Statements -/

namespace Stmt

variable {statement : Stmt}

theorem ofProduction_statement (h : production.rule = .statement) :
    ofProduction file production = .ok statement ↔
      if production.hasToken .keyword "return" then
        ∃ value, production.expressions.head?.mapM (Expr.ofElement file) = .ok value ∧
          statement = .returnValue (production.location file) value
      else if production.hasToken .keyword "break" then
        statement = .breakLoop (production.location file)
      else
        ∃ inner, production.children.find? (!·.isPunctuation) = some inner ∧
          ofElement file inner = .ok statement := by
  obtain ⟨rule, line, column, children⟩ := production
  cases h
  rw [ofProduction, innerStatement?_eq]
  generalize hproduction : (⟨.statement, line, column, children⟩ : Production) = production
  have hchildren : children = production.children := by rw [← hproduction]
  rw [hchildren]
  split
  · rw [reading_bind_eq_ok]
    simp only [reading_pure_eq_ok, eq_comm (a := statement)]
  · split
    · rw [reading_pure_eq_ok, eq_comm]
    · cases hinner : production.children.find? (!·.isPunctuation) with
      | none => simp
      | some inner => simp

theorem ofProduction_if (h : production.rule = .ifStatement) :
    ofProduction file production = .ok statement ↔
      ∃ condition test, production.expressions.head? = some condition ∧
        Expr.ofElement file condition = .ok test ∧
        ((∃ chosen thenBlock, production.productions.filter (·.rule == .block) = [chosen] ∧
            Block.ofProduction file chosen = .ok thenBlock ∧
            statement = .ifElse (production.location file) test thenBlock none) ∨
          ∃ chosen other thenBlock elseBlock,
            production.productions.filter (·.rule == .block) = [chosen, other] ∧
            Block.ofProduction file chosen = .ok thenBlock ∧
            Block.ofProduction file other = .ok elseBlock ∧
            statement = .ifElse (production.location file) test thenBlock (some elseBlock)) := by
  obtain ⟨rule, line, column, children⟩ := production
  cases h
  rw [ofProduction, reading_bind_eq_ok, blocksOf_eq]
  generalize hproduction : (⟨.ifStatement, line, column, children⟩ : Production) = production
  have hblocks : children.filterMap Element.production? = production.productions := by
    rw [← hproduction]
    rfl
  rw [hblocks]
  simp only [required_eq_ok]
  constructor
  · rintro ⟨condition, hcondition, h⟩
    generalize hfound : production.productions.filter (·.rule == .block) = found at h
    rcases found with _ | ⟨chosen, _ | ⟨other, _ | ⟨third, others⟩⟩⟩
    · cases h
    · obtain ⟨test, htest, h⟩ := reading_bind_eq_ok.mp h
      obtain ⟨thenBlock, hthen, h⟩ := reading_bind_eq_ok.mp h
      exact ⟨condition, test, hcondition, htest, .inl ⟨chosen, thenBlock, rfl, hthen,
        (reading_pure_eq_ok.mp h).symm⟩⟩
    · obtain ⟨test, htest, h⟩ := reading_bind_eq_ok.mp h
      obtain ⟨thenBlock, hthen, h⟩ := reading_bind_eq_ok.mp h
      obtain ⟨elseBlock, helse, h⟩ := reading_bind_eq_ok.mp h
      exact ⟨condition, test, hcondition, htest, .inr ⟨chosen, other, thenBlock, elseBlock,
        rfl, hthen, helse, (reading_pure_eq_ok.mp h).symm⟩⟩
    · cases h
  · rintro ⟨condition, test, hcondition, htest, h⟩
    refine ⟨condition, hcondition, ?_⟩
    rcases h with ⟨chosen, thenBlock, hfound, hthen, rfl⟩ |
      ⟨chosen, other, thenBlock, elseBlock, hfound, hthen, helse, rfl⟩
    · rw [hfound]
      exact reading_bind_eq_ok.mpr ⟨test, htest, reading_bind_eq_ok.mpr ⟨thenBlock, hthen, rfl⟩⟩
    · rw [hfound]
      exact reading_bind_eq_ok.mpr ⟨test, htest, reading_bind_eq_ok.mpr ⟨thenBlock, hthen,
        reading_bind_eq_ok.mpr ⟨elseBlock, helse, rfl⟩⟩⟩

theorem ofProduction_while (h : production.rule = .whileStatement) :
    ofProduction file production = .ok statement ↔
      ∃ condition body rest test repeated,
        production.children.filter (!·.isPunctuationOrKeyword) = condition :: body :: rest ∧
        condition.isExpression ∧ Expr.ofElement file condition = .ok test ∧
        ofElement file body = .ok repeated ∧
        statement = .whileLoop (production.location file) test repeated := by
  obtain ⟨rule, line, column, children⟩ := production
  cases h
  rw [ofProduction, reading_bind_eq_ok, loopBody?_eq, ← List.head?_filter]
  generalize hproduction : (⟨.whileStatement, line, column, children⟩ : Production) = production
  have hchildren : children = production.children := by rw [← hproduction]
  rw [hchildren]
  simp only [required_eq_ok, Option.filter_eq_some_iff]
  constructor
  · rintro ⟨condition, ⟨hcondition, hexpression⟩, h⟩
    obtain ⟨reading, hreading, h⟩ := reading_bind_eq_ok.mp h
    obtain ⟨test, htest, h⟩ := reading_bind_eq_ok.mp h
    obtain ⟨repeated, hrepeated, hresult⟩ := reading_bind_eq_ok.mp h
    rw [required_eq_ok, Option.map_eq_some_iff] at hreading
    obtain ⟨body, hbody, rfl⟩ := hreading
    generalize hparts : production.children.filter (!·.isPunctuationOrKeyword) = parts at *
    -- the condition and the body are the first two children that count
    rcases parts with _ | ⟨first, _ | ⟨second, rest⟩⟩
    · cases hcondition
    · cases hbody
    · obtain rfl := Option.some.inj hcondition
      obtain rfl := Option.some.inj hbody
      exact ⟨first, second, rest, test, repeated, rfl, hexpression, htest, hrepeated,
        (reading_pure_eq_ok.mp hresult).symm⟩
  · rintro ⟨condition, body, rest, test, repeated, hparts, hexpression, htest, hrepeated, rfl⟩
    refine ⟨condition, ⟨by rw [hparts]; rfl, hexpression⟩, reading_bind_eq_ok.mpr
      ⟨ofElement file body, ?_, reading_bind_eq_ok.mpr ⟨test, htest, reading_bind_eq_ok.mpr
        ⟨repeated, hrepeated, rfl⟩⟩⟩⟩
    rw [required_eq_ok, hparts]
    rfl

theorem ofProduction_block (h : production.rule = .block) :
    ofProduction file production = .ok statement ↔
      ∃ block, Block.ofProduction file production = .ok block ∧ statement = .block block := by
  obtain ⟨rule, line, column, children⟩ := production
  cases h
  rw [ofProduction, Block.ofProduction]
  cases statementsOf file children <;> simp [bind, Except.bind, pure, Except.pure, eq_comm]

theorem ofProduction_local (h : production.rule = .localDeclaration) :
    ofProduction file production = .ok statement ↔
      ∃ declared, Declaration.ofLocal file production = .ok declared ∧
        statement = .declaration declared := by
  obtain ⟨rule, line, column, children⟩ := production
  cases h
  rw [ofProduction, reading_map_eq_ok]
  simp only [eq_comm]

theorem ofProduction_expression (h : production.rule.isExpression) :
    ofProduction file production = .ok statement ↔
      ∃ expr, Expr.ofProduction file production = .ok expr ∧ statement = .expression expr := by
  obtain ⟨rule, line, column, children⟩ := production
  cases rule with
  | primaryExpression | parenExpression | binaryExpression | unaryExpression | assignExpression
  | callExpression =>
      rw [ofProduction, if_pos h, reading_map_eq_ok]
      · simp only [eq_comm]
      all_goals rintro ⟨⟩
  | _ => cases h

end Stmt

theorem Block.ofProduction_eq_ok {block : Block} :
    Block.ofProduction file production = .ok block ↔
      ∃ statements, (statementElements production.children).mapM (Stmt.ofElement file) =
          .ok statements ∧ block = ⟨production.location file, statements⟩ := by
  rw [Block.ofProduction, reading_bind_eq_ok, statementsOf_eq]
  simp only [reading_pure_eq_ok, eq_comm (a := block)]

/-! ## Files -/

/-- Commas in a list of parameters are passed over. -/
theorem ParameterList.ofElements_filter (list : Production) (pending : Option String)
    (parameters : List Parameter) (elements : List Element) :
    ofElements file list pending parameters elements =
      ofElements file list pending parameters (elements.filter (!·.isComma)) := by
  induction elements generalizing pending parameters with
  | nil => rfl
  | cons element elements ih =>
      cases element with
      | production p =>
          rw [List.filter_cons_of_pos (by rfl)]
          unfold ofElements
          simp only [ih]
      | token t =>
          cases hcomma : (Element.token t).isComma with
          | true =>
              -- a comma leaves the type whose name is still to come and the parameters as they are
              rw [List.filter_cons_of_neg (by simp [hcomma]), ← ih]
              simp only [Element.isComma, Bool.and_eq_true, bne_iff_ne, beq_iff_eq] at hcomma
              conv => lhs; unfold ofElements
              simp only [if_neg hcomma.1, if_pos hcomma.2]
          | false =>
              rw [List.filter_cons_of_pos (by simp [hcomma])]
              unfold ofElements
              simp only [ih]

theorem parametersOf_eq_ok {list : Option ParameterList} :
    parametersOf file production = .ok list ↔
      (production.child? .fargs = none ∧ list = none) ∨
        ∃ listed found, production.child? .fargs = some listed ∧
          ParameterList.ofProduction file listed = .ok found ∧ list = some found :=
  option_mapM_eq_ok

theorem FunctionDefinition.ofProduction_eq_ok {definition : FunctionDefinition} :
    ofProduction file production = .ok definition ↔
      ∃ type typeName name body parameters block, production.child? .typeSpecifier = some type ∧
        typeText file type = .ok typeName ∧ production.firstToken? .identifier = some name ∧
        production.child? .block = some body ∧ parametersOf file production = .ok parameters ∧
        Block.ofProduction file body = .ok block ∧
        definition = ⟨production.location file, name.text, typeName, type.location file,
          parameters, block⟩ := by
  rw [ofProduction, reading_bind_eq_ok]
  simp only [requiredChild_eq_ok]
  constructor
  · rintro ⟨type, htype, h⟩
    obtain ⟨typeName, htypeName, h⟩ := reading_bind_eq_ok.mp h
    obtain ⟨name, hname, h⟩ := reading_bind_eq_ok.mp h
    obtain ⟨body, hbody, h⟩ := reading_bind_eq_ok.mp h
    obtain ⟨parameters, hparameters, h⟩ := reading_bind_eq_ok.mp h
    obtain ⟨block, hblock, h⟩ := reading_bind_eq_ok.mp h
    exact ⟨type, typeName, name, body, parameters, block, htype, htypeName,
      requiredIdentifier_eq_ok.mp hname, requiredChild_eq_ok.mp hbody, hparameters, hblock,
      (reading_pure_eq_ok.mp h).symm⟩
  · rintro ⟨type, typeName, name, body, parameters, block, htype, htypeName, hname, hbody,
      hparameters, hblock, rfl⟩
    exact ⟨type, htype, reading_bind_eq_ok.mpr ⟨typeName, htypeName, reading_bind_eq_ok.mpr
      ⟨name, requiredIdentifier_eq_ok.mpr hname, reading_bind_eq_ok.mpr
        ⟨body, requiredChild_eq_ok.mpr hbody, reading_bind_eq_ok.mpr
          ⟨parameters, hparameters, reading_bind_eq_ok.mpr ⟨block, hblock, rfl⟩⟩⟩⟩⟩⟩

theorem FunctionDeclaration.ofProduction_eq_ok {declared : FunctionDeclaration} :
    ofProduction file production = .ok declared ↔
      ∃ type typeName name parameters, production.child? .typeSpecifier = some type ∧
        typeText file type = .ok typeName ∧ production.firstToken? .identifier = some name ∧
        parametersOf file production = .ok parameters ∧
        declared = ⟨production.location file, name.text, typeName, parameters⟩ := by
  rw [ofProduction, reading_bind_eq_ok]
  simp only [requiredChild_eq_ok]
  constructor
  · rintro ⟨type, htype, h⟩
    obtain ⟨typeName, htypeName, h⟩ := reading_bind_eq_ok.mp h
    obtain ⟨name, hname, h⟩ := reading_bind_eq_ok.mp h
    obtain ⟨parameters, hparameters, h⟩ := reading_bind_eq_ok.mp h
    exact ⟨type, typeName, name, parameters, htype, htypeName,
      requiredIdentifier_eq_ok.mp hname, hparameters, (reading_pure_eq_ok.mp h).symm⟩
  · rintro ⟨type, typeName, name, parameters, htype, htypeName, hname, hparameters, rfl⟩
    exact ⟨type, htype, reading_bind_eq_ok.mpr ⟨typeName, htypeName, reading_bind_eq_ok.mpr
      ⟨name, requiredIdentifier_eq_ok.mpr hname, reading_bind_eq_ok.mpr
        ⟨parameters, hparameters, rfl⟩⟩⟩⟩

theorem Item.ofProduction_eq_ok {item : Item} :
    ofProduction file production = .ok item ↔
      (production.rule = .functionDefinition ∧ ∃ definition,
        FunctionDefinition.ofProduction file production = .ok definition ∧
          item = .function definition) ∨
      (production.rule = .functionDeclaration ∧ ∃ declared,
        FunctionDeclaration.ofProduction file production = .ok declared ∧
          item = .external declared) ∨
      production.rule = .declaration ∧
        ((∃ inner declared, production.child? .functionDeclaration = some inner ∧
            FunctionDeclaration.ofProduction file inner = .ok declared ∧
            item = .external declared) ∨
          production.child? .functionDeclaration = none ∧ ∃ declared,
            Declaration.ofGlobal file production = .ok declared ∧ item = .global declared) := by
  rw [ofProduction]
  cases hrule : production.rule with
  | functionDefinition | functionDeclaration =>
      simp [reading_map_eq_ok, eq_comm (a := item)]
  | declaration =>
      cases production.child? .functionDeclaration <;>
        simp [reading_map_eq_ok, eq_comm (a := item)]
  | _ => simp

theorem CompileUnit.ofProduction_eq_ok {unit : CompileUnit} :
    ofProduction file production = .ok unit ↔
      production.rule = .compileUnit ∧ ∃ items,
        production.productions.mapM (Item.ofProduction file) = .ok items ∧
          unit = ⟨production.location file, items⟩ := by
  rw [ofProduction]
  split
  next hrule =>
    rw [reading_bind_eq_ok]
    simp only [reading_pure_eq_ok, hrule, true_and, eq_comm (a := unit)]
  next hrule => simp [hrule]

end MiniC
