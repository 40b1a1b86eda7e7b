import MiniC.Proofs.Reading.Outline.Expressions
import MiniC.Proofs.Reading.Sound.Files

/-!
# Reading the outline of a file

The outline of a parse tree spells the outline of the program that the parse tree spells,
and where the parse tree is malformed the outline is malformed in the same way
(`CompileUnit.ofProduction_outline`).
-/

namespace MiniC

open ParseTree

/-! ## Declarations -/

section Declarations

variable (file : String) {production : Production}

theorem requiredChild_outline (h : production.rule ≠ .typeSpecifier) (rule : Rule) :
    requiredChild unnamedFile (production.outline false) rule =
      outlineReading (Production.outline false) (requiredChild file production rule) := by
  rw [requiredChild, requiredChild, Production.child?_outline h]
  exact required_outline file false production _ _

theorem rule_of_requiredChild {rule : Rule} {child : Production}
    (h : requiredChild file production rule = .ok child) : child.rule = rule :=
  (mem_parts_of_child? (requiredChild_eq_ok.mp h)).2

/-- The name of a type is not in an outline. -/
theorem typeText_outline (h : production.rule = .typeSpecifier) :
    typeText unnamedFile (production.outline false) =
      outlineReading (fun _ => "") (typeText file production) := by
  rw [typeText, typeText, Production.tokens_outline, h]
  have hname : (production.tokens.map (Token.outline true)).find? Token.isTypeWord =
      (production.tokens.find? Token.isTypeWord).map (Token.outline true) :=
    find?_map_outline (fun _ => rfl) _
  exact outline_bind (hname ▸ required_outline file false production _ _) fun _ => rfl

theorem Declaration.ofParts_outline (h : production.rule ≠ .typeSpecifier)
    (value : Option Element) :
    Declaration.ofParts unnamedFile (production.outline false)
        (value.map (Element.outline false)) =
      outlineReading Declaration.outline (Declaration.ofParts file production value) := by
  rw [ofParts, ofParts]
  refine outline_bind_of_ok (requiredChild_outline file h _) fun type htype => ?_
  refine outline_bind (typeText_outline file (rule_of_requiredChild file htype)) fun typeName => ?_
  refine outline_bind (requiredIdentifier_outline file h) fun name => ?_
  refine outline_bind (outline_option_mapM fun element _ => Expr.ofElement_outline file element)
    fun initializer => ?_
  cases production
  cases type
  rfl

theorem Declaration.ofLocal_outline (h : production.rule ≠ .typeSpecifier) :
    Declaration.ofLocal unnamedFile (production.outline false) =
      outlineReading Declaration.outline (Declaration.ofLocal file production) := by
  have hassign : (production.outline false).children.any Element.isAssign =
      production.children.any Element.isAssign := by
    rw [Production.children_outline h, List.any_map]
    exact congrArg production.children.any (funext Element.isAssign_outline)
  rw [ofLocal, ofLocal, hassign, Production.valueAfterAssign?_outline h]
  by_cases hvalue : production.children.any Element.isAssign
  · rw [if_pos hvalue, if_pos hvalue]
    exact outline_bind (required_outline file false production _ _)
      fun value => Declaration.ofParts_outline file h (some value)
  · rw [if_neg hvalue, if_neg hvalue]
    exact Declaration.ofParts_outline file h none

theorem Declaration.ofGlobal_outline (h : production.rule ≠ .typeSpecifier) :
    Declaration.ofGlobal unnamedFile (production.outline false) =
      outlineReading Declaration.outline (Declaration.ofGlobal file production) := by
  rw [ofGlobal, ofGlobal, Production.child?_outline h]
  cases hchild : production.child? .initializer with
  | none => exact Declaration.ofParts_outline file h none
  | some initializer =>
      have hrule : initializer.rule ≠ .typeSpecifier := by
        rw [(mem_parts_of_child? hchild).2]
        decide
      simp only [Option.map_some, Production.valueAfterAssign?_outline hrule]
      exact outline_bind (required_outline file false initializer _ _)
        fun value => Declaration.ofParts_outline file h (some value)

/-- The types that are still to be named, and the parameters so far, go on as outlines. -/
theorem ParameterList.ofElements_outline (list : Production) (elements : List Element)
    (pending : Option String) (parameters : List Parameter) :
    ParameterList.ofElements unnamedFile (list.outline false) (pending.map fun _ => "")
        (parameters.map Parameter.outline) (elements.map (Element.outline false)) =
      outlineReading ParameterList.outline
        (ParameterList.ofElements file list pending parameters elements) := by
  induction elements generalizing pending parameters with
  | nil =>
      rw [List.map_nil, ofElements, ofElements, Option.isSome_map]
      cases pending with
      | none =>
          rw [← List.map_reverse]
          cases list
          rfl
      | some typeName => exact congrArg Except.error (malformed_outline file false list _)
  | cons element elements ih =>
      cases element with
      | token token =>
          rw [List.map_cons, Element.outline]
          unfold ofElements
          dsimp only
          -- a name ends a parameter, a comma is passed over, and anything else is refused in both
          by_cases hname : token.kind = .identifier
          · rw [if_pos hname, if_pos (show (token.outline false).kind = .identifier from hname)]
            cases pending with
            | none => exact congrArg Except.error (malformed_outline file false list _)
            | some typeName =>
              exact ih none (⟨token.location file, token.text, typeName⟩ :: parameters)
          · rw [if_neg hname, if_neg (show (token.outline false).kind ≠ .identifier from hname)]
            by_cases hcomma : token.text = ","
            · rw [if_pos hcomma, if_pos (show (token.outline false).text = "," from hcomma)]
              exact ih pending parameters
            · rw [if_neg hcomma, if_neg (show (token.outline false).text ≠ "," from hcomma)]
              cases list
              rfl
      | production production =>
          rw [List.map_cons, Element.outline]
          unfold ofElements
          dsimp only
          rw [Production.rule_outline]
          by_cases hrule : production.rule = .typeSpecifier
          · rw [if_pos hrule, if_pos hrule, Option.isSome_map, typeText_outline file hrule]
            by_cases hpending : pending.isSome
            · rw [if_pos hpending, if_pos hpending]
              exact congrArg Except.error (malformed_outline file false list _)
            · rw [if_neg hpending, if_neg hpending]
              cases typeText file production with
              | error malformation => rfl
              | ok typeName => exact ih (some typeName) parameters
          · rw [if_neg hrule, if_neg hrule]
            cases list
            cases production
            rfl

theorem parametersOf_outline (h : production.rule ≠ .typeSpecifier) :
    parametersOf unnamedFile (production.outline false) =
      outlineReading (Option.map ParameterList.outline) (parametersOf file production) := by
  rw [parametersOf, parametersOf, Production.child?_outline h]
  apply outline_option_mapM
  intro list hlist
  have hrule : list.rule ≠ .typeSpecifier := by
    rw [(mem_parts_of_child? hlist).2]
    decide
  rw [ParameterList.ofProduction, ParameterList.ofProduction, Production.children_outline hrule]
  exact ParameterList.ofElements_outline file list list.children none []

end Declarations

/-! ## Statements -/

section Statements

variable (file : String)

/-- An element that is no statement list is none in its outline. -/
theorem not_list_outline {child : Element}
    (h : ∀ line column listed, child = .production ⟨.statementList, line, column, listed⟩ → False)
    (line column : UInt32) (listed : List Element) :
    child.outline false ≠ .production ⟨.statementList, line, column, listed⟩ := by
  cases child with
  | token token => rintro ⟨⟩
  | production production =>
      intro heq
      have hrule := congrArg Production.rule (Element.production.inj heq)
      rw [Production.rule_outline] at hrule
      obtain ⟨rule, otherLine, otherColumn, others⟩ := production
      cases hrule
      exact h otherLine otherColumn others rfl

theorem statementElements_outline (children : List Element) :
    statementElements (children.map (Element.outline false)) =
      (statementElements children).map (Element.outline false) := by
  induction children using statementElements.induct with
  | case1 => rfl
  | case2 line column listed children ih =>
      -- punctuation is left out by the kind of a token, which an outline keeps
      have hlisted : (listed.map (Element.outline false)).filter (!·.isPunctuation) =
          (listed.filter (!·.isPunctuation)).map (Element.outline false) :=
        filter_map_outline (fun element => by rw [Element.isPunctuation_outline]) listed
      rw [List.map_cons, Element.outline, Production.outline_mk (by decide), statementElements,
        statementElements, hlisted, ih, List.map_append]
  | case3 child children hlist hchild ih =>
      have hother : ∀ line column listed,
          child.outline false ≠ .production ⟨.statementList, line, column, listed⟩ :=
        not_list_outline hlist
      rw [List.map_cons, statementElements, statementElements, if_pos hchild, if_pos, ih]
      · rwa [Element.isPunctuation_outline]
      · exact hlist
      · exact hother
  | case4 child children hlist hchild ih =>
      have hother : ∀ line column listed,
          child.outline false ≠ .production ⟨.statementList, line, column, listed⟩ :=
        not_list_outline hlist
      rw [List.map_cons, statementElements, statementElements, if_neg hchild, if_neg, ih,
        List.map_cons]
      · rwa [Element.isPunctuation_outline]
      · exact hlist
      · exact hother

/-- An element whose outline spells the outline of its statement. -/
def SpellsStatementOutline (element : Element) : Prop :=
  Stmt.ofElement unnamedFile (element.outline false) =
    outlineReading Stmt.outline (Stmt.ofElement file element)

variable {file}

theorem Block.ofProduction_outline_of_children {production : Production}
    (h : production.rule ≠ .typeSpecifier)
    (hchildren : ∀ child ∈ production.children, SpellsStatementOutline file child)
    (hbelow : ∀ list, .production list ∈ production.children →
      ∀ child ∈ list.children, SpellsStatementOutline file child) :
    Block.ofProduction unnamedFile (production.outline false) =
      outlineReading Block.outline (Block.ofProduction file production) := by
  rw [ofProduction, ofProduction, statementsOf_eq, statementsOf_eq,
    Production.children_outline h, statementElements_outline]
  have hspell : ∀ element ∈ statementElements production.children,
      SpellsStatementOutline file element := by
    intro element helement
    rcases mem_statementElements helement with hmem | ⟨list, hlist, hmem⟩
    · exact hchildren element hmem
    · exact hbelow list hlist element hmem
  refine outline_bind (outline_mapM hspell) fun statements => ?_
  cases production
  rw [← outlineStatements_eq]
  rfl

theorem Block.ofProduction_outline_of_statement {production : Production}
    (hrule : production.rule = .block) (h : SpellsStatementOutline file (.production production)) :
    Block.ofProduction unnamedFile (production.outline false) =
      outlineReading Block.outline (Block.ofProduction file production) := by
  rw [SpellsStatementOutline, Element.outline, Stmt.ofElement, Stmt.ofElement,
    Stmt.ofProduction_eq_block _ hrule,
    Stmt.ofProduction_eq_block _ ((production.rule_outline false).trans hrule)] at h
  -- the statement wraps the block, so the two blocks agree where the two statements do
  cases hread : Block.ofProduction unnamedFile (production.outline false) with
  | error malformation =>
      rw [hread] at h
      cases hother : Block.ofProduction file production with
      | error other =>
          rw [hother] at h
          exact congrArg Except.error (Except.error.inj h)
      | ok block =>
          rw [hother] at h
          cases h
  | ok outlined =>
      rw [hread] at h
      cases hother : Block.ofProduction file production with
      | error other =>
          rw [hother] at h
          cases h
      | ok block =>
          rw [hother] at h
          exact congrArg Except.ok (Stmt.block.inj (Except.ok.inj h))

theorem blocksOf_outline {children : List Element}
    (h : ∀ child ∈ children, SpellsStatementOutline file child) :
    blocksOf unnamedFile (children.map (Element.outline false)) =
      (blocksOf file children).map (outlineReading Block.outline) := by
  rw [blocksOf_eq, blocksOf_eq, Production.filterMap_production?_outline,
    filter_map_outline fun production => by rw [Production.rule_outline], List.map_map,
    List.map_map]
  apply List.map_congr_left
  intro block hblock
  obtain ⟨hmem, hrule⟩ := List.mem_filter.mp hblock
  exact Block.ofProduction_outline_of_statement (beq_iff_eq.mp hrule)
    (h _ (@mem_children_of_mem_productions ⟨.block, 0, 0, children⟩ block hmem))

theorem loopBody?_outline {children : List Element}
    (h : ∀ child ∈ children, SpellsStatementOutline file child) :
    loopBody? unnamedFile (children.map (Element.outline false)) =
      (loopBody? file children).map (outlineReading Stmt.outline) := by
  rw [loopBody?_eq, loopBody?_eq,
    filter_map_outline fun element => by rw [Element.isPunctuationOrKeyword_outline],
    List.getElem?_map]
  cases hbody : (children.filter (!·.isPunctuationOrKeyword))[1]? with
  | none => rfl
  | some body =>
      exact congrArg some (h body (List.mem_filter.mp (List.mem_of_getElem? hbody)).1)

theorem Stmt.ofProduction_outline (production : Production)
    (h : ∀ child ∈ production.children, SpellsStatementOutline file child)
    (hbelow : ∀ list, .production list ∈ production.children →
      ∀ child ∈ list.children, SpellsStatementOutline file child) :
    Stmt.ofProduction unnamedFile (production.outline false) =
      outlineReading Stmt.outline (Stmt.ofProduction file production) := by
  obtain ⟨rule, line, column, children⟩ := production
  have hexpression := Expr.ofElement_outline file (.production ⟨rule, line, column, children⟩)
  cases rule with
  | statement =>
      have hrule : Rule.statement ≠ .typeSpecifier := by decide
      rw [Production.outline_mk hrule, ofProduction, ofProduction, innerStatement?_eq,
        innerStatement?_eq, ← Production.outline_mk hrule line column children,
        Production.hasToken_outline hrule, Production.hasToken_outline hrule,
        Production.expressions_outline hrule, List.head?_map,
        find?_map_outline fun element => by rw [Element.isPunctuation_outline]]
      -- `return` and `break` are found by their texts, which stand in no type specifier
      by_cases hreturn : Production.hasToken ⟨.statement, line, column, children⟩ .keyword "return"
      · rw [if_pos hreturn, if_pos hreturn]
        exact outline_bind
          (outline_option_mapM fun element _ => Expr.ofElement_outline file element)
          fun value => rfl
      · rw [if_neg hreturn, if_neg hreturn]
        by_cases hbreak : Production.hasToken ⟨.statement, line, column, children⟩ .keyword "break"
        · rw [if_pos hbreak, if_pos hbreak]
          rfl
        · rw [if_neg hbreak, if_neg hbreak]
          cases hinner : children.find? (!·.isPunctuation) with
          | none => exact congrArg Except.error (malformed_outline file false _ _)
          | some inner => exact h inner (List.mem_of_find?_eq_some hinner)
  | ifStatement =>
      have hrule : Rule.ifStatement ≠ .typeSpecifier := by decide
      rw [Production.outline_mk hrule, ofProduction, ofProduction, blocksOf_outline h,
        ← Production.outline_mk hrule line column children,
        Production.expressions_outline hrule, List.head?_map]
      refine outline_bind (required_outline file false _ _ _) fun condition => ?_
      have hcondition := Expr.ofElement_outline file condition
      rcases blocksOf file children with
        _ | ⟨thenBlock, _ | ⟨elseBlock, _ | ⟨third, others⟩⟩⟩
      · exact congrArg Except.error (malformed_outline file false _ _)
      · exact outline_bind hcondition fun _ => outline_bind rfl fun _ => rfl
      · exact outline_bind hcondition fun _ =>
          outline_bind rfl fun _ => outline_bind rfl fun _ => rfl
      · simp only [List.map_cons, List.length_cons, List.length_map]
        exact congrArg Except.error (malformed_outline file false _ _)
  | whileStatement =>
      have hrule : Rule.whileStatement ≠ .typeSpecifier := by decide
      rw [Production.outline_mk hrule, ofProduction, ofProduction, loopBody?_outline h,
        find?_map_outline fun element => by rw [Element.isPunctuationOrKeyword_outline],
        option_filter_outline (Element.isExpression_outline false),
        ← Production.outline_mk hrule line column children]
      refine outline_bind (required_outline file false _ _ _) fun condition => ?_
      refine outline_bind (required_outline file false _ _ _) fun body => ?_
      have hcondition := Expr.ofElement_outline file condition
      exact outline_bind hcondition fun _ => outline_bind rfl fun _ => rfl
  | block =>
      rw [ofProduction_eq_block unnamedFile (Production.rule_outline false _),
        ofProduction_eq_block file rfl]
      have hrule : Rule.block ≠ .typeSpecifier := by decide
      exact outline_map (Block.ofProduction_outline_of_children hrule h hbelow) fun _ => rfl
  | localDeclaration =>
      have hrule : Rule.localDeclaration ≠ .typeSpecifier := by decide
      rw [Production.outline_mk hrule, ofProduction, ofProduction,
        ← Production.outline_mk hrule line column children]
      exact outline_map (Declaration.ofLocal_outline file hrule) fun _ => rfl
  | primaryExpression | parenExpression | binaryExpression | unaryExpression
  | assignExpression | callExpression =>
      exact outline_map hexpression fun _ => rfl
  | _ => rfl

variable (file)

/-- The outline of an element spells the outline of its statement. -/
theorem Stmt.ofElement_outline (element : Element) : SpellsStatementOutline file element := by
  induction element using Element.induction_below with
  | token token =>
      rw [SpellsStatementOutline, Element.outline, ofElement, ofElement]
      by_cases hexpression : token.isExpression
      · rw [if_pos hexpression, if_pos (show (token.outline false).isExpression from hexpression)]
        exact outline_map (Expr.ofToken_outline file token) fun _ => rfl
      · rw [if_neg hexpression, if_neg (show ¬ (token.outline false).isExpression from hexpression)]
        rfl
  | production production ih below => exact Stmt.ofProduction_outline production ih below

theorem Block.ofProduction_outline {production : Production}
    (h : production.rule ≠ .typeSpecifier) :
    Block.ofProduction unnamedFile (production.outline false) =
      outlineReading Block.outline (Block.ofProduction file production) :=
  Block.ofProduction_outline_of_children h (fun child _ => Stmt.ofElement_outline file child)
    fun _ _ child _ => Stmt.ofElement_outline file child

end Statements

/-! ## Files -/

section Files

variable (file : String) {production : Production}

theorem FunctionDefinition.ofProduction_outline (h : production.rule ≠ .typeSpecifier) :
    FunctionDefinition.ofProduction unnamedFile (production.outline false) =
      outlineReading FunctionDefinition.outline
        (FunctionDefinition.ofProduction file production) := by
  rw [ofProduction, ofProduction]
  refine outline_bind_of_ok (requiredChild_outline file h _) fun type htype => ?_
  refine outline_bind (typeText_outline file (rule_of_requiredChild file htype)) fun typeName => ?_
  refine outline_bind (requiredIdentifier_outline file h) fun name => ?_
  refine outline_bind_of_ok (requiredChild_outline file h _) fun block hblock => ?_
  refine outline_bind (parametersOf_outline file h) fun parameters => ?_
  have hrule : block.rule ≠ .typeSpecifier := by
    rw [rule_of_requiredChild file hblock]
    decide
  refine outline_bind (Block.ofProduction_outline file hrule) fun body => ?_
  cases production
  cases type
  rfl

theorem FunctionDeclaration.ofProduction_outline (h : production.rule ≠ .typeSpecifier) :
    FunctionDeclaration.ofProduction unnamedFile (production.outline false) =
      outlineReading FunctionDeclaration.outline
        (FunctionDeclaration.ofProduction file production) := by
  rw [ofProduction, ofProduction]
  refine outline_bind_of_ok (requiredChild_outline file h _) fun type htype => ?_
  refine outline_bind (typeText_outline file (rule_of_requiredChild file htype)) fun typeName => ?_
  refine outline_bind (requiredIdentifier_outline file h) fun name => ?_
  refine outline_bind (parametersOf_outline file h) fun parameters => ?_
  cases production
  rfl

theorem Item.ofProduction_outline (production : Production) :
    Item.ofProduction unnamedFile (production.outline false) =
      outlineReading Item.outline (Item.ofProduction file production) := by
  rw [ofProduction, ofProduction, Production.rule_outline]
  cases hrule : production.rule with
  | functionDefinition =>
      exact outline_map (FunctionDefinition.ofProduction_outline file (by rw [hrule]; decide))
        fun _ => rfl
  | functionDeclaration =>
      exact outline_map (FunctionDeclaration.ofProduction_outline file (by rw [hrule]; decide))
        fun _ => rfl
  | declaration =>
      -- the rule tells that the production is no type specifier, so its names are kept
      have hspecifier : production.rule ≠ .typeSpecifier := by
        rw [hrule]
        decide
      simp only [Production.child?_outline hspecifier]
      cases hchild : production.child? .functionDeclaration with
      | none => exact outline_map (Declaration.ofGlobal_outline file hspecifier) fun _ => rfl
      | some declared =>
          have hdeclared : declared.rule ≠ .typeSpecifier := by
            rw [(mem_parts_of_child? hchild).2]
            decide
          exact outline_map (FunctionDeclaration.ofProduction_outline file hdeclared) fun _ => rfl
  | _ => exact congrArg Except.error (malformed_outline file false production _)

/-- **The outline of a parse tree spells the outline of its program.**  Where the parse
tree spells no program the outline spells none either, for the same reason. -/
theorem CompileUnit.ofProduction_outline (production : Production) :
    CompileUnit.ofProduction unnamedFile (production.outline false) =
      outlineReading CompileUnit.outline (CompileUnit.ofProduction file production) := by
  rw [ofProduction, ofProduction, Production.rule_outline]
  by_cases hrule : production.rule = .compileUnit
  · rw [if_pos hrule, if_pos hrule,
      Production.productions_outline (by rw [hrule]; decide)]
    refine outline_bind (outline_mapM fun item _ => Item.ofProduction_outline file item)
      fun items => ?_
    cases production
    rfl
  · rw [if_neg hrule, if_neg hrule]
    exact congrArg Except.error (malformed_outline file false production _)

end Files

end MiniC
