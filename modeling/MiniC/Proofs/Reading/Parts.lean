import MiniC.Program.OfParseTree

/-!
# How a production is read

A program is read from a parse tree by recursion on the tree, child by child.  The
equations here say what is read of a production in terms of its lists of children: of all
expressions among them, of the first production of a rule, of what is left without
punctuation.

A token of punctuation, a keyword or an operator is a symbol (`Element.isSymbol`), and
the other children are the parts of a production (`Production.parts`).  Expressions,
productions and names are parts, so that looking for one of them is looking among the
parts.
-/

namespace MiniC

namespace ParseTree

/-- Whether productions of a rule stand for the expression in them. -/
def Rule.isWrapper : Rule → Bool
  | primaryExpression | parenExpression => true
  | _ => false

/-- Whether an element is a production of a rule. -/
def Element.isOf (rule : Rule) : Element → Bool
  | .token _ => false
  | .production p => p.rule == rule

/-- Whether an element is a token of punctuation, a keyword or an operator. -/
def Element.isSymbol : Element → Bool
  | .token t => t.kind == .punctuation || t.kind == .keyword || t.kind == .operator
  | .production _ => false

/-- The elements that are no symbols. -/
def partsOf (elements : List Element) : List Element := elements.filter (!·.isSymbol)

/-- The children of a production that are no symbols. -/
def Production.parts (production : Production) : List Element := partsOf production.children

/-- Whether an element is a name. -/
def Element.isName : Element → Bool
  | .token t => t.kind == .identifier
  | .production _ => false

/-- Whether a token can name a type. -/
def Token.isTypeWord (token : Token) : Bool :=
  token.kind == .typeName || token.kind == .keyword || token.kind == .identifier

/-- Whether an element is a comma in a list of parameters.  A name is none. -/
def Element.isComma : Element → Bool
  | .token t => t.kind != .identifier && t.text == ","
  | .production _ => false

theorem Rule.isExpression_of_isWrapper {rule : Rule} (h : rule.isWrapper) : rule.isExpression := by
  cases rule with
  | primaryExpression | parenExpression => rfl
  | _ => cases h

/-- An expression is no production of another rule. -/
theorem Element.not_isOf_of_isExpression {element : Element} {rule : Rule}
    (h : element.isExpression) (hrule : rule.isExpression = false) : element.isOf rule = false := by
  cases element with
  | token t => rfl
  | production p =>
      rw [isOf, beq_eq_false_iff_ne]
      rintro rfl
      exact absurd (show p.rule.isExpression from h) (by simp [hrule])

theorem Element.not_isSymbol_of_isExpression {element : Element} (h : element.isExpression) :
    element.isSymbol = false := by
  cases element with
  | production => rfl
  | token t =>
      obtain ⟨kind, text, line, column⟩ := t
      cases kind <;> first | rfl | cases h

@[simp] theorem partsOf_nil : partsOf [] = [] := rfl

@[simp] theorem partsOf_append (front back : List Element) :
    partsOf (front ++ back) = partsOf front ++ partsOf back :=
  List.filter_append ..

theorem mem_children_of_mem_parts {production : Production} {element : Element}
    (h : element ∈ production.parts) : element ∈ production.children :=
  (List.mem_filter.mp h).1

/-- Induction on a parse tree, over the children of its productions. -/
theorem Element.induction {motive : Element → Prop} (token : ∀ t, motive (.token t))
    (production : ∀ p : Production, (∀ child ∈ p.children, motive child) → motive (.production p)) :
    ∀ element, motive element
  | .token t => token t
  | .production ⟨rule, line, column, children⟩ =>
      production _ fun child _ => induction token production child

/-- Induction on a parse tree, over the children of its productions and the children of
these. -/
theorem Element.induction_below {motive : Element → Prop} (token : ∀ t, motive (.token t))
    (production : ∀ p : Production, (∀ child ∈ p.children, motive child) →
      (∀ q, .production q ∈ p.children → ∀ child ∈ q.children, motive child) →
      motive (.production p)) (element : Element) : motive element := by
  -- the induction carries the children along, so that those below a child are known as well
  have h : motive element ∧ ∀ q, element = .production q → ∀ child ∈ q.children, motive child := by
    induction element using Element.induction with
    | token t => exact ⟨token t, by rintro q ⟨⟩⟩
    | production p ih =>
        have hchildren : ∀ child ∈ p.children, motive child := fun child hchild =>
          (ih child hchild).1
        refine ⟨production p hchildren fun q hq => (ih _ hq).2 q rfl, ?_⟩
        rintro q ⟨⟩
        exact hchildren
  exact h.1

/-- What holds of no symbol is looked for among the parts. -/
theorem filter_partsOf {test : Element → Bool}
    (htest : ∀ element, test element → element.isSymbol = false) (elements : List Element) :
    (partsOf elements).filter test = elements.filter test := by
  rw [partsOf, List.filter_filter]
  congr 1
  funext element
  cases hsymbol : test element with
  | false => rfl
  | true => simp [htest element hsymbol]

namespace Production

variable (production : Production)

theorem expressions_eq : production.expressions = production.parts.filter Element.isExpression :=
  (filter_partsOf (fun _ h => Element.not_isSymbol_of_isExpression h) _).symm

/-- Parts that are all expressions are the expressions of a production. -/
theorem expressions_eq_parts {production : Production}
    (h : ∀ element ∈ production.parts, element.isExpression) :
    production.expressions = production.parts := by
  rw [expressions_eq, List.filter_eq_self.mpr h]

theorem productions_eq :
    production.productions = production.parts.filterMap Element.production? := by
  rw [productions, parts, partsOf, List.filterMap_filter]
  congr 1
  funext element
  cases element with
  | token t => simp [Element.production?]
  | production p => rfl

/-- A name is looked for among the parts. -/
theorem firstToken?_identifier :
    production.firstToken? .identifier =
      (production.parts.find? Element.isName).bind Element.token? := by
  rw [firstToken?, tokens, parts, partsOf]
  generalize production.children = children
  induction children with
  | nil => rfl
  | cons child children ih =>
      cases child with
      | production p => simpa [Element.token?, Element.isSymbol, Element.isName] using ih
      | token t =>
          obtain ⟨kind, text, line, column⟩ := t
          cases kind <;> simp [Element.token?, Element.isSymbol, Element.isName, ih]

theorem child?_eq (rule : Rule) :
    production.child? rule =
      (production.parts.filterMap Element.production?).find? (·.rule == rule) := by
  rw [child?, productions_eq]

end Production

end ParseTree

open ParseTree

variable (file : String)

/-! ## Expressions -/

theorem operandsOf_eq (children : List Element) :
    operandsOf file children =
      (children.filter Element.isExpression).map (Expr.ofElement file) := by
  induction children with
  | nil => rfl
  | cons child children ih =>
      rw [operandsOf, ih]
      by_cases hchild : child.isExpression
      · rw [if_pos hchild, List.filter_cons_of_pos hchild, List.map_cons]
      · rw [if_neg hchild, List.filter_cons_of_neg hchild]

/-- The operands that are read in a production are its expressions. -/
theorem operandsOf_children (rule : Rule) (line column : UInt32) (children : List Element) :
    operandsOf file children =
      (⟨rule, line, column, children⟩ : Production).expressions.map (Expr.ofElement file) :=
  operandsOf_eq file children

theorem innerTokenOfFirst?_eq (children : List Element) :
    innerTokenOfFirst? children = (children.find? Element.isExpression).bind innerToken? := by
  induction children with
  | nil => rfl
  | cons child children ih =>
      rw [innerTokenOfFirst?, ih]
      by_cases hchild : child.isExpression
      · rw [if_pos hchild, List.find?_cons_of_pos hchild, Option.bind_some]
      · rw [if_neg hchild, List.find?_cons_of_neg hchild]

theorem argumentsOf?_eq (children : List Element) :
    argumentsOf? file children =
      ((children.filterMap Element.production?).find? (·.rule == .args)).map fun list =>
        (list.location file, list.expressions.map (Expr.ofElement file)) := by
  induction children with
  | nil => rfl
  | cons child children ih =>
      cases child with
      | token t =>
          rw [argumentsOf?, ih]
          · rfl
          · rintro line column children ⟨⟩
      | production p =>
          obtain ⟨rule, line, column, listed⟩ := p
          by_cases hrule : rule = .args
          · subst hrule
            rw [argumentsOf?, operandsOf_eq]
            rfl
          · rw [argumentsOf?, ih]
            · simp [Element.production?, hrule]
            · rintro otherLine otherColumn others ⟨⟩
              exact hrule rfl

/-! ## Statements -/

theorem Block.ofProduction_eq (production : Production) :
    Block.ofProduction file production =
      (statementsOf file production.children).map fun statements =>
        ⟨production.location file, statements⟩ := by
  rw [Block.ofProduction]
  cases statementsOf file production.children <;> rfl

/-- A block is read in the same way as a statement and as a block. -/
theorem Stmt.ofProduction_eq_block (file : String) {production : Production}
    (h : production.rule = .block) :
    Stmt.ofProduction file production = Stmt.block <$> Block.ofProduction file production := by
  obtain ⟨rule, line, column, children⟩ := production
  cases h
  rw [Stmt.ofProduction, Block.ofProduction]
  cases statementsOf file children <;> rfl

theorem blocksOf_eq (children : List Element) :
    blocksOf file children =
      ((children.filterMap Element.production?).filter (·.rule == .block)).map
        (Block.ofProduction file) := by
  induction children with
  | nil => rfl
  | cons child children ih =>
      cases child with
      | token t =>
          rw [blocksOf, ih]
          · rfl
          · rintro line column children ⟨⟩
      | production p =>
          obtain ⟨rule, line, column, listed⟩ := p
          by_cases hrule : rule = .block
          · subst hrule
            have hblock : Element.production? (.production ⟨.block, line, column, listed⟩) =
                some ⟨.block, line, column, listed⟩ := rfl
            rw [blocksOf, ih, List.filterMap_cons_some hblock, List.filter_cons_of_pos rfl,
              List.map_cons, Block.ofProduction_eq]
            rfl
          · rw [blocksOf, ih]
            · simp [Element.production?, hrule]
            · rintro otherLine otherColumn others ⟨⟩
              exact hrule rfl

/-- An expression is no production of another rule among elements. -/
theorem productionsOf_cons_of_isExpression {element : Element} {rule : Rule}
    (h : element.isExpression) (hrule : rule.isExpression = false) (others : List Element) :
    ((element :: others).filterMap Element.production?).filter (·.rule == rule) =
      (others.filterMap Element.production?).filter (·.rule == rule) := by
  cases element with
  | token token => rfl
  | production production =>
      have hother : (production.rule == rule) = false := Element.not_isOf_of_isExpression h hrule
      have hfirst : (Element.production production).production? = some production := rfl
      rw [List.filterMap_cons_some hfirst, List.filter_cons_of_neg (by simp [hother])]

/-- A condition is none of the blocks after it. -/
theorem blocks_of_condition {condition : Element} (h : condition.isExpression)
    (others : List Element) :
    ((condition :: others).filterMap Element.production?).filter (·.rule == .block) =
      (others.filterMap Element.production?).filter (·.rule == .block) :=
  productionsOf_cons_of_isExpression h rfl others

theorem innerStatement?_eq (children : List Element) :
    innerStatement? file children =
      (children.find? (!·.isPunctuation)).map (Stmt.ofElement file) := by
  induction children with
  | nil => rfl
  | cons child children ih =>
      rw [innerStatement?, ih]
      cases hchild : child.isPunctuation <;> simp [hchild]

theorem firstPart?_eq (children : List Element) :
    firstPart? file children =
      (children.find? (!·.isPunctuationOrKeyword)).map (Stmt.ofElement file) := by
  induction children with
  | nil => rfl
  | cons child children ih =>
      rw [firstPart?, ih]
      cases hchild : child.isPunctuationOrKeyword <;> simp [hchild]

theorem loopBody?_eq (children : List Element) :
    loopBody? file children =
      (children.filter (!·.isPunctuationOrKeyword))[1]?.map (Stmt.ofElement file) := by
  induction children with
  | nil => rfl
  | cons child children ih =>
      rw [loopBody?, ih, firstPart?_eq]
      cases hchild : child.isPunctuationOrKeyword with
      | true => simp [hchild]
      | false => simp [hchild, ← List.head?_filter, List.head?_eq_getElem?]

theorem listedStatements_eq (children : List Element) :
    listedStatements file children =
      (children.filter (!·.isPunctuation)).mapM (Stmt.ofElement file) := by
  induction children with
  | nil => rfl
  | cons child children ih =>
      rw [listedStatements, ih]
      cases hchild : child.isPunctuation with
      | true => simp [hchild]
      | false => simp [hchild, List.mapM_cons]

/-- The statements that elements stand for: those of statement lists, and the others that are no
punctuation. -/
def statementElements : List Element → List Element
  | [] => []
  | .production ⟨.statementList, _, _, listed⟩ :: children =>
      listed.filter (!·.isPunctuation) ++ statementElements children
  | child :: children =>
      if child.isPunctuation then statementElements children
      else child :: statementElements children

theorem statementsOf_eq (children : List Element) :
    statementsOf file children = (statementElements children).mapM (Stmt.ofElement file) := by
  induction children using statementElements.induct with
  | case1 => rfl
  | case2 line column listed children ih =>
      rw [statementsOf, statementElements, listedStatements_eq, ih, List.mapM_append]
  | case3 child children hlist hchild ih =>
      rw [statementsOf, statementElements, if_pos hchild, if_pos hchild, ih] <;> exact hlist
  | case4 child children hlist hchild ih =>
      rw [statementsOf, statementElements, if_neg hchild, if_neg hchild, ih, List.mapM_cons]
        <;> exact hlist

end MiniC
