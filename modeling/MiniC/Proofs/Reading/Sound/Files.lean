import MiniC.Proofs.Reading.Sound.Declarations

/-!
# Programs that are read are of the grammar

A tidy parse tree that is read spells the program that is read of it
(`CompileUnit.spells_of_ofProduction`).
-/

namespace MiniC

open ParseTree

variable {file : String}

/-! ## Statements -/

/-- Elements that are read as statements spell what is read of them. -/
def StatementsSpell (file : String) (elements : List Element) : Prop :=
  ∀ element ∈ elements, ∀ statement, Stmt.ofElement file element = .ok statement →
    SpellsStmt file element statement

theorem spellsStmts_of_mapM {elements : List Element} {statements : List Stmt}
    (hspell : StatementsSpell file elements)
    (h : elements.mapM (Stmt.ofElement file) = .ok statements) :
    SpellsStmts file elements statements := by
  induction elements generalizing statements with
  | nil =>
      obtain rfl := mapM_nil_eq_ok.mp h
      exact .nil
  | cons element elements ih =>
      obtain ⟨statement, others, hstatement, hothers, rfl⟩ := mapM_cons_eq_ok.mp h
      exact .cons (hspell element List.mem_cons_self statement hstatement)
        (ih (fun other hother => hspell other (List.mem_cons_of_mem _ hother)) hothers)

/-- The statements of a block stand in it or in a list in it. -/
theorem mem_statementElements {children : List Element} {element : Element}
    (h : element ∈ statementElements children) :
    element ∈ children ∨ ∃ list : Production, .production list ∈ children ∧
      element ∈ list.children := by
  induction children using statementElements.induct with
  | case1 => cases h
  | case2 line column listed children ih =>
      rw [statementElements, List.mem_append] at h
      rcases h with h | h
      · exact .inr ⟨_, List.mem_cons_self, (List.mem_filter.mp h).1⟩
      · rcases ih h with hmem | ⟨list, hlist, hmem⟩
        · exact .inl (List.mem_cons_of_mem _ hmem)
        · exact .inr ⟨list, List.mem_cons_of_mem _ hlist, hmem⟩
  | case3 child children hlist hchild ih =>
      rw [statementElements, if_pos hchild] at h
      · rcases ih h with hmem | ⟨list, hlist, hmem⟩
        · exact .inl (List.mem_cons_of_mem _ hmem)
        · exact .inr ⟨list, List.mem_cons_of_mem _ hlist, hmem⟩
      · exact hlist
  | case4 child children hlist hchild ih =>
      rw [statementElements, if_neg hchild] at h
      · rcases List.mem_cons.mp h with rfl | h
        · exact .inl List.mem_cons_self
        · rcases ih h with hmem | ⟨list, hlist, hmem⟩
          · exact .inl (List.mem_cons_of_mem _ hmem)
          · exact .inr ⟨list, List.mem_cons_of_mem _ hlist, hmem⟩
      · exact hlist

theorem spellsBlock_of_spells {production : Production} {block : Block}
    (hrule : production.rule = .block)
    (h : SpellsStmt file (.production production) (.block block)) :
    SpellsBlock file production block := by
  cases h with
  | block h => exact h
  | wrapper hstatement =>
      rw [hrule] at hstatement
      cases hstatement

/-- Elements that are all productions of a rule. -/
theorem eq_map_of_isOf {rule : Rule} {elements : List Element}
    (h : ∀ element ∈ elements, element.isOf rule) :
    elements = ((elements.filterMap Element.production?).filter (·.rule == rule)).map
      Element.production := by
  induction elements with
  | nil => rfl
  | cons element elements ih =>
      rw [List.forall_mem_cons] at h
      cases element with
      | token t => exact absurd h.1 (by simp [Element.isOf])
      | production p =>
          have hp : (p.rule == rule) = true := h.1
          have hproduction : (Element.production p).production? = some p := rfl
          simp only [List.filterMap_cons_some hproduction, List.filter_cons, hp, if_true,
            List.map_cons, ← ih h.2]

/-- The parts of a tidy `if`: the condition and the blocks. -/
theorem parts_of_if {production : Production} {condition : Element}
    (htidy : fits [Element.isExpression, Element.isOf .block, Element.isOf .block] production.parts)
    (h : production.expressions.head? = some condition) :
    production.parts = condition ::
      (production.productions.filter (·.rule == .block)).map Element.production := by
  obtain ⟨hmem, hexpression⟩ := mem_parts_of_head? h
  have hcondition : condition.isOf .block = false :=
    Element.not_isOf_of_isExpression hexpression rfl
  obtain ⟨first, others, hparts, hfirst, hothers⟩ := first_of_fits htidy hmem
    (by simp [hcondition])
  have hblocks : ∀ element ∈ others, element.isOf .block := by
    intro element helement
    obtain ⟨place, hplace, hisOf⟩ := exists_place_of_fits hothers helement
    obtain rfl : place = Element.isOf .block := by simpa using hplace
    exact hisOf
  obtain rfl : first = condition := by
    rw [Production.expressions_eq, hparts, List.filter_cons_of_pos hfirst] at h
    exact Option.some.inj h
  rw [Production.productions_eq, hparts, blocks_of_condition hfirst, ← eq_map_of_isOf hblocks]

section Productions

variable {production : Production} {statement : Stmt}

/-- Expressions among the children spell what is read of them. -/
theorem spells_of_child {part : Element} {expr : Expr} (htidy : production.tidy)
    (hmem : part ∈ production.children) (h : Expr.ofElement file part = .ok expr) :
    SpellsExpr file part expr :=
  Expr.spells_of_ofElement ((Production.tidy_iff.mp htidy).2 part hmem) h

/-- Blocks among the children spell what is read of them. -/
theorem spells_of_block {part : Production} {block : Block}
    (hspell : StatementsSpell file production.children)
    (hmem : part ∈ production.productions.filter (·.rule == .block))
    (h : Block.ofProduction file part = .ok block) : SpellsBlock file part block := by
  obtain ⟨hproductions, hrule⟩ := List.mem_filter.mp hmem
  have hrule : part.rule = .block := by simpa using hrule
  exact spellsBlock_of_spells hrule (hspell _ (mem_children_of_mem_productions hproductions) _
    ((Stmt.ofProduction_block hrule).mpr ⟨block, h, rfl⟩))

theorem Stmt.spells_of_return (hrule : production.rule = .statement) (htidy : production.tidy)
    (hreturn : production.hasToken .keyword "return")
    (h : Stmt.ofProduction file production = .ok statement) :
    SpellsStmt file (.production production) statement := by
  have hhere := (Production.tidy_iff.mp htidy).1
  simp only [Production.isTidy, hrule, if_pos hreturn] at hhere
  rw [ofProduction_statement hrule, if_pos hreturn] at h
  obtain ⟨value, hvalue, rfl⟩ := h
  have hparts := parts_eq_head? hhere
  rcases option_mapM_eq_ok.mp hvalue with ⟨hnone, rfl⟩ | ⟨part, expr, hpart, hread, rfl⟩
  · rw [hnone] at hparts
    exact .returnNone hrule hreturn hparts
  · have hmem := mem_children_of_mem_parts (mem_parts_of_head? hpart).1
    rw [hpart] at hparts
    exact .returnValue hrule hreturn hparts (spells_of_child htidy hmem hread)

/-- A statement without `return` is a `break`, or stands for the only thing in it. -/
theorem Stmt.spells_of_inner (hrule : production.rule = .statement) (htidy : production.isTidy)
    (hspell : StatementsSpell file production.children)
    (hreturn : production.hasToken .keyword "return" = false)
    (h : Stmt.ofProduction file production = .ok statement) :
    SpellsStmt file (.production production) statement := by
  have hnot : ¬ production.hasToken .keyword "return" := by simp [hreturn]
  simp only [Production.isTidy, hrule, if_neg hnot] at htidy
  rw [ofProduction_statement hrule, if_neg hnot] at h
  cases hbreak : production.hasToken .keyword "break" with
  | true =>
      rw [if_pos hbreak] at htidy h
      obtain rfl := h
      exact .breakLoop hrule hreturn hbreak (List.isEmpty_iff.mp htidy)
  | false =>
      rw [if_neg (by simp [hbreak])] at htidy h
      obtain ⟨inner, hinner, h⟩ := h
      have hmem := List.mem_of_find?_eq_some hinner
      rw [← List.head?_filter] at hinner
      exact .wrapper hrule hreturn hbreak (eq_singleton_of_head? hinner (by simpa using htidy))
        (hspell inner hmem statement h)

theorem Stmt.spells_of_if (hrule : production.rule = .ifStatement) (htidy : production.tidy)
    (hspell : StatementsSpell file production.children)
    (h : Stmt.ofProduction file production = .ok statement) :
    SpellsStmt file (.production production) statement := by
  have hhere := (Production.tidy_iff.mp htidy).1
  simp only [Production.isTidy, hrule, Bool.and_eq_true, decide_eq_true_eq] at hhere
  obtain ⟨condition, test, hcondition, htest, h⟩ := (ofProduction_if hrule).mp h
  have hparts := parts_of_if hhere.1 hcondition
  have hspells := spells_of_child htidy
    (mem_children_of_mem_parts (mem_parts_of_head? hcondition).1) htest
  rcases h with ⟨chosen, thenBlock, hfound, hthen, rfl⟩ |
    ⟨chosen, other, thenBlock, elseBlock, hfound, hthen, helse, rfl⟩
  · rw [hfound] at hparts
    exact .ifThen hrule hparts hhere.2 hspells (spells_of_block hspell (by simp [hfound]) hthen)
  · rw [hfound] at hparts
    exact .ifElse hrule hparts hhere.2 hspells (spells_of_block hspell (by simp [hfound]) hthen)
      (spells_of_block hspell (by simp [hfound]) helse)

theorem Stmt.spells_of_while (hrule : production.rule = .whileStatement)
    (htidy : production.tidy) (hspell : StatementsSpell file production.children)
    (h : Stmt.ofProduction file production = .ok statement) :
    SpellsStmt file (.production production) statement := by
  have hhere := (Production.tidy_iff.mp htidy).1
  simp only [Production.isTidy, hrule, decide_eq_true_eq] at hhere
  obtain ⟨condition, body, rest, test, repeated, hparts, -, htest, hrepeated, rfl⟩ :=
    (ofProduction_while hrule).mp h
  rw [hparts, List.length_cons, List.length_cons] at hhere
  obtain rfl := List.length_eq_zero_iff.mp (by omega : rest.length = 0)
  have hmem {part : Element} (hpart : part ∈ [condition, body]) : part ∈ production.children := by
    rw [← hparts] at hpart
    exact (List.mem_filter.mp hpart).1
  exact .whileLoop hrule hparts (spells_of_child htidy (hmem (by simp)) htest)
    (hspell body (hmem (by simp)) repeated hrepeated)

end Productions

/-- **A tidy statement that is read spells what is read of it.** -/
theorem Stmt.spells_of_ofElement {element : Element} {statement : Stmt} (htidy : element.tidy)
    (h : Stmt.ofElement file element = .ok statement) : SpellsStmt file element statement := by
  induction element using Element.induction_below generalizing statement with
  | token token =>
      rw [Stmt.ofElement] at h
      split at h
      next =>
        obtain ⟨expr, hexpr, rfl⟩ := reading_map_eq_ok.mp h
        exact .expression (Expr.spells_of_ofToken hexpr)
      next => cases h
  | production production ih ihbelow =>
      rw [Stmt.ofElement] at h
      obtain ⟨hhere, hchildren⟩ := Production.tidy_iff.mp htidy
      have hspell : StatementsSpell file production.children := fun part hmem other hread =>
        ih part hmem (hchildren part hmem) hread
      cases hproduction : production.rule with
      | statement =>
          cases hreturn : production.hasToken .keyword "return" with
          | true => exact spells_of_return hproduction htidy hreturn h
          | false => exact spells_of_inner hproduction hhere hspell hreturn h
      | ifStatement => exact spells_of_if hproduction htidy hspell h
      | whileStatement => exact spells_of_while hproduction htidy hspell h
      | block =>
          obtain ⟨block, hblock, rfl⟩ := (ofProduction_block hproduction).mp h
          obtain ⟨statements, hstatements, rfl⟩ := Block.ofProduction_eq_ok.mp hblock
          refine .block (.block hproduction (spellsStmts_of_mapM ?_ hstatements))
          intro element helement statement hread
          rcases mem_statementElements helement with hmem | ⟨list, hlist, hmem⟩
          · exact hspell element hmem statement hread
          · exact ihbelow list hlist element hmem
              ((Production.tidy_iff.mp (hchildren _ hlist)).2 element hmem) hread
      | localDeclaration =>
          obtain ⟨declared, hdeclared, rfl⟩ := (ofProduction_local hproduction).mp h
          exact .declaration (Declaration.spells_of_ofLocal hproduction htidy hdeclared)
      | primaryExpression | parenExpression | binaryExpression | unaryExpression
      | assignExpression | callExpression =>
          obtain ⟨expr, hread, rfl⟩ :=
            (ofProduction_expression (by rw [hproduction]; rfl)).mp h
          exact .expression (Expr.spells_of_ofElement htidy hread)
      | _ =>
          -- productions of the other rules are no statements
          obtain ⟨rule, line, column, children⟩ := production
          cases hproduction
          cases h

/-! ## Files -/

theorem FunctionDeclaration.spells_of_ofProduction {production : Production}
    {declared : FunctionDeclaration} (hrule : production.rule = .functionDeclaration)
    (htidy : production.tidy)
    (h : FunctionDeclaration.ofProduction file production = .ok declared) :
    SpellsFunction file production declared := by
  have hhere := (Production.tidy_iff.mp htidy).1
  simp only [Production.isTidy, hrule] at hhere
  obtain ⟨type, typeName, name, parameters, htype, htypeName, hname, hparameters, rfl⟩ :=
    FunctionDeclaration.ofProduction_eq_ok.mp h
  obtain ⟨hmem, htypeRule⟩ := mem_parts_of_child? htype
  obtain ⟨others, hparts, hothers⟩ := declarator_of_fits [.fargs] (by simp) hhere
    ((Production.child?_eq production _).symm.trans htype)
    ((Production.firstToken?_identifier production).symm.trans hname)
  have hlist : production.child? .fargs =
      (others.filterMap Element.production?).find? (·.rule == .fargs) := by
    simp [Production.child?_eq, hparts, Element.production?, htypeRule]
  refine .function hrule ?_
    (spellsType_of_typeText htypeRule (Production.tidy_of_mem_parts htidy hmem) htypeName)
    (kind_of_firstToken? hname) (spells_of_parametersOf htidy hparameters)
  rw [hparts, hlist]
  exact congrArg _ (congrArg _ (eq_of_fits_isOf hothers))

/-- After the name of a function its list of parameters, if it has one, and its body. -/
theorem list_and_body_of_fits {elements : List Element} {body : Production}
    (h : fits [Element.isOf .fargs, Element.isOf .block] elements)
    (hbody : (elements.filterMap Element.production?).find? (·.rule == .block) = some body) :
    elements = ((elements.filterMap Element.production?).find? (·.rule == .fargs)).toList.map
      Element.production ++ [.production body] := by
  obtain ⟨others, helements, hothers⟩ :=
    optional_of_fits (by simp +contextual [Element.isOf]) h
  generalize hlist : (elements.filterMap Element.production?).find? (·.rule == .fargs) = list
    at helements
  -- a list of parameters is no block, so the block that is found is after it
  have hnone : ((list.toList.map Element.production).filterMap Element.production?).find?
      (·.rule == .block) = none := by
    cases list with
    | none => rfl
    | some p =>
        have hrule : p.rule = .fargs := by simpa using List.find?_some hlist
        simp [Element.production?, hrule]
  rw [helements, List.filterMap_append, List.find?_append, hnone, Option.none_or] at hbody
  rw [helements, eq_of_fits_isOf hothers, hbody]
  rfl

theorem FunctionDefinition.spells_of_ofProduction {production : Production}
    {definition : FunctionDefinition} (hrule : production.rule = .functionDefinition)
    (htidy : production.tidy)
    (h : FunctionDefinition.ofProduction file production = .ok definition) :
    SpellsItem file production (.function definition) := by
  have hhere := (Production.tidy_iff.mp htidy).1
  simp only [Production.isTidy, hrule] at hhere
  obtain ⟨type, typeName, name, body, parameters, block, htype, htypeName, hname, hbody,
    hparameters, hblock, rfl⟩ := FunctionDefinition.ofProduction_eq_ok.mp h
  obtain ⟨hmem, htypeRule⟩ := mem_parts_of_child? htype
  obtain ⟨hbodyMem, hbodyRule⟩ := mem_parts_of_child? hbody
  obtain ⟨others, hparts, hothers⟩ := declarator_of_fits [.fargs, .block] (by simp) hhere
    ((Production.child?_eq production _).symm.trans htype)
    ((Production.firstToken?_identifier production).symm.trans hname)
  have hchild {rule : Rule} (hne : rule ≠ .typeSpecifier) : production.child? rule =
      (others.filterMap Element.production?).find? (·.rule == rule) := by
    simp [Production.child?_eq, hparts, Element.production?, htypeRule, hne.symm]
  rw [hchild (by decide)] at hbody
  have htail := list_and_body_of_fits hothers hbody
  rw [htail, ← hchild (by decide)] at hparts
  have hbodySpells : SpellsBlock file body block :=
    spellsBlock_of_spells hbodyRule
      (Stmt.spells_of_ofElement (Production.tidy_of_mem_parts htidy hbodyMem)
        ((Stmt.ofProduction_block hbodyRule).mpr ⟨block, hblock, rfl⟩))
  exact .function hrule hparts
    (spellsType_of_typeText htypeRule (Production.tidy_of_mem_parts htidy hmem) htypeName)
    (kind_of_firstToken? hname) (spells_of_parametersOf htidy hparameters) hbodySpells

theorem Item.spells_of_ofProduction {production : Production} {item : Item}
    (htidy : production.tidy) (h : Item.ofProduction file production = .ok item) :
    SpellsItem file production item := by
  rcases Item.ofProduction_eq_ok.mp h with ⟨hrule, definition, hdefinition, rfl⟩ |
    ⟨hrule, declared, hdeclared, rfl⟩ | ⟨hrule, h⟩
  · exact FunctionDefinition.spells_of_ofProduction hrule htidy hdefinition
  · exact .external (FunctionDeclaration.spells_of_ofProduction hrule htidy hdeclared)
  · rcases h with ⟨inner, declared, hinner, hdeclared, rfl⟩ | ⟨hnone, declared, hdeclared, rfl⟩
    · obtain ⟨hmem, hinnerRule⟩ := mem_parts_of_child? hinner
      have hhere := (Production.tidy_iff.mp htidy).1
      simp only [Production.isTidy, hrule, Bool.or_eq_true] at hhere
      have hparts : production.parts = [.production inner] := by
        -- the shape with a type and a name has no place for the function that is found
        rcases hhere with hwrapper | hfits
        · rw [eq_of_fits_isOf hwrapper, ← Production.child?_eq, hinner]
          rfl
        · obtain ⟨place, hplace, hfilled⟩ := exists_place_of_fits hfits hmem
          simp only [List.mem_cons, List.not_mem_nil, or_false] at hplace
          rcases hplace with rfl | rfl | rfl <;>
            simp [Element.isOf, Element.isName, hinnerRule] at hfilled
      exact .wrapper hrule hparts (FunctionDeclaration.spells_of_ofProduction hinnerRule
        (Production.tidy_of_mem_parts htidy hmem) hdeclared)
    · exact .global (Declaration.spells_of_ofGlobal hrule htidy hnone hdeclared)

theorem spellsItems_of_mapM {productions : List Production} {items : List Item}
    (htidy : ∀ production ∈ productions, production.tidy)
    (h : productions.mapM (Item.ofProduction file) = .ok items) :
    SpellsItems file productions items := by
  induction productions generalizing items with
  | nil =>
      obtain rfl := mapM_nil_eq_ok.mp h
      exact .nil
  | cons production productions ih =>
      rw [List.forall_mem_cons] at htidy
      obtain ⟨item, others, hitem, hothers, rfl⟩ := mapM_cons_eq_ok.mp h
      exact .cons (Item.spells_of_ofProduction htidy.1 hitem) (ih htidy.2 hothers)

/-- **A tidy parse tree that is read spells the program that is read of it.** -/
theorem CompileUnit.spells_of_ofProduction {production : Production} {unit : CompileUnit}
    (htidy : production.tidy) (h : CompileUnit.ofProduction file production = .ok unit) :
    SpellsUnit file production unit := by
  obtain ⟨hrule, items, hitems, rfl⟩ := CompileUnit.ofProduction_eq_ok.mp h
  refine .unit hrule (spellsItems_of_mapM (fun child hchild => ?_) hitems)
  exact (Production.tidy_iff.mp htidy).2 _ (mem_children_of_mem_productions hchild)

end MiniC
