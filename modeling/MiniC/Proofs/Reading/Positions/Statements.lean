import MiniC.Proofs.Reading.Positions.Expressions

/-!
# Values in statements

Each production of a statement is read from what stands in its gap, if it takes an expression, a
statement or a block there (`Gap.Takes`): the condition of a loop, its body, a branch, an initial
value, the statements of a block.
-/

namespace MiniC

open ParseTree
open Ast (Tree)

namespace ParseTree

/-- An element that is read as a statement in a block. -/
structure Element.IsStatement (element : Element) : Prop where
  isSymbol_eq : element.isSymbol = false
  isOf_eq : element.isOf .statementList = false

theorem Element.IsValue.isStatement {element : Element} (h : element.IsValue) :
    element.IsStatement :=
  ⟨Element.not_isSymbol_of_isExpression h.isExpression,
    Element.not_isOf_of_isExpression h.isExpression rfl⟩

namespace Gap

variable {gap : Gap} {element : Element}

/-- Keywords are looked for outside the gap. -/
theorem hasToken_fill (h : element.isSymbol = false) (text : String) :
    (gap.fill element).hasToken .keyword text = gap.empty.hasToken .keyword text := by
  have hany : ∀ production : Production, production.hasToken .keyword text =
      (production.tokens.find? (·.is .keyword text)).isSome := by
    intro production
    rw [Production.hasToken, Bool.eq_iff_iff, List.find?_isSome, List.any_eq_true]
  rw [hany, hany]
  refine congrArg Option.isSome (find?_tokens_fill ?_)
  rintro ⟨kind, _, _, _⟩ rfl
  cases kind <;> first | rfl | cases h

/-- Blocks are looked for outside the gap. -/
theorem blocksOf_fill (file : String) (h : element.isExpression) :
    blocksOf file (gap.fill element).children = blocksOf file gap.empty.children := by
  rw [blocksOf_eq, blocksOf_eq, fill, empty, List.filterMap_append, List.filter_append,
    blocks_of_condition h, ← List.filter_append, ← List.filterMap_append]

end Gap

end ParseTree

section Statements

variable {file : String} {gap : Gap}

/-! ## Statements that are wrapped or returned -/

theorem Stmt.ofProduction_statement_eq {production : Production}
    (hrule : production.rule = .statement) :
    Stmt.ofProduction file production =
      if production.hasToken .keyword "return" then
        Stmt.returnValue (production.location file) <$>
          production.expressions.head?.mapM (Expr.ofElement file)
      else if production.hasToken .keyword "break" then
        .ok (.breakLoop (production.location file))
      else
        match innerStatement? file production.children with
        | some inner => inner
        | none => .error (production.malformed file .emptyStatement) := by
  obtain ⟨rule, line, column, children⟩ := production
  cases hrule
  rw [ofProduction]
  split
  · cases (Production.expressions ⟨.statement, line, column, children⟩).head?.mapM
      (Expr.ofElement file) <;> rfl
  · rfl

theorem depends_returned (hrule : gap.rule = .statement)
    (hreturn : gap.empty.hasToken .keyword "return" = true)
    (hfirst : gap.front.any Element.isExpression = false) :
    Depends gap.Admits (Expr.ofElement file)
      (fun element => Stmt.ofProduction file (gap.fill element))
      (Role.Keeps .expression .statement) := by
  have heq : ∀ element, gap.Admits element → Stmt.ofProduction file (gap.fill element) =
      (fun value => .returnValue (gap.empty.location file) (some value)) <$>
        Expr.ofElement file element := by
    intro element helement
    have hvalue := helement.1.isExpression
    rw [Stmt.ofProduction_statement_eq hrule,
      Gap.hasToken_fill (Element.not_isSymbol_of_isExpression hvalue), if_pos hreturn,
      Gap.head?_expressions_fill hvalue hfirst, Option.mapM_some]
    cases Expr.ofElement file element <;> rfl
  refine .of_eq ?_ heq
  intro found tree htree
  exact htree.node_first (List.Subset.refl _)

theorem depends_wrapped (hrule : gap.rule = .statement)
    (hreturn : gap.empty.hasToken .keyword "return" = false)
    (hbreak : gap.empty.hasToken .keyword "break" = false)
    (hfirst : gap.front.all Element.isPunctuation = true) :
    Depends Element.IsStatement (Stmt.ofElement file)
      (fun element => Stmt.ofProduction file (gap.fill element))
      (Role.Keeps .statement .statement) := by
  refine .of_eq (Role.keeps_id .statement) ?_
  intro element helement
  have hfront : gap.front.find? (!·.isPunctuation) = none := by
    rw [List.find?_eq_none]
    intro other hother
    simp [List.all_eq_true.mp hfirst other hother]
  have hinner : innerStatement? file (gap.fill element).children =
      some (Stmt.ofElement file element) := by
    rw [innerStatement?_eq, Gap.fill, List.find?_append, hfront, List.find?_cons_of_pos
      (by simp [Element.isPunctuation_of_isSymbol helement.isSymbol_eq])]
    rfl
  rw [Stmt.ofProduction_statement_eq hrule, Gap.hasToken_fill helement.isSymbol_eq,
    Gap.hasToken_fill helement.isSymbol_eq, hreturn, hbreak, hinner, id_map]
  rfl

/-! ## Conditions and branches -/

/-- What a condition is read as with the blocks of a production. -/
def branchesOf (file : String) (production : Production) (condition : Reading Expr)
    (blocks : List (Reading Block)) : Reading Stmt :=
  match blocks with
  | [thenBlock] => do
      return .ifElse (production.location file) (← condition) (← thenBlock) none
  | [thenBlock, elseBlock] => do
      return .ifElse (production.location file) (← condition) (← thenBlock) (some (← elseBlock))
  | others => .error (production.malformed file (.blockCount others.length))

theorem Stmt.ofProduction_if_eq {production : Production} (hrule : production.rule = .ifStatement) :
    Stmt.ofProduction file production =
      production.required file "condition expression" production.expressions.head? >>=
        fun condition => branchesOf file production (Expr.ofElement file condition)
          (blocksOf file production.children) := by
  obtain ⟨rule, line, column, children⟩ := production
  cases hrule
  rw [ofProduction]
  rfl

theorem exists_branchesOf_eq_error {blocks : List (Reading Block)}
    (h : blocks.length ≠ 1 ∧ blocks.length ≠ 2) (production : Production)
    (condition : Reading Expr) :
    ∃ malformation, branchesOf file production condition blocks = .error malformation := by
  rcases blocks with _ | ⟨thenBlock, _ | ⟨elseBlock, _ | ⟨third, others⟩⟩⟩
  · exact ⟨_, rfl⟩
  · exact absurd rfl h.1
  · exact absurd rfl h.2
  · exact ⟨_, rfl⟩

theorem depends_tested (hrule : gap.rule = .ifStatement)
    (hfirst : gap.front.any Element.isExpression = false) :
    Depends gap.Admits (Expr.ofElement file)
      (fun element => Stmt.ofProduction file (gap.fill element))
      (Role.Keeps .expression .statement) := by
  have heq : ∀ element, gap.Admits element → Stmt.ofProduction file (gap.fill element) =
      branchesOf file gap.empty (Expr.ofElement file element)
        (blocksOf file gap.empty.children) := by
    intro element helement
    have hvalue := helement.1.isExpression
    rw [Stmt.ofProduction_if_eq hrule, Gap.head?_expressions_fill hvalue hfirst,
      Gap.blocksOf_fill file hvalue]
    rfl
  refine .congr heq ?_
  rcases blocksOf file gap.empty.children with
    _ | ⟨thenBlock, _ | ⟨elseBlock, _ | ⟨third, others⟩⟩⟩
  · exact .of_error _ fun _ _ => rfl
  · refine .before ?_
    intro chosen found tree htree
    exact htree.node_first (List.Subset.refl _)
  -- the condition comes before both blocks, which do not depend on it
  · have hblocks : ∀ condition : Reading Expr,
        branchesOf file gap.empty condition [thenBlock, elseBlock] = condition >>= fun test =>
          (thenBlock >>= fun chosen => elseBlock >>= fun other => pure (chosen, other)) >>=
            fun blocks =>
              pure (.ifElse (gap.empty.location file) test blocks.1 (some blocks.2)) := by
      intro condition
      cases condition with
      | error malformation => rfl
      | ok test =>
          cases thenBlock with
          | error malformation => rfl
          | ok chosen => cases elseBlock <;> rfl
    refine .congr (fun element _ => hblocks (Expr.ofElement file element)) (.before ?_)
    intro blocks found tree htree
    exact htree.node_first (List.Subset.refl _)
  · exact .of_error _ fun _ _ => rfl

theorem depends_chosen (hrule : gap.rule = .ifStatement) :
    Depends (·.rule = .block) (Block.ofProduction file)
      (fun block => Stmt.ofProduction file (gap.fill (.production block)))
      (Role.Keeps .block .statement) := by
  have heq : ∀ block : Production, block.rule = .block →
      Stmt.ofProduction file (gap.fill (.production block)) =
        gap.empty.required file "condition expression" gap.empty.expressions.head? >>=
          fun condition => branchesOf file gap.empty (Expr.ofElement file condition)
            (blocksOf file gap.front ++
              Block.ofProduction file block :: blocksOf file gap.back) := by
    intro block hblock
    have hexpressions : (gap.fill (.production block)).expressions = gap.empty.expressions := by
      rw [Production.expressions, Production.expressions, Gap.fill, Gap.empty, List.filter_append,
        List.filter_append, List.filter_cons_of_neg (by simp [Element.isExpression, hblock,
          Rule.isExpression])]
    have hblocks : blocksOf file (gap.fill (.production block)).children =
        blocksOf file gap.front ++ Block.ofProduction file block :: blocksOf file gap.back := by
      rw [blocksOf_eq, blocksOf_eq, blocksOf_eq, Gap.fill, List.filterMap_append,
        List.filterMap_cons_some (by rfl), List.filter_append,
        List.filter_cons_of_pos (by simp [hblock]), List.map_append, List.map_cons]
    rw [Stmt.ofProduction_if_eq hrule, hexpressions, hblocks]
    rfl
  refine .congr heq (.required fun condition _ => ?_)
  -- the block in the gap is the only one, the first of two or the second; more are refused
  rcases blocksOf file gap.front with _ | ⟨thenBlock, _ | ⟨second, blocks⟩⟩ <;>
    rcases blocksOf file gap.back with _ | ⟨elseBlock, _ | ⟨third, others⟩⟩
  case nil.nil =>
    refine .bind fun test _ => .of_eq ?_ fun _ _ => rfl
    intro found tree htree
    exact htree.node_second (List.Subset.refl _)
  case nil.cons.nil =>
    refine .bind fun test _ => .before fun other found tree htree => ?_
    exact htree.node_second (List.Subset.refl _)
  case cons.nil.nil =>
    refine .bind fun test _ => .bind fun chosen _ => .of_eq ?_ fun _ _ => rfl
    intro found tree htree
    exact htree.node_third (List.Subset.refl _)
  all_goals
    refine .inl fun block _ => exists_branchesOf_eq_error ⟨?_, ?_⟩ _ _ <;> simp

/-! ## Loops -/

theorem Stmt.ofProduction_while_eq {production : Production}
    (hrule : production.rule = .whileStatement) :
    Stmt.ofProduction file production =
      production.required file "condition expression"
          ((production.children.find? (!·.isPunctuationOrKeyword)).filter Element.isExpression) >>=
        fun condition =>
          production.required file "loop body" (loopBody? file production.children) >>= fun body =>
            Expr.ofElement file condition >>= fun test => body >>= fun repeated =>
              pure (.whileLoop (production.location file) test repeated) := by
  obtain ⟨rule, line, column, children⟩ := production
  cases hrule
  rw [ofProduction]

theorem depends_repeating (hrule : gap.rule = .whileStatement)
    (hfirst : gap.front.all Element.isPunctuationOrKeyword = true) :
    Depends gap.Admits (Expr.ofElement file)
      (fun element => Stmt.ofProduction file (gap.fill element))
      (Role.Keeps .expression .statement) := by
  have hfront : gap.front.filter (!·.isPunctuationOrKeyword) = [] := by
    rw [List.filter_eq_nil_iff]
    intro other hother
    simp [List.all_eq_true.mp hfirst other hother]
  have heq : ∀ element, gap.Admits element → Stmt.ofProduction file (gap.fill element) =
      gap.empty.required file "loop body"
          ((gap.back.filter (!·.isPunctuationOrKeyword))[0]?.map (Stmt.ofElement file)) >>=
        fun body => Expr.ofElement file element >>= fun test => body >>= fun repeated =>
          pure (.whileLoop (gap.empty.location file) test repeated) := by
    intro element helement
    have hvalue := helement.1.isExpression
    have hpart : element.isPunctuationOrKeyword = false :=
      Element.isPunctuationOrKeyword_of_isSymbol (Element.not_isSymbol_of_isExpression hvalue)
    -- with nothing that counts in front, the gap holds the condition and the body is after it
    have hparts : (gap.fill element).children.filter (!·.isPunctuationOrKeyword) =
        element :: gap.back.filter (!·.isPunctuationOrKeyword) := by
      rw [Gap.fill, List.filter_append, hfront, List.filter_cons_of_pos (by simp [hpart])]
      rfl
    have hcondition : ((gap.fill element).children.find? (!·.isPunctuationOrKeyword)).filter
        Element.isExpression = some element := by
      rw [← List.head?_filter, hparts, List.head?_cons, Option.filter_some, if_pos hvalue]
    rw [Stmt.ofProduction_while_eq hrule, hcondition, loopBody?_eq, hparts]
    rfl
  refine .congr heq (.required fun body _ => .before fun repeated found tree htree => ?_)
  exact htree.node_first (List.Subset.refl _)

theorem depends_repeated (hrule : gap.rule = .whileStatement)
    (hsecond : (gap.front.filter (!·.isPunctuationOrKeyword)).length = 1) :
    Depends Element.IsStatement (Stmt.ofElement file)
      (fun element => Stmt.ofProduction file (gap.fill element))
      (Role.Keeps .statement .statement) := by
  obtain ⟨condition, hfront⟩ := List.length_eq_one_iff.mp hsecond
  have heq : ∀ element, element.IsStatement → Stmt.ofProduction file (gap.fill element) =
      gap.empty.required file "condition expression"
          ((some condition).filter Element.isExpression) >>=
        fun condition => Expr.ofElement file condition >>= fun test =>
          (fun repeated => .whileLoop (gap.empty.location file) test repeated) <$>
            Stmt.ofElement file element := by
    intro element helement
    have hpart : element.isPunctuationOrKeyword = false :=
      Element.isPunctuationOrKeyword_of_isSymbol helement.isSymbol_eq
    have hparts : (gap.fill element).children.filter (!·.isPunctuationOrKeyword) =
        condition :: element :: gap.back.filter (!·.isPunctuationOrKeyword) := by
      rw [Gap.fill, List.filter_append, hfront, List.filter_cons_of_pos (by simp [hpart])]
      rfl
    have hcondition : (gap.fill element).children.find? (!·.isPunctuationOrKeyword) =
        some condition := by
      rw [← List.head?_filter, hparts, List.head?_cons]
    rw [Stmt.ofProduction_while_eq hrule, hcondition, loopBody?_eq, hparts]
    refine bind_congr fun condition => ?_
    show (Expr.ofElement file condition >>= _) = _
    refine bind_congr fun test => ?_
    cases Stmt.ofElement file element <;> rfl
  refine .congr heq (.required fun condition _ => .bind fun test _ => .of_eq ?_ fun _ _ => rfl)
  intro found tree htree
  exact htree.node_second (List.Subset.refl _)

/-! ## Blocks -/

/-- What is found for a child of a block stands among its statements. -/
def Surrounds (change : List Stmt → List Stmt) : Prop :=
  ∃ before after, ∀ found, change found = before ++ found ++ after

theorem depends_statementsOf {ι : Type} {allowed : ι → Prop} {find : ι → Element}
    (front back : List Element) :
    Depends allowed (fun part => statementsOf file [find part])
      (fun part => statementsOf file (front ++ find part :: back)) Surrounds := by
  have heq : ∀ part, allowed part → statementsOf file (front ++ find part :: back) =
      statementsOf file front >>= fun before => statementsOf file [find part] >>= fun found =>
        statementsOf file back >>= fun after => pure (before ++ found ++ after) := by
    intro part _
    have hsplit : front ++ find part :: back = front ++ ([find part] ++ back) := rfl
    rw [hsplit, statementsOf_append, statementsOf_append [find part]]
    simp only [bind_assoc, pure_bind, List.append_assoc]
  refine .congr heq (.bind fun before _ => .before fun after => ?_)
  exact ⟨before, after, fun _ => rfl⟩

theorem statementTrees_append (front back : List Stmt) :
    statementTrees (front ++ back) = statementTrees front ++ statementTrees back := by
  induction front with
  | nil => rfl
  | cons statement front ih => rw [List.cons_append, statementTrees, statementTrees, ih]; rfl

/-- The tree of a statement is among those of the statements around it. -/
theorem mem_statementTrees (before after : List Stmt) (found : Stmt) :
    [found.toTree] ⊆ statementTrees (before ++ found :: after) := by
  rw [statementTrees_append, statementTrees]
  simp

theorem depends_stated :
    Depends Element.IsStatement (Stmt.ofElement file)
      (fun element => Block.ofProduction file (gap.fill element))
      (Role.Keeps .statement .block) := by
  -- the element is one statement, since it is neither punctuation nor a statement list
  have hone : ∀ element, element.IsStatement → statementsOf file [element] =
      (fun statement => [statement]) <$> Stmt.ofElement file element := by
    intro element helement
    rw [statementsOf_singleton helement.isOf_eq, Element.isPunctuation_of_isSymbol
      helement.isSymbol_eq]
    rfl
  have hstatements : Depends Element.IsStatement (Stmt.ofElement file)
      (fun element => statementsOf file (gap.front ++ element :: gap.back)) Inserts := by
    refine .comap hone (depends_statementsOf gap.front gap.back) ?_
    rintro change ⟨before, after, hchange⟩
    refine ⟨before, after, fun found => (hchange [found]).trans ?_⟩
    rw [List.append_assoc]
    rfl
  have heq : ∀ element, element.IsStatement → Block.ofProduction file (gap.fill element) =
      (fun statements => ⟨gap.empty.location file, statements⟩) <$>
        statementsOf file (gap.front ++ element :: gap.back) :=
    fun element _ => Block.ofProduction_eq file (gap.fill element)
  refine .congr heq (.map hstatements ?_)
  rintro change ⟨before, after, hchange⟩ found tree htree
  apply htree.node_first
  rw [hchange]
  exact mem_statementTrees before after found

theorem depends_listing :
    Depends (·.rule = .statementList) (fun list => listedStatements file list.children)
      (fun list => Block.ofProduction file (gap.fill (.production list)))
      (Role.Keeps .statements .block) := by
  have hlist : ∀ list : Production, list.rule = .statementList →
      statementsOf file [.production list] = id <$> listedStatements file list.children := by
    intro list hlist
    rw [id_map, statementsOf_list hlist]
  have heq : ∀ list : Production, list.rule = .statementList →
      Block.ofProduction file (gap.fill (.production list)) =
        (fun statements => ⟨gap.empty.location file, statements⟩) <$>
          statementsOf file (gap.front ++ .production list :: gap.back) :=
    fun list _ => Block.ofProduction_eq file (gap.fill (.production list))
  refine .comap hlist (.congr heq (.map (depends_statementsOf gap.front gap.back) ?_)) fun _ h => h
  rintro change ⟨before, after, hchange⟩ found tree htree
  apply htree.node_first
  rw [hchange, statementTrees_append, statementTrees_append]
  exact List.subset_append_of_subset_left _ (List.subset_append_right _ _)

theorem depends_listed :
    Depends Element.IsStatement (Stmt.ofElement file)
      (fun element => listedStatements file (gap.fill element).children)
      (Role.Keeps .statement .statements) := by
  have heq : ∀ element, element.IsStatement →
      listedStatements file (gap.fill element).children =
        id <$> (gap.front.filter (!·.isPunctuation) ++
          element :: gap.back.filter (!·.isPunctuation)).mapM (Stmt.ofElement file) := by
    intro element helement
    rw [id_map, listedStatements_eq, Gap.fill, List.filter_append, List.filter_cons_of_pos
      (by simp [Element.isPunctuation_of_isSymbol helement.isSymbol_eq])]
  refine .congr heq (.map (.mapM fun _ _ => rfl) ?_)
  rintro change ⟨before, after, hchange⟩ found tree htree
  apply htree.mono
  show _ ⊆ statementTrees (change found)
  rw [hchange]
  exact mem_statementTrees before after found

/-! ## Initial values -/

/-- The value after the first `=` is in the gap if there is none in front of it. -/
theorem valueAfterAssign?_fill {element : Element} (h : element.isExpression)
    (hvalue : awaitsValue gap.front = true) :
    valueAfterAssign? (gap.fill element) = some element := by
  obtain ⟨hassign, hnone⟩ := (Bool.and_eq_true _ _).mp hvalue
  cases hdrop : gap.front.dropWhile (!·.isAssign) with
  | nil =>
      obtain ⟨assign, hmem, hassign⟩ := List.any_eq_true.mp hassign
      have hother := List.dropWhile_eq_nil_iff.mp hdrop assign hmem
      rw [hassign] at hother
      cases hother
  | cons assign rest =>
      rw [hdrop, Bool.not_eq_true'] at hnone
      -- no expression is between the `=` and the gap
      have hrest : rest.find? Element.isExpression = none := by
        rw [List.find?_eq_none]
        intro other hother
        simpa using List.any_eq_false.mp hnone other hother
      rw [valueAfterAssign?, Gap.fill, List.dropWhile_append, hdrop]
      show (rest ++ element :: gap.back).find? Element.isExpression = some element
      rw [List.find?_append, hrest, List.find?_cons_of_pos h]
      rfl

/-- The value that is found is the initial value of the declaration. -/
def Initializes (change : Expr → Declaration) : Prop :=
  ∀ found, (change found).initializer = some found

theorem Initializes.within {change : Expr → Declaration} (h : Initializes change) {found : Expr}
    {tree : Tree} (htree : tree.Within [found.toTree]) (kind : Ast.Kind) :
    tree.Within [(change found).toTree kind] := by
  apply htree.node_first
  rw [Declaration.parts, h found]
  simp

/-- A declaration is read from its type, its name and its value. -/
theorem depends_ofParts {ι : Type} {allowed : ι → Prop} {find value : ι → Element}
    (h : ∀ part, allowed part →
      (find part).isOf .typeSpecifier = false ∧ (find part).isName = false) :
    Depends allowed (fun part => Expr.ofElement file (value part))
      (fun part => Declaration.ofParts file (gap.fill (find part)) (some (value part)))
      Initializes := by
  have heq : ∀ part, allowed part →
      Declaration.ofParts file (gap.fill (find part)) (some (value part)) =
        gap.empty.required file Rule.typeSpecifier.construct (gap.empty.child? .typeSpecifier) >>=
          fun type => typeText file type >>= fun typeName =>
            requiredIdentifier file gap.empty >>= fun name =>
              (fun initial => ⟨gap.empty.location file, type.location file, typeName,
                name.location file, name.text, some initial⟩) <$>
                Expr.ofElement file (value part) := by
    intro part hpart
    obtain ⟨htype, hname⟩ := h part hpart
    rw [Declaration.ofParts, requiredChild, Gap.child?_fill htype,
      Gap.requiredIdentifier_fill file hname]
    refine bind_congr fun type => bind_congr fun typeName => bind_congr fun name => ?_
    rw [Option.mapM_some]
    cases Expr.ofElement file (value part) <;> rfl
  refine .congr heq (.required fun type _ => .bind fun typeName _ => .bind fun name _ => ?_)
  exact .of_eq (fun _ => rfl) fun _ _ => rfl

theorem depends_declared (hrule : gap.rule = .localDeclaration)
    (hvalue : awaitsValue gap.front = true) :
    Depends gap.Admits (Expr.ofElement file)
      (fun element => Stmt.ofProduction file (gap.fill element))
      (Role.Keeps .expression .statement) := by
  have heq : ∀ element, gap.Admits element → Stmt.ofProduction file (gap.fill element) =
      Stmt.declaration <$> Declaration.ofParts file (gap.fill element) (some element) := by
    intro element helement
    have hfound := valueAfterAssign?_fill helement.1.isExpression hvalue
    have hassign : (gap.fill element).children.any Element.isAssign = true := by
      rw [Gap.fill, List.any_append, ((Bool.and_eq_true _ _).mp hvalue).1, Bool.true_or]
    have hlocal : Declaration.ofLocal file (gap.fill element) =
        Declaration.ofParts file (gap.fill element) (some element) := by
      rw [Declaration.ofLocal, if_pos hassign, hfound]
      rfl
    rw [← hlocal]
    obtain ⟨rule, line, column, front, back⟩ := gap
    cases hrule
    rw [Gap.fill, Stmt.ofProduction]
  have hparts : Depends gap.Admits (Expr.ofElement file)
      (fun element => Declaration.ofParts file (gap.fill element) (some element)) Initializes := by
    apply depends_ofParts
    intro element helement
    exact ⟨Element.not_isOf_of_isExpression helement.1.isExpression rfl, helement.1.isName_eq⟩
  refine .congr heq (.map hparts ?_)
  intro change hchange found tree htree
  exact hchange.within htree .localDeclaration

end Statements

end MiniC
