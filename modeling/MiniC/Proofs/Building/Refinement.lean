import MiniC.Proofs.Building.Rules
import MiniC.Proofs.Reading.Outline.Files

/-!
# The step by step builder is the compiler's

Each part of a parse tree is built as it is read, and in particular fails as its reading
fails (`BuildsExpression`, `BuildsStatement`).  For a whole file the step by step builder
gives the arena, or the error, that `Compiler.build` gives (`build_eq`).
-/

namespace MiniC.Building

open Ast (Arena Kind Tree)
open ParseTree

/-! ## Expressions -/

section Expressions

variable (file : String)

/-- An element is built as the expression that is read from it. -/
def BuildsExpression (element : Element) : Prop :=
  Performs (expression file element) (Expr.ofElement file element) fun expr => [expr.toTree]

theorem performs_operand (token : Token) :
    Performs (operand file token) (Expr.ofToken file token) fun expr => [expr.toTree] := by
  obtain ⟨kind, text, line, column⟩ := token
  cases kind with
  | number =>
      simp only [operand, Expr.ofToken]
      cases Text.int32? text with
      | none => exact performs_fail _ _
      | some value => exact performs_leaf rfl
  | identifier => exact performs_leaf rfl
  | typeName | keyword | operator | punctuation => exact performs_fail _ _

/-- A name is a token of its sort. -/
theorem kind_of_nameToken? {element : Element} {token : Token}
    (h : nameToken? element = some token) : token.kind = .identifier := by
  simpa using (Option.filter_eq_some_iff.mp h).2

theorem operands_eq (children : List Element) :
    operands file children = (children.filter Element.isExpression).map (expression file) := by
  induction children with
  | nil => rfl
  | cons child children ih =>
      rw [operands, ih]
      by_cases hchild : child.isExpression
      · rw [if_pos hchild, List.filter_cons_of_pos hchild, List.map_cons]
      · rw [if_neg hchild, List.filter_cons_of_neg hchild]

variable {file}

theorem performs_expressions {elements : List Element}
    (h : ∀ element ∈ elements, BuildsExpression file element) :
    Performs ((elements.map (expression file)).forM id)
      ((elements.map (Expr.ofElement file)).mapM id) expressionTrees := by
  have htrees : expressionTrees = List.map Expr.toTree := by
    funext values
    induction values with
    | nil => rfl
    | cons value values ih => rw [expressionTrees, ih, List.map_cons]
  rw [htrees, mapM_map_id, List.forM_eq_forM, List.forM_map]
  exact performs_forM h

/-- The arguments of a call are built as they are read. -/
theorem arguments?_performs {children : List Element}
    (h : ∀ list, .production list ∈ children → ∀ child ∈ list.children,
      BuildsExpression file child) :
    (arguments? file children = none ∧ argumentsOf? file children = none) ∨
      ∃ location values readings, arguments? file children = some (location, values) ∧
        argumentsOf? file children = some (location, readings) ∧
        Performs (values.forM id) (readings.mapM id) expressionTrees := by
  induction children with
  | nil => exact .inl ⟨rfl, rfl⟩
  | cons child children ih =>
      have hrest := ih fun list hlist => h list (List.mem_cons_of_mem _ hlist)
      cases child with
      | token token =>
          rwa [arguments?, argumentsOf?] <;> rintro line column listed ⟨⟩
      | production production =>
          obtain ⟨rule, line, column, listed⟩ := production
          -- only the first list of arguments counts
          by_cases hrule : rule = .args
          · subst hrule
            refine .inr ⟨_, _, _, arguments?.eq_2 .., argumentsOf?.eq_2 .., ?_⟩
            rw [operands_eq, operandsOf_eq]
            exact performs_expressions fun element helement =>
              h _ List.mem_cons_self element (List.mem_filter.mp helement).1
          · rwa [arguments?, argumentsOf?] <;>
              (rintro otherLine otherColumn others ⟨⟩; exact hrule rfl)

/-! ### Expressions by rule -/

section Operands

variable {line column : UInt32} {children : List Element}
  (hparts : ∀ part ∈ children.filter Element.isExpression, BuildsExpression file part)
include hparts

theorem performs_binaryExpression :
    Performs (expressionOf file ⟨.binaryExpression, line, column, children⟩)
      (Expr.ofProduction file ⟨.binaryExpression, line, column, children⟩)
      fun expr => [expr.toTree] := by
  rw [expressionOf, Expr.ofProduction, operands_eq, operandsOf_eq]
  refine performs_found fun text _ => ?_
  cases BinaryOp.ofText? text with
  | none => exact performs_fail _ _
  | some op =>
      -- both ask for two operands, and count the same ones where there are more or fewer
      generalize children.filter Element.isExpression = parts at hparts ⊢
      rcases parts with _ | ⟨left, _ | ⟨right, _ | ⟨third, others⟩⟩⟩
      · exact performs_fail _ _
      · exact performs_fail _ _
      · have hleft := hparts left List.mem_cons_self
        have hright := hparts right (List.mem_cons_of_mem _ List.mem_cons_self)
        exact hleft.node₂ hright (.binary op) _ (Nat.le_refl 2) (Expr.binary _ op) fun _ _ => rfl
      · simp only [List.map_cons, List.length_cons, List.length_map]
        exact performs_fail _ _

theorem performs_unaryExpression :
    Performs (expressionOf file ⟨.unaryExpression, line, column, children⟩)
      (Expr.ofProduction file ⟨.unaryExpression, line, column, children⟩)
      fun expr => [expr.toTree] := by
  rw [expressionOf, Expr.ofProduction, operands_eq, operandsOf_eq]
  refine performs_found fun text _ => ?_
  cases UnaryOp.ofText? text with
  | none => exact performs_fail _ _
  | some op =>
      refine performs_found fun element _ => ?_
      cases negatedMinimum? op element with
      -- the least number, which is written as a negation, is one leaf
      | some token => exact performs_leaf rfl
      | none =>
          cases hfirst : children.filter Element.isExpression with
          | nil => exact performs_fail _ _
          | cons operand others =>
              have hoperand := hparts operand (hfirst ▸ List.mem_cons_self)
              exact (hoperand.node (.unary op) _ (Nat.le_refl 1)).result fun _ => rfl

/-- The target of an assignment is built from its token alone. -/
theorem performs_assignExpression :
    Performs (expressionOf file ⟨.assignExpression, line, column, children⟩)
      (Expr.ofProduction file ⟨.assignExpression, line, column, children⟩)
      fun expr => [expr.toTree] := by
  rw [expressionOf, Expr.ofProduction, operands_eq, operandsOf_eq]
  simp only [Production.expressions]
  generalize children.filter Element.isExpression = parts at hparts ⊢
  rcases parts with _ | ⟨target, _ | ⟨value, _ | ⟨third, others⟩⟩⟩
  · exact performs_fail _ _
  · exact performs_fail _ _
  · simp only [List.map_cons, List.map_nil]
    cases htoken : nameToken? target with
    | none => exact performs_fail _ _
    | some token =>
        -- the target needs no reading any more, since its token has been found to be a name
        have htarget : Performs (operand file token) (pure ()) fun _ =>
            [.leaf (.identifier token.text) (token.location file)] := by
          rw [operand, kind_of_nameToken? htoken]
          exact performs_leaf rfl
        have hvalue := hparts value (List.mem_cons_of_mem _ List.mem_cons_self)
        exact htarget.node₂ hvalue .assignment _ (Nat.le_refl 2)
          (fun _ => Expr.assign _ (token.location file) token.text) fun _ _ => rfl
  · exact performs_fail _ _

end Operands

theorem performs_callExpression {line column : UInt32} {children : List Element}
    (h : ∀ list, .production list ∈ children → ∀ child ∈ list.children,
      BuildsExpression file child) :
    Performs (expressionOf file ⟨.callExpression, line, column, children⟩)
      (Expr.ofProduction file ⟨.callExpression, line, column, children⟩)
      fun expr => [expr.toTree] := by
  rw [expressionOf, Expr.ofProduction]
  refine performs_found fun callee _ => ?_
  rcases arguments?_performs h with ⟨hbuilt, hread⟩ |
    ⟨location, values, readings, hbuilt, hread, hvalues⟩
  · rw [hbuilt, hread]
    exact performs_leaf rfl
  · rw [hbuilt, hread]
    have hlist := hvalues.node .argumentList location (Nat.le_refl 1)
    exact (hlist.node (.call callee.text) _ (Nat.le_refl 1)).result fun _ => rfl

theorem performs_expressionOf (production : Production)
    (h : ∀ child ∈ production.children, BuildsExpression file child)
    (hbelow : ∀ list, .production list ∈ production.children →
      ∀ child ∈ list.children, BuildsExpression file child) :
    Performs (expressionOf file production) (Expr.ofProduction file production)
      fun expr => [expr.toTree] := by
  obtain ⟨rule, line, column, children⟩ := production
  have hparts : ∀ part ∈ children.filter Element.isExpression, BuildsExpression file part :=
    fun part hpart => h part (List.mem_filter.mp hpart).1
  cases rule with
  | primaryExpression | parenExpression =>
      rw [expressionOf, Expr.ofProduction, operands_eq, operandsOf_eq]
      cases hfirst : children.filter Element.isExpression with
      | nil => exact performs_fail _ _
      | cons inner others => exact hparts inner (hfirst ▸ List.mem_cons_self)
  | binaryExpression => exact performs_binaryExpression hparts
  | unaryExpression => exact performs_unaryExpression hparts
  | assignExpression => exact performs_assignExpression hparts
  | callExpression => exact performs_callExpression hbelow
  | _ => exact performs_fail _ _

variable (file)

theorem buildsExpression (element : Element) : BuildsExpression file element := by
  induction element using Element.induction_below with
  | token token => exact performs_operand file token
  | production production ih below => exact performs_expressionOf production ih below

theorem performs_expression? (value : Option Element) :
    Performs (expression? file value) (value.mapM (Expr.ofElement file))
      fun expr => (expr.map Expr.toTree).toList := by
  cases value with
  | none => exact performs_pure rfl
  | some element =>
      rw [Option.mapM_some]
      exact (buildsExpression file element).map fun _ => rfl

end Expressions

/-! ## Declarations -/

section Declarations

variable (file : String)

theorem performs_declaredVariable {kind : Kind} (hkind : 1 ≤ kind.slotCount)
    (production : Production) (value : Option Element) :
    Performs (node kind (production.location file) (declaredVariable file production value))
      (Declaration.ofParts file production value) fun declared => [declared.toTree kind] := by
  have hparts : Performs (declaredVariable file production value)
      (Declaration.ofParts file production value) Declaration.parts := by
    refine performs_found fun type _ => performs_found fun typeName _ =>
      performs_found fun name _ => ?_
    have htype : Performs (node (.typeSpecifier typeName) (type.location file)) (pure ()) fun _ =>
        [.leaf (.typeSpecifier typeName) (type.location file)] := performs_leaf rfl
    have hname : Performs (node (.identifier name.text) (name.location file)) (pure ()) fun _ =>
        [.leaf (.identifier name.text) (name.location file)] := performs_leaf rfl
    exact (htype.before (hname.before (performs_expression? file value))).result fun _ => rfl
  -- what is read has the location of the production, as the node has
  apply (hparts.node kind _ hkind).congr
  intro declared hread
  obtain ⟨_, _, _, _, _, _, _, _, rfl⟩ := Declaration.ofParts_eq_ok.mp hread
  rfl

theorem performs_localDeclaration (production : Production) :
    Performs (localDeclaration file production) (Declaration.ofLocal file production)
      fun declared => [declared.toTree .localDeclaration] := by
  have hparts := performs_declaredVariable file (Nat.le_refl Kind.localDeclaration.slotCount)
    production
  rw [localDeclaration, Declaration.ofLocal]
  split
  · exact performs_found fun value _ => hparts (some value)
  · exact hparts none

theorem performs_globalDeclaration (production : Production) :
    Performs (globalDeclaration file production) (Declaration.ofGlobal file production)
      fun declared => [declared.toTree .globalDeclaration] := by
  have hparts := performs_declaredVariable file (Nat.le_refl Kind.globalDeclaration.slotCount)
    production
  rw [globalDeclaration, Declaration.ofGlobal]
  cases production.child? .initializer with
  | none => exact hparts none
  | some initializer => exact performs_found fun value _ => hparts (some value)

theorem location_of_ofElements {list : Production} {elements : List Element}
    {pending : Option String} {before : List Parameter} {result : ParameterList}
    (h : ParameterList.ofElements file list pending before elements = .ok result) :
    result.location = list.location file := by
  fun_induction ParameterList.ofElements file list pending before elements with
  | case2 => cases h; rfl
  | _ => grind

/-- Parameters go on being built as they go on being read: those that were read before are
in the arena. -/
theorem parametersFrom_run {frame : Frame} {arena : Arena}
    (hslot : arena.HasSlot frame.parent frame.slot) (frames : List Frame) (list : Production)
    (elements : List Element) (pending : Option String) (before : List Parameter) :
    parametersFrom file list pending elements (frame :: frames)
        (arena.insertAll frame.parent frame.slot (before.reverse.map Parameter.toTree)) =
      frame.store arena (fun result => result.parameters.map Parameter.toTree)
        (ParameterList.ofElements file list pending before elements) := by
  -- `before` holds the parameters in reverse, and the arena holds them in order
  induction elements generalizing pending before with
  | nil =>
      rw [parametersFrom, ParameterList.ofElements]
      split <;> rfl
  | cons element elements ih =>
      cases element with
      | production production =>
          simp only [parametersFrom, ParameterList.ofElements]
          split
          next =>
            split
            next => rfl
            next =>
              cases typeText file production with
              | error malformation => rfl
              | ok typeName => exact ih (some typeName) before
          next => rfl
      | token token =>
          simp only [parametersFrom, ParameterList.ofElements]
          split
          next =>
            cases pending with
            | none => rfl
            | some typeName =>
                let parameter : Parameter := ⟨token.location file, token.text, typeName⟩
                have hparameter : Performs
                    (node (.parameter token.text typeName) (token.location file)) (pure ())
                    fun _ => [parameter.toTree] := performs_leaf rfl
                have hbuilt := hparameter frame frames _
                  (hslot.insertAll frame.parent frame.slot (before.reverse.map Parameter.toTree))
                -- the new parameter joins those before it, for the elements that are left
                have hrest := ih none (parameter :: before)
                rw [List.reverse_cons, List.map_append, Arena.insertAll_append] at hrest
                dsimp only
                rw [bind_run, hbuilt]
                exact hrest
          next =>
            split
            next => exact ih pending before
            next => rfl

theorem performs_parameters (production : Production) :
    Performs (parameters file production) (parametersOf file production)
      fun list => (list.map ParameterList.toTree).toList := by
  rw [parameters, parametersOf]
  cases production.child? .fargs with
  | none => exact performs_pure rfl
  | some list =>
      have hfrom : Performs (parametersFrom file list none list.children)
          (ParameterList.ofProduction file list)
          fun read => read.parameters.map Parameter.toTree := by
        intro frame frames arena hslot
        have hrun := parametersFrom_run file hslot frames list list.children none []
        rwa [List.reverse_nil, List.map_nil, Arena.insertAll] at hrun
      have hlist : Performs
          (node .parameterList (list.location file) (parametersFrom file list none list.children))
          (ParameterList.ofProduction file list) fun read => [read.toTree] := by
        apply (hfrom.node .parameterList _ (Nat.le_refl 1)).congr
        intro read hread
        rw [ParameterList.toTree, location_of_ofElements file hread]
      rw [Option.mapM_some]
      exact hlist.map fun _ => rfl

end Declarations

/-! ## Statements -/

section Statements

variable (file : String)

/-- An element is built as the statement that is read from it. -/
def BuildsStatement (element : Element) : Prop :=
  Performs (statement file element) (Stmt.ofElement file element) fun read => [read.toTree]

theorem inner?_eq (children : List Element) :
    inner? file children = (children.find? (!·.isPunctuation)).map (statement file) := by
  induction children with
  | nil => rfl
  | cons child children ih =>
      rw [inner?, ih]
      cases hchild : child.isPunctuation <;> simp [hchild]

theorem first?_eq (children : List Element) :
    first? file children = (children.find? (!·.isPunctuationOrKeyword)).map (statement file) := by
  induction children with
  | nil => rfl
  | cons child children ih =>
      rw [first?, ih]
      cases hchild : child.isPunctuationOrKeyword <;> simp [hchild]

theorem body?_eq (children : List Element) :
    body? file children =
      (children.filter (!·.isPunctuationOrKeyword))[1]?.map (statement file) := by
  induction children with
  | nil => rfl
  | cons child children ih =>
      rw [body?, ih, first?_eq]
      cases hchild : child.isPunctuationOrKeyword with
      | true => simp [hchild]
      | false => simp [hchild, ← List.head?_filter, List.head?_eq_getElem?]

theorem listedStatements_eq (children : List Element) :
    listedStatements file children =
      (children.filter (!·.isPunctuation)).forM (statement file) := by
  induction children with
  | nil => rfl
  | cons child children ih =>
      rw [listedStatements, ih]
      cases hchild : child.isPunctuation with
      | true => simp [hchild]
      | false => simp [hchild]

theorem statements_eq (children : List Element) :
    statements file children = (statementElements children).forM (statement file) := by
  induction children using statementElements.induct with
  | case1 => rfl
  -- the statements of a statement list stand among those of the block
  | case2 line column listed children ih =>
      rw [statements, statementElements, listedStatements_eq, ih]
      simp
  | case3 child children hlist hchild ih =>
      rw [statements, statementElements, if_pos hchild, if_pos hchild, ih] <;> exact hlist
  | case4 child children hlist hchild ih =>
      rw [statements, statementElements, if_neg hchild, if_neg hchild, ih]
        <;> first | exact hlist | rfl

variable {file}

/-- The statements of a block are built as they are read. -/
theorem performs_statements {children : List Element}
    (h : ∀ element ∈ statementElements children, BuildsStatement file element) :
    Performs (statements file children) (statementsOf file children) statementTrees := by
  have htrees : statementTrees = List.map Stmt.toTree := by
    funext read
    induction read with
    | nil => rfl
    | cons first read ih => rw [statementTrees, ih, List.map_cons]
  rw [statements_eq, statementsOf_eq, htrees]
  exact performs_forM h

theorem performs_block {production : Production}
    (h : ∀ element ∈ statementElements production.children, BuildsStatement file element) :
    Performs (node .block (production.location file) (statements file production.children))
      (Block.ofProduction file production) fun block => [block.toTree] :=
  ((performs_statements h).node .block _ (Nat.le_refl 1)).result fun _ => rfl

/-- A block that is built as a statement is built as a block. -/
theorem performs_block_of_statement {production : Production} (hrule : production.rule = .block)
    (h : BuildsStatement file (.production production)) :
    Performs (node .block (production.location file) (statements file production.children))
      (Block.ofProduction file production) fun block => [block.toTree] := by
  intro frame frames arena hslot
  have hrun := h frame frames arena hslot
  obtain ⟨rule, line, column, children⟩ := production
  cases hrule
  rw [Stmt.ofElement, Stmt.ofProduction_eq_block file rfl] at hrun
  rw [statement, statementOf] at hrun
  -- the statement that is read wraps the block, but its tree is that of the block
  rw [hrun]
  cases Block.ofProduction file ⟨.block, line, column, children⟩ <;> rfl

theorem blocks_eq (children : List Element) :
    blocks file children =
      ((children.filterMap Element.production?).filter (·.rule == .block)).map fun block =>
        node .block (block.location file) (statements file block.children) := by
  induction children with
  | nil => rfl
  | cons child children ih =>
      cases child with
      | token token =>
          rw [blocks, ih]
          · rfl
          · rintro line column children ⟨⟩
      | production production =>
          obtain ⟨rule, line, column, listed⟩ := production
          by_cases hrule : rule = .block
          · subst hrule
            rw [blocks, ih]
            rfl
          · rw [blocks, ih]
            · simp [Element.production?, hrule]
            · rintro otherLine otherColumn others ⟨⟩
              exact hrule rfl

/-! ### Statements by rule -/

section Children

variable {line column : UInt32} {children : List Element}
  (h : ∀ child ∈ children, BuildsStatement file child)
include h

theorem performs_simpleStatement :
    Performs (statementOf file ⟨.statement, line, column, children⟩)
      (Stmt.ofProduction file ⟨.statement, line, column, children⟩)
      fun read => [read.toTree] := by
  rw [statementOf, Stmt.ofProduction, inner?_eq, innerStatement?_eq]
  split
  next =>
    have hvalue := performs_expression? file
      (⟨.statement, line, column, children⟩ : Production).expressions.head?
    exact (hvalue.node .returnStatement _ (Nat.le_refl 1)).result fun _ => rfl
  next =>
    split
    next => exact performs_leaf rfl
    next =>
      cases hinner : children.find? (!·.isPunctuation) with
      | none => exact performs_fail _ _
      | some inner => exact h inner (List.mem_of_find?_eq_some hinner)

/-- The blocks of a branch are built as blocks. -/
theorem performs_block_of_mem {block : Production}
    (hblock : block ∈ (children.filterMap Element.production?).filter (·.rule == .block)) :
    Performs (node .block (block.location file) (statements file block.children))
      (Block.ofProduction file block) fun block => [block.toTree] := by
  obtain ⟨hmem, hrule⟩ := List.mem_filter.mp hblock
  exact performs_block_of_statement (beq_iff_eq.mp hrule)
    (h _ (@mem_children_of_mem_productions ⟨.block, 0, 0, children⟩ block hmem))

theorem performs_ifStatement :
    Performs (statementOf file ⟨.ifStatement, line, column, children⟩)
      (Stmt.ofProduction file ⟨.ifStatement, line, column, children⟩)
      fun read => [read.toTree] := by
  rw [statementOf, Stmt.ofProduction, blocks_eq, blocksOf_eq]
  refine performs_found fun condition _ => ?_
  have hcondition := buildsExpression file condition
  have hblocks := fun block => @performs_block_of_mem file children h block
  -- one block or two, in the order of the text; any other number is refused by both
  generalize (children.filterMap Element.production?).filter (·.rule == .block) = found
    at hblocks ⊢
  rcases found with _ | ⟨thenBlock, _ | ⟨elseBlock, _ | ⟨third, others⟩⟩⟩
  · exact performs_fail _ _
  · have hthen := hblocks thenBlock List.mem_cons_self
    exact hcondition.node₂ hthen .ifStatement _ (Nat.le_succ 2)
      (fun condition thenBlock => Stmt.ifElse _ condition thenBlock none) fun _ _ => rfl
  · have hthen := hblocks thenBlock List.mem_cons_self
    have helse := hblocks elseBlock (List.mem_cons_of_mem _ List.mem_cons_self)
    have hslots : 2 < Kind.ifStatement.slotCount := by decide
    exact performs_node
      (fun condition thenBlock elseBlock => Stmt.ifElse _ condition thenBlock (some elseBlock))
      (hcondition.fills (Nat.zero_lt_of_lt hslots)) (hthen.fills (Nat.lt_of_succ_lt hslots))
      (helse.fills hslots) fun _ _ _ => rfl
  · simp only [List.map_cons, List.length_cons, List.length_map]
    exact performs_fail _ _

theorem performs_whileStatement :
    Performs (statementOf file ⟨.whileStatement, line, column, children⟩)
      (Stmt.ofProduction file ⟨.whileStatement, line, column, children⟩)
      fun read => [read.toTree] := by
  rw [statementOf, Stmt.ofProduction, body?_eq, loopBody?_eq]
  refine performs_found fun condition _ => ?_
  have hcondition := buildsExpression file condition
  cases hbody : (children.filter (!·.isPunctuationOrKeyword))[1]? with
  | none => exact performs_fail _ _
  | some body =>
      have hbody := h body (List.mem_filter.mp (List.mem_of_getElem? hbody)).1
      exact hcondition.node₂ hbody .whileStatement _ (Nat.le_refl 2) (Stmt.whileLoop _)
        fun _ _ => rfl

end Children

theorem performs_statementOf (production : Production)
    (h : ∀ child ∈ production.children, BuildsStatement file child)
    (hbelow : ∀ list, .production list ∈ production.children →
      ∀ child ∈ list.children, BuildsStatement file child) :
    Performs (statementOf file production) (Stmt.ofProduction file production)
      fun read => [read.toTree] := by
  obtain ⟨rule, line, column, children⟩ := production
  cases rule with
  | statement => exact performs_simpleStatement h
  | ifStatement => exact performs_ifStatement h
  | whileStatement => exact performs_whileStatement h
  | block =>
      rw [Stmt.ofProduction_eq_block file rfl, statementOf]
      refine (performs_block fun element helement => ?_).map fun _ => rfl
      -- a statement of the block is a child of it or of a statement list in it
      rcases mem_statementElements helement with hmem | ⟨list, hlist, hmem⟩
      · exact h element hmem
      · exact hbelow list hlist element hmem
  | localDeclaration =>
      exact (performs_localDeclaration file _).map fun _ => rfl
  | primaryExpression | parenExpression | binaryExpression | unaryExpression
  | assignExpression | callExpression =>
      exact (buildsExpression file (.production _)).map fun _ => rfl
  | _ => exact performs_fail _ _

variable (file)

theorem buildsStatement (element : Element) : BuildsStatement file element := by
  induction element using Element.induction_below with
  | token token =>
      rw [BuildsStatement, statement, Stmt.ofElement]
      split
      next => exact (performs_operand file token).map fun _ => rfl
      next => exact performs_fail _ _
  | production production ih below => exact performs_statementOf production ih below

end Statements

/-! ## Files -/

section Files

variable (file : String)

theorem performs_functionDefinition (production : Production) :
    Performs (functionDefinition file production) (FunctionDefinition.ofProduction file production)
      fun definition => [definition.toTree] := by
  refine performs_found fun type _ => performs_found fun returnType _ =>
    performs_found fun name _ => performs_found fun body _ => ?_
  have hbody : Performs (node .block (body.location file) (statements file body.children))
      (Block.ofProduction file body) fun block => [block.toTree] :=
    performs_block fun element _ => buildsStatement file element
  have htype : Performs (node (.typeSpecifier returnType) (type.location file)) (pure ()) fun _ =>
      [.leaf (.typeSpecifier returnType) (type.location file)] := performs_leaf rfl
  have hslots : 2 < (Kind.functionDefinition name.text returnType).slotCount := Nat.le_refl 3
  exact performs_node
    (fun parameters body _ => FunctionDefinition.mk (production.location file) name.text returnType
      (type.location file) parameters body)
    ((performs_parameters file production).fills (Nat.zero_lt_of_lt hslots))
    (hbody.fills (Nat.lt_of_succ_lt hslots)) (htype.fills hslots) fun _ _ _ => rfl

theorem performs_functionDeclaration (production : Production) :
    Performs (functionDeclaration file production)
      (FunctionDeclaration.ofProduction file production) fun declared => [declared.toTree] := by
  refine performs_found fun type _ => performs_found fun returnType _ =>
    performs_found fun name _ => ?_
  have hparameters := performs_parameters file production
  exact (hparameters.node (.functionDeclaration name.text returnType) _ (Nat.le_refl 1)).result
    fun _ => rfl

theorem performs_item (production : Production) :
    Performs (item file production) (Item.ofProduction file production)
      fun item => [item.toTree] := by
  rw [item, Item.ofProduction]
  cases production.rule with
  | functionDefinition => exact (performs_functionDefinition file production).map fun _ => rfl
  | functionDeclaration => exact (performs_functionDeclaration file production).map fun _ => rfl
  | declaration =>
      dsimp only
      cases production.child? .functionDeclaration with
      | none => exact (performs_globalDeclaration file production).map fun _ => rfl
      | some declared => exact (performs_functionDeclaration file declared).map fun _ => rfl
  | _ => exact performs_fail _ _

/-- **Building a syntax tree step by step** gives what reading the program and storing its
tree gives: the same arena, or the same error.  In particular no attachment is refused. -/
theorem build_eq (production : Production) :
    build file production = Compiler.build file production := by
  rw [build, compileUnit, Compiler.build, CompileUnit.ofProduction]
  split
  next =>
    let created := (Arena.empty.create .compileUnit (production.location file)).2
    have hslot : (created.setRoot 0).HasSlot 0 0 :=
      Arena.hasSlot_create (Nat.le_refl Kind.compileUnit.slotCount) Arena.empty _
    have hitems : within 0 0 (production.productions.forM (item file)) [] (created.setRoot 0) =
        Frame.store ⟨0, 0⟩ (created.setRoot 0) (List.map Item.toTree)
          (production.productions.mapM (Item.ofProduction file)) :=
      performs_forM (fun part _ => performs_item file part) ⟨0, 0⟩ [] _ hslot
    -- the root is set before its items are there, by `Compiler.build` after them
    change (within 0 0 (production.productions.forM (item file)) [] (created.setRoot 0)).map
      Prod.snd = _
    rw [hitems]
    cases production.productions.mapM (Item.ofProduction file) with
    | error malformation => rfl
    | ok items =>
        rw [store_ok, Arena.insertAll_commute (Arena.commutes_setRoot 0) (Nat.zero_le _) trivial]
        rfl
  next => rfl

end Files

end MiniC.Building
