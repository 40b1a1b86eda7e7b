import MiniC.Proofs.Reading.Outline.Files

/-!
# Where malformations are

Every malformation is reported at the start of an element that occurs in the parse tree
that is read (`CompileUnit.locatedIn_ofProduction`): mostly at the production whose part is
missing or wrong, and at the token or production itself where that is what cannot stand in
its place.
-/

namespace MiniC

open ParseTree

/-- An element occurs in a tree: it is the root of the tree, or occurs below a child of the
root. -/
inductive ParseTree.Element.OccursIn (element : Element) : Element → Prop where
  | root : OccursIn element element
  | inside {production : Production} {child : Element} (hchild : child ∈ production.children)
      (h : OccursIn element child) : OccursIn element (.production production)

/-- If a reading fails, then at the start of an element of a tree. -/
def LocatedIn {α : Type} (file : String) (tree : Element) (reading : Reading α) : Prop :=
  ∀ malformation, reading = .error malformation →
    ∃ element : Element, element.OccursIn tree ∧ malformation.location = element.location file

/-! ## Readings -/

section Readings

variable {α β : Type} {file : String} {tree : Element} {production : Production}

theorem locatedIn_ok (value : α) : LocatedIn file tree (.ok value) := by
  intro malformation h
  cases h

theorem locatedIn_pure (value : α) : LocatedIn file tree (pure value) :=
  locatedIn_ok value

theorem locatedIn_root {malformation : Malformation}
    (h : malformation.location = tree.location file) :
    LocatedIn (α := α) file tree (.error malformation) := by
  intro other hother
  cases hother
  exact ⟨tree, .root, h⟩

theorem locatedIn_malformed (production : Production) (defect : Defect) :
    LocatedIn (α := α) file (.production production) (.error (production.malformed file defect)) :=
  locatedIn_root rfl

theorem LocatedIn.below {reading : Reading α} {child : Element} (h : LocatedIn file child reading)
    (hchild : child ∈ production.children) : LocatedIn file (.production production) reading := by
  intro malformation hfail
  obtain ⟨element, hoccurs, hlocation⟩ := h malformation hfail
  exact ⟨element, hoccurs.inside hchild, hlocation⟩

theorem LocatedIn.bind {reading : Reading α} {next : α → Reading β}
    (h : LocatedIn file tree reading)
    (hnext : ∀ value, reading = .ok value → LocatedIn file tree (next value)) :
    LocatedIn file tree (reading >>= next) := by
  cases reading with
  | error malformation =>
      intro other hother
      cases hother
      exact h malformation rfl
  | ok value => exact hnext value rfl

theorem LocatedIn.map {reading : Reading α} (h : LocatedIn file tree reading) (change : α → β) :
    LocatedIn file tree (change <$> reading) := by
  rw [map_eq_pure_bind]
  exact h.bind fun value _ => locatedIn_pure _

theorem locatedIn_required (production : Production) (part : String) (found : Option α) :
    LocatedIn file (.production production) (production.required file part found) := by
  cases found with
  | none => exact locatedIn_malformed production _
  | some value => exact locatedIn_ok value

theorem locatedIn_mapM {read : α → Reading β} {elements : List α}
    (h : ∀ element ∈ elements, LocatedIn file tree (read element)) :
    LocatedIn file tree (elements.mapM read) := by
  induction elements with
  | nil => exact locatedIn_pure _
  | cons element elements ih =>
      rw [List.mapM_cons]
      refine (h element List.mem_cons_self).bind fun value _ => ?_
      have hrest := ih fun other hother => h other (List.mem_cons_of_mem _ hother)
      exact hrest.bind fun values _ => locatedIn_pure _

theorem locatedIn_option_mapM {read : α → Reading β} {value : Option α}
    (h : ∀ element, value = some element → LocatedIn file tree (read element)) :
    LocatedIn file tree (value.mapM read) := by
  cases value with
  | none => exact locatedIn_pure _
  | some element =>
      rw [Option.mapM_some]
      exact (h element rfl).map _

end Readings

/-! ## Expressions -/

section Expressions

variable (file : String)

theorem Expr.locatedIn_ofToken (token : Token) :
    LocatedIn file (.token token) (Expr.ofToken file token) := by
  rw [ofToken]
  split
  next =>
    split
    next => exact locatedIn_ok _
    next => exact locatedIn_root rfl
  next => exact locatedIn_ok _
  next => exact locatedIn_root rfl

theorem locatedIn_operatorText (production : Production) :
    LocatedIn file (.production production) (operatorText file production) :=
  (locatedIn_required production _ _).bind fun _ _ => locatedIn_pure _

variable {file}

section Operands

variable {line column : UInt32} {children : List Element}

/-- The first of some readings fails in the tree if all do. -/
theorem Expr.locatedIn_of_head? {tree : Element} {parts : List Element} {reading : Reading Expr}
    (hparts : ∀ part ∈ parts, LocatedIn file tree (Expr.ofElement file part))
    (h : (parts.map (Expr.ofElement file)).head? = some reading) :
    LocatedIn file tree reading := by
  rw [List.head?_map, Option.map_eq_some_iff] at h
  obtain ⟨part, hpart, rfl⟩ := h
  exact hparts part (List.mem_of_mem_head? hpart)

theorem Expr.locatedIn_binaryExpression
    (hparts : ∀ part ∈ children.filter Element.isExpression,
      LocatedIn file (.production ⟨.binaryExpression, line, column, children⟩)
        (Expr.ofElement file part)) :
    LocatedIn file (.production ⟨.binaryExpression, line, column, children⟩)
      (Expr.ofProduction file ⟨.binaryExpression, line, column, children⟩) := by
  rw [ofProduction, operandsOf_eq]
  refine (locatedIn_operatorText file _).bind fun text _ => ?_
  cases BinaryOp.ofText? text with
  | none => exact locatedIn_malformed _ _
  | some op =>
      -- a wrong number of operands is reported at the production, an operand at its own place
      generalize children.filter Element.isExpression = parts at hparts ⊢
      rcases parts with _ | ⟨left, _ | ⟨right, _ | ⟨third, others⟩⟩⟩
      · exact locatedIn_malformed _ _
      · exact locatedIn_malformed _ _
      · have hleft := hparts left List.mem_cons_self
        have hright := hparts right (List.mem_cons_of_mem _ List.mem_cons_self)
        exact hleft.bind fun _ _ => hright.bind fun _ _ => locatedIn_pure _
      · exact locatedIn_malformed _ _

theorem Expr.locatedIn_unaryExpression
    (hparts : ∀ part ∈ children.filter Element.isExpression,
      LocatedIn file (.production ⟨.unaryExpression, line, column, children⟩)
        (Expr.ofElement file part)) :
    LocatedIn file (.production ⟨.unaryExpression, line, column, children⟩)
      (Expr.ofProduction file ⟨.unaryExpression, line, column, children⟩) := by
  rw [ofProduction, operandsOf_eq]
  refine (locatedIn_operatorText file _).bind fun text _ => ?_
  cases UnaryOp.ofText? text with
  | none => exact locatedIn_malformed _ _
  | some op =>
      refine (locatedIn_required _ _ _).bind fun element _ => ?_
      cases negatedMinimum? op element with
      | some token => exact locatedIn_pure _
      | none =>
          refine (locatedIn_required _ _ _).bind fun operand hoperand => ?_
          have hread := locatedIn_of_head? hparts (required_eq_ok.mp hoperand)
          exact hread.bind fun _ _ => locatedIn_pure _

theorem Expr.locatedIn_assignExpression
    (hparts : ∀ part ∈ children.filter Element.isExpression,
      LocatedIn file (.production ⟨.assignExpression, line, column, children⟩)
        (Expr.ofElement file part)) :
    LocatedIn file (.production ⟨.assignExpression, line, column, children⟩)
      (Expr.ofProduction file ⟨.assignExpression, line, column, children⟩) := by
  rw [ofProduction, operandsOf_eq]
  simp only [Production.expressions]
  generalize children.filter Element.isExpression = parts at hparts ⊢
  rcases parts with _ | ⟨target, _ | ⟨value, _ | ⟨third, others⟩⟩⟩
  · exact locatedIn_malformed _ _
  · exact locatedIn_malformed _ _
  · simp only [List.map_cons, List.map_nil]
    have hvalue := hparts value (List.mem_cons_of_mem _ List.mem_cons_self)
    cases nameToken? target with
    | none => exact locatedIn_malformed _ _
    | some token => exact hvalue.bind fun _ _ => locatedIn_pure _
  · exact locatedIn_malformed _ _

/-- The arguments of a call are two levels below it. -/
theorem Expr.locatedIn_callExpression
    (h : ∀ list, .production list ∈ children →
      ∀ child ∈ list.children, LocatedIn file child (Expr.ofElement file child)) :
    LocatedIn file (.production ⟨.callExpression, line, column, children⟩)
      (Expr.ofProduction file ⟨.callExpression, line, column, children⟩) := by
  rw [ofProduction, argumentsOf?_eq]
  refine (locatedIn_required _ _ _).bind fun callee _ => ?_
  cases hlist : (children.filterMap Element.production?).find? (·.rule == .args) with
  | none => exact locatedIn_pure _
  | some list =>
      -- the list that is found is one of the children
      have hmem : .production list ∈ children :=
        @mem_children_of_mem_productions ⟨.args, 0, 0, children⟩ list
          (List.mem_of_find?_eq_some hlist)
      have hvalues : LocatedIn file (.production ⟨.callExpression, line, column, children⟩)
          ((list.expressions.map (Expr.ofElement file)).mapM id) := by
        rw [mapM_map_id]
        apply locatedIn_mapM
        intro part hpart
        have hchild : part ∈ list.children := (List.mem_filter.mp hpart).1
        exact ((h list hmem part hchild).below hchild).below hmem
      exact hvalues.bind fun _ _ => locatedIn_pure _

end Operands

theorem Expr.locatedIn_ofProduction (production : Production)
    (h : ∀ child ∈ production.children, LocatedIn file child (Expr.ofElement file child))
    (hbelow : ∀ list, .production list ∈ production.children →
      ∀ child ∈ list.children, LocatedIn file child (Expr.ofElement file child)) :
    LocatedIn file (.production production) (Expr.ofProduction file production) := by
  obtain ⟨rule, line, column, children⟩ := production
  have hparts : ∀ part ∈ children.filter Element.isExpression,
      LocatedIn file (.production ⟨rule, line, column, children⟩) (Expr.ofElement file part) := by
    intro part hpart
    have hmem : part ∈ children := (List.mem_filter.mp hpart).1
    exact (h part hmem).below hmem
  cases rule with
  | primaryExpression | parenExpression =>
      rw [ofProduction, operandsOf_eq]
      refine (locatedIn_required _ _ _).bind fun inner hinner => ?_
      exact locatedIn_of_head? hparts (required_eq_ok.mp hinner)
  | binaryExpression => exact locatedIn_binaryExpression hparts
  | unaryExpression => exact locatedIn_unaryExpression hparts
  | assignExpression => exact locatedIn_assignExpression hparts
  | callExpression => exact locatedIn_callExpression hbelow
  | _ => exact locatedIn_malformed _ _

variable (file)

theorem Expr.locatedIn_ofElement (element : Element) :
    LocatedIn file element (Expr.ofElement file element) := by
  induction element using Element.induction_below with
  | token token => exact Expr.locatedIn_ofToken file token
  | production production ih below => exact Expr.locatedIn_ofProduction production ih below

variable {file}

/-- An expression fails below the production that has it as a child. -/
theorem Expr.locatedIn_of_mem {production : Production} {part : Element}
    (hpart : part ∈ production.children) :
    LocatedIn file (.production production) (Expr.ofElement file part) :=
  (Expr.locatedIn_ofElement file part).below hpart

end Expressions

/-! ## Declarations -/

section Declarations

variable (file : String)

/-- A child production that is looked for is a child. -/
theorem mem_children_of_child? {production child : Production} {rule : Rule}
    (h : production.child? rule = some child) : .production child ∈ production.children :=
  mem_children_of_mem_parts (mem_parts_of_child? h).1

theorem locatedIn_typeText (production : Production) :
    LocatedIn file (.production production) (typeText file production) :=
  (locatedIn_required production _ _).bind fun _ _ => locatedIn_pure _

/-- The type of what a production declares. -/
theorem locatedIn_typeText_of_child {production type : Production}
    (h : requiredChild file production .typeSpecifier = .ok type) :
    LocatedIn file (.production production) (typeText file type) :=
  (locatedIn_typeText file type).below (mem_children_of_child? (requiredChild_eq_ok.mp h))

theorem Declaration.locatedIn_ofParts {production : Production} {value : Option Element}
    (h : ∀ element, value = some element →
      LocatedIn file (.production production) (Expr.ofElement file element)) :
    LocatedIn file (.production production) (Declaration.ofParts file production value) := by
  refine (locatedIn_required _ _ _).bind fun type htype => ?_
  refine (locatedIn_typeText_of_child file htype).bind fun typeName _ => ?_
  refine (locatedIn_required _ _ _).bind fun name _ => ?_
  exact (locatedIn_option_mapM h).bind fun _ _ => locatedIn_pure _

/-- The value of a variable that a production initializes. -/
theorem locatedIn_value {production : Production} {value : Element}
    (h : valueAfterAssign? production = some value) :
    LocatedIn file (.production production) (Expr.ofElement file value) :=
  Expr.locatedIn_of_mem (mem_children_of_valueAfterAssign? h)

theorem Declaration.locatedIn_ofLocal (production : Production) :
    LocatedIn file (.production production) (Declaration.ofLocal file production) := by
  rw [ofLocal]
  split
  · refine (locatedIn_required _ _ _).bind fun value hvalue => ?_
    apply Declaration.locatedIn_ofParts file
    rintro element ⟨⟩
    exact locatedIn_value file (required_eq_ok.mp hvalue)
  · apply Declaration.locatedIn_ofParts file
    rintro element ⟨⟩

theorem Declaration.locatedIn_ofGlobal (production : Production) :
    LocatedIn file (.production production) (Declaration.ofGlobal file production) := by
  rw [ofGlobal]
  cases hchild : production.child? .initializer with
  | none =>
      apply Declaration.locatedIn_ofParts file
      rintro element ⟨⟩
  | some initializer =>
      have hmem := mem_children_of_child? hchild
      -- a value that is missing is reported at the initializer, which is a child
      refine ((locatedIn_required initializer _ _).below hmem).bind fun value hvalue => ?_
      apply Declaration.locatedIn_ofParts file
      rintro element ⟨⟩
      exact (locatedIn_value file (required_eq_ok.mp hvalue)).below hmem

theorem ParameterList.locatedIn_ofElements {list : Production} {elements : List Element}
    (h : ∀ element ∈ elements, element ∈ list.children) (pending : Option String)
    (before : List Parameter) :
    LocatedIn file (.production list)
      (ParameterList.ofElements file list pending before elements) := by
  -- the elements are always children of the list, so whatever is reported is in it
  induction elements generalizing pending before with
  | nil =>
      rw [ofElements]
      split
      next => exact locatedIn_malformed _ _
      next => exact locatedIn_ok _
  | cons element elements ih =>
      have hmem := h element List.mem_cons_self
      have hrest := ih fun other hother => h other (List.mem_cons_of_mem _ hother)
      cases element with
      | production production =>
          simp only [ofElements]
          split
          next =>
            split
            next => exact locatedIn_malformed _ _
            next =>
              have htype := (locatedIn_typeText file production).below hmem
              cases hread : typeText file production with
              | ok typeName => exact hrest _ _
              | error malformation =>
                  rw [hread] at htype
                  exact fun other hother => htype other (by cases hother; rfl)
          next =>
            refine LocatedIn.below (locatedIn_root ?_) hmem
            rfl
      | token token =>
          simp only [ofElements]
          split
          next =>
            cases pending with
            | none => exact locatedIn_malformed _ _
            | some typeName => exact hrest _ _
          next =>
            split
            next => exact hrest _ _
            next =>
              refine LocatedIn.below (locatedIn_root ?_) hmem
              rfl

theorem locatedIn_parametersOf (production : Production) :
    LocatedIn file (.production production) (parametersOf file production) := by
  apply locatedIn_option_mapM
  intro list hlist
  have hread : LocatedIn file (.production list) (ParameterList.ofProduction file list) :=
    ParameterList.locatedIn_ofElements file (fun _ h => h) none []
  exact hread.below (mem_children_of_child? hlist)

end Declarations

/-! ## Statements -/

section Statements

variable (file : String)

/-- The statements of a block are below it. -/
theorem Block.locatedIn_ofProduction_of_children {production : Production}
    (h : ∀ child ∈ production.children, LocatedIn file child (Stmt.ofElement file child))
    (hbelow : ∀ list, .production list ∈ production.children →
      ∀ child ∈ list.children, LocatedIn file child (Stmt.ofElement file child)) :
    LocatedIn file (.production production) (Block.ofProduction file production) := by
  rw [ofProduction, statementsOf_eq]
  refine (locatedIn_mapM fun element helement => ?_).bind fun _ _ => locatedIn_pure _
  -- a statement is a child of the block, or a child of a statement list in it
  rcases mem_statementElements helement with hmem | ⟨list, hlist, hmem⟩
  · exact (h element hmem).below hmem
  · exact ((hbelow list hlist element hmem).below hmem).below hlist

variable {file}

/-- A block fails where it fails as a statement. -/
theorem Block.locatedIn_ofProduction_of_statement {production : Production}
    (hrule : production.rule = .block)
    (h : LocatedIn file (.production production) (Stmt.ofElement file (.production production))) :
    LocatedIn file (.production production) (Block.ofProduction file production) := by
  rw [Stmt.ofElement, Stmt.ofProduction_eq_block file hrule] at h
  intro malformation hfail
  exact h malformation (by rw [hfail]; rfl)

section Children

variable {line column : UInt32} {children : List Element}
  (h : ∀ child ∈ children, LocatedIn file child (Stmt.ofElement file child))

include h

theorem Stmt.locatedIn_simpleStatement :
    LocatedIn file (.production ⟨.statement, line, column, children⟩)
      (Stmt.ofProduction file ⟨.statement, line, column, children⟩) := by
  rw [ofProduction, innerStatement?_eq]
  split
  next =>
    refine (locatedIn_option_mapM fun value hvalue => ?_).bind fun _ _ => locatedIn_pure _
    exact Expr.locatedIn_of_mem (List.mem_filter.mp (List.mem_of_mem_head? hvalue)).1
  next =>
    split
    next => exact locatedIn_pure _
    next =>
      cases hinner : children.find? (!·.isPunctuation) with
      | none => exact locatedIn_malformed _ _
      | some inner =>
          have hmem : inner ∈ children := List.mem_of_find?_eq_some hinner
          exact (h inner hmem).below hmem

/-- The blocks of a branch fail below it. -/
theorem Block.locatedIn_of_mem {rule : Rule} {block : Production}
    (hblock : block ∈ (children.filterMap Element.production?).filter (·.rule == .block)) :
    LocatedIn file (.production ⟨rule, line, column, children⟩)
      (Block.ofProduction file block) := by
  obtain ⟨hproduction, hrule⟩ := List.mem_filter.mp hblock
  have hmem : .production block ∈ children :=
    @mem_children_of_mem_productions ⟨.block, 0, 0, children⟩ block hproduction
  have hstatement := h (.production block) hmem
  exact (Block.locatedIn_ofProduction_of_statement (beq_iff_eq.mp hrule) hstatement).below hmem

theorem Stmt.locatedIn_ifStatement :
    LocatedIn file (.production ⟨.ifStatement, line, column, children⟩)
      (Stmt.ofProduction file ⟨.ifStatement, line, column, children⟩) := by
  rw [ofProduction, blocksOf_eq]
  refine (locatedIn_required _ _ _).bind fun condition hcondition => ?_
  have hcondition : LocatedIn file (.production ⟨.ifStatement, line, column, children⟩)
      (Expr.ofElement file condition) :=
    Expr.locatedIn_of_mem
      (List.mem_filter.mp (List.mem_of_mem_head? (required_eq_ok.mp hcondition))).1
  have hblocks : ∀ block ∈ (children.filterMap Element.production?).filter (·.rule == .block),
      LocatedIn file (.production ⟨.ifStatement, line, column, children⟩)
        (Block.ofProduction file block) :=
    fun block hblock => Block.locatedIn_of_mem h hblock
  generalize (children.filterMap Element.production?).filter (·.rule == .block) = blocks
    at hblocks ⊢
  rcases blocks with _ | ⟨thenBlock, _ | ⟨elseBlock, _ | ⟨third, others⟩⟩⟩
  · exact locatedIn_malformed _ _
  · have hthen := hblocks thenBlock List.mem_cons_self
    exact hcondition.bind fun _ _ => hthen.bind fun _ _ => locatedIn_pure _
  · have hthen := hblocks thenBlock List.mem_cons_self
    have helse := hblocks elseBlock (List.mem_cons_of_mem _ List.mem_cons_self)
    exact hcondition.bind fun _ _ => hthen.bind fun _ _ => helse.bind fun _ _ =>
      locatedIn_pure _
  · exact locatedIn_malformed _ _

theorem Stmt.locatedIn_whileStatement :
    LocatedIn file (.production ⟨.whileStatement, line, column, children⟩)
      (Stmt.ofProduction file ⟨.whileStatement, line, column, children⟩) := by
  rw [ofProduction, loopBody?_eq]
  refine (locatedIn_required _ _ _).bind fun condition hcondition => ?_
  have hfound := (Option.filter_eq_some_iff.mp (required_eq_ok.mp hcondition)).1
  have hcondition : LocatedIn file (.production ⟨.whileStatement, line, column, children⟩)
      (Expr.ofElement file condition) :=
    Expr.locatedIn_of_mem (List.mem_of_find?_eq_some hfound)
  refine (locatedIn_required _ _ _).bind fun reading hreading => ?_
  obtain ⟨body, hbody, rfl⟩ := Option.map_eq_some_iff.mp (required_eq_ok.mp hreading)
  have hmem : body ∈ children := (List.mem_filter.mp (List.mem_of_getElem? hbody)).1
  exact hcondition.bind fun _ _ => ((h body hmem).below hmem).bind fun _ _ => locatedIn_pure _

end Children

theorem Stmt.locatedIn_ofProduction (production : Production)
    (h : ∀ child ∈ production.children, LocatedIn file child (Stmt.ofElement file child))
    (hbelow : ∀ list, .production list ∈ production.children →
      ∀ child ∈ list.children, LocatedIn file child (Stmt.ofElement file child)) :
    LocatedIn file (.production production) (Stmt.ofProduction file production) := by
  obtain ⟨rule, line, column, children⟩ := production
  cases rule with
  | statement => exact locatedIn_simpleStatement h
  | ifStatement => exact locatedIn_ifStatement h
  | whileStatement => exact locatedIn_whileStatement h
  | block =>
      rw [ofProduction_eq_block file rfl]
      exact (Block.locatedIn_ofProduction_of_children file h hbelow).map _
  | localDeclaration => exact (Declaration.locatedIn_ofLocal file _).map _
  | primaryExpression | parenExpression | binaryExpression | unaryExpression
  | assignExpression | callExpression =>
      exact (Expr.locatedIn_ofElement file (.production _)).map _
  | _ => exact locatedIn_malformed _ _

variable (file)

theorem Stmt.locatedIn_ofElement (element : Element) :
    LocatedIn file element (Stmt.ofElement file element) := by
  induction element using Element.induction_below with
  | token token =>
      rw [ofElement]
      split
      next => exact (Expr.locatedIn_ofToken file token).map _
      next => exact locatedIn_root rfl
  | production production ih below => exact Stmt.locatedIn_ofProduction production ih below

theorem Block.locatedIn_ofProduction (production : Production) :
    LocatedIn file (.production production) (Block.ofProduction file production) :=
  Block.locatedIn_ofProduction_of_children file (fun child _ => Stmt.locatedIn_ofElement file child)
    fun _ _ child _ => Stmt.locatedIn_ofElement file child

end Statements

/-! ## Files -/

section Files

variable (file : String)

theorem FunctionDefinition.locatedIn_ofProduction (production : Production) :
    LocatedIn file (.production production) (FunctionDefinition.ofProduction file production) := by
  refine (locatedIn_required _ _ _).bind fun type htype => ?_
  refine (locatedIn_typeText_of_child file htype).bind fun returnType _ => ?_
  refine (locatedIn_required _ _ _).bind fun name _ => ?_
  refine (locatedIn_required _ _ _).bind fun body hbody => ?_
  refine (locatedIn_parametersOf file production).bind fun parameters _ => ?_
  have hblock := (Block.locatedIn_ofProduction file body).below
    (mem_children_of_child? (requiredChild_eq_ok.mp hbody))
  exact hblock.bind fun _ _ => locatedIn_pure _

theorem FunctionDeclaration.locatedIn_ofProduction (production : Production) :
    LocatedIn file (.production production) (FunctionDeclaration.ofProduction file production) := by
  refine (locatedIn_required _ _ _).bind fun type htype => ?_
  refine (locatedIn_typeText_of_child file htype).bind fun returnType _ => ?_
  refine (locatedIn_required _ _ _).bind fun name _ => ?_
  exact (locatedIn_parametersOf file production).bind fun _ _ => locatedIn_pure _

theorem Item.locatedIn_ofProduction (production : Production) :
    LocatedIn file (.production production) (Item.ofProduction file production) := by
  rw [ofProduction]
  split
  next => exact (FunctionDefinition.locatedIn_ofProduction file production).map _
  next => exact (FunctionDeclaration.locatedIn_ofProduction file production).map _
  next =>
    cases hchild : production.child? .functionDeclaration with
    | none => exact (Declaration.locatedIn_ofGlobal file production).map _
    | some declared =>
        have hdeclared := FunctionDeclaration.locatedIn_ofProduction file declared
        exact (hdeclared.below (mem_children_of_child? hchild)).map _
  next => exact locatedIn_malformed _ _

/-- **A parse tree that spells no program** is malformed at an element that occurs in it. -/
theorem CompileUnit.locatedIn_ofProduction (production : Production) :
    LocatedIn file (.production production) (CompileUnit.ofProduction file production) := by
  rw [ofProduction]
  split
  next =>
    refine (locatedIn_mapM fun item hitem => ?_).bind fun _ _ => locatedIn_pure _
    exact (Item.locatedIn_ofProduction file item).below (mem_children_of_mem_productions hitem)
  next => exact locatedIn_malformed _ _

end Files

end MiniC
