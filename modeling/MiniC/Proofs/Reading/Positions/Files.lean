import MiniC.Proofs.Reading.Positions.Statements

/-!
# Values in files

What stands at a place in a file is read for the file.  One gap is one step of the way down
(`Gap.Takes.carries`), and by induction on the way, whatever value stands at a place in an item of
a file, the item is refused, or it is read with the value in it (`Position.carried`).  The same
holds of the file (`CompileUnit.carries`).
-/

namespace MiniC

open ParseTree
open Ast (Tree)

section Items

variable {file : String} {gap : Gap}

/-! ## Items -/

/-- A function is read from its type, its name, its parameters and its body. -/
theorem depends_definition (hfirst : gap.front.any (Element.isOf .block) = false) :
    Depends (·.rule = .block) (Block.ofProduction file)
      (fun block => FunctionDefinition.ofProduction file (gap.fill (.production block)))
      (fun change => ∀ found, (change found).body = found) := by
  have heq : ∀ block : Production, block.rule = .block →
      FunctionDefinition.ofProduction file (gap.fill (.production block)) =
        gap.empty.required file Rule.typeSpecifier.construct (gap.empty.child? .typeSpecifier) >>=
          fun type => typeText file type >>= fun returnType =>
            requiredIdentifier file gap.empty >>= fun name =>
              parametersOf file gap.empty >>= fun parameters =>
                (fun body => ⟨gap.empty.location file, name.text, returnType,
                  type.location file, parameters, body⟩) <$> Block.ofProduction file block := by
    intro block hblock
    -- the block in the gap is none of the other productions that are looked for
    have hother : ∀ rule, rule ≠ .block → (Element.production block).isOf rule = false := by
      intro rule hne
      rw [Element.isOf, hblock, beq_eq_false_iff_ne]
      exact hne.symm
    have hparameters : parametersOf file (gap.fill (.production block)) =
        parametersOf file gap.empty := by
      rw [parametersOf, parametersOf, Gap.child?_fill (hother .fargs (by decide))]
    rw [FunctionDefinition.ofProduction, requiredChild, requiredChild,
      Gap.child?_fill (hother .typeSpecifier (by decide)), Gap.child?_fill_of_first hblock hfirst,
      Gap.requiredIdentifier_fill file (by rfl), hparameters]
    refine bind_congr fun type => bind_congr fun typeName => bind_congr fun name => ?_
    show (parametersOf file gap.empty >>= _) = _
    refine bind_congr fun parameters => ?_
    cases Block.ofProduction file block <;> rfl
  refine .congr heq (.required fun type _ => .bind fun returnType _ => .bind fun name _ =>
    .bind fun parameters _ => ?_)
  exact .of_eq (fun _ => rfl) fun _ _ => rfl

theorem depends_body (hrule : gap.rule = .functionDefinition)
    (hfirst : gap.front.any (Element.isOf .block) = false) :
    Depends (·.rule = .block) (Block.ofProduction file)
      (fun block => Item.ofProduction file (gap.fill (.production block)))
      (Role.Keeps .block .item) := by
  have heq : ∀ block : Production, block.rule = .block →
      Item.ofProduction file (gap.fill (.production block)) =
        Item.function <$> FunctionDefinition.ofProduction file (gap.fill (.production block)) := by
    intro block _
    have hsame : (gap.fill (.production block)).rule = .functionDefinition := hrule
    rw [Item.ofProduction, hsame]
  refine .congr heq (.map (depends_definition hfirst) ?_)
  intro change hchange found tree htree
  apply htree.node_second
  rw [hchange found]
  exact List.Subset.refl _

/-- A variable of the file is read from its initializer. -/
theorem depends_initialized (hrule : gap.rule = .declaration)
    (hvariable : gap.empty.child? .functionDeclaration = none)
    (hfirst : gap.front.any (Element.isOf .initializer) = false) :
    Depends (fun part : Production × Element =>
        part.1.rule = .initializer ∧ valueAfterAssign? part.1 = some part.2)
      (fun part => Expr.ofElement file part.2)
      (fun part => Item.ofProduction file (gap.fill (.production part.1)))
      (Role.Keeps .initializer .item) := by
  have hother : ∀ part : Production × Element, part.1.rule = .initializer →
      ∀ rule, rule ≠ .initializer → (Element.production part.1).isOf rule = false := by
    intro part hpart rule hne
    rw [Element.isOf, hpart, beq_eq_false_iff_ne]
    exact hne.symm
  have heq : ∀ part : Production × Element,
      part.1.rule = .initializer ∧ valueAfterAssign? part.1 = some part.2 →
      Item.ofProduction file (gap.fill (.production part.1)) = Item.global <$>
        Declaration.ofParts file (gap.fill (.production part.1)) (some part.2) := by
    rintro part ⟨hpart, hvalue⟩
    have hsame : (gap.fill (.production part.1)).rule = .declaration := hrule
    have hnone := (Gap.child?_fill (hother part hpart _ (by decide))).trans hvariable
    have hglobal : Declaration.ofGlobal file (gap.fill (.production part.1)) =
        Declaration.ofParts file (gap.fill (.production part.1)) (some part.2) := by
      rw [Declaration.ofGlobal, Gap.child?_fill_of_first hpart hfirst]
      dsimp only
      rw [hvalue]
      rfl
    rw [Item.ofProduction, hsame]
    dsimp only
    rw [hnone, ← hglobal]
  have hparts : Depends (fun part : Production × Element =>
        part.1.rule = .initializer ∧ valueAfterAssign? part.1 = some part.2)
      (fun part => Expr.ofElement file part.2)
      (fun part => Declaration.ofParts file (gap.fill (.production part.1)) (some part.2))
      Initializes := by
    apply depends_ofParts
    rintro part ⟨hpart, -⟩
    exact ⟨hother part hpart _ (by decide), rfl⟩
  refine .congr heq (.map hparts ?_)
  intro change hchange found tree htree
  exact hchange.within htree .globalDeclaration

end Items

/-! ## One step -/

namespace ParseTree

/-- What an element is read as in a role that it can have. -/
inductive Reads (file : String) : (role : Role) → Element → Reading role.Result → Prop where
  | expression {element : Element} (h : element.IsValue) :
      Reads file .expression element (Expr.ofElement file element)
  | arguments {list : Production} (h : list.rule = .args) :
      Reads file .arguments (.production list) (readArguments file list)
  | initializer {production : Production} {value : Element} (h : production.rule = .initializer)
      (hvalue : valueAfterAssign? production = some value) :
      Reads file .initializer (.production production) (Expr.ofElement file value)
  | statement {element : Element} (h : element.IsStatement) :
      Reads file .statement element (Stmt.ofElement file element)
  | statements {list : Production} (h : list.rule = .statementList) :
      Reads file .statements (.production list) (listedStatements file list.children)
  | block {production : Production} (h : production.rule = .block) :
      Reads file .block (.production production) (Block.ofProduction file production)
  | item {production : Production} :
      Reads file .item (.production production) (Item.ofProduction file production)

/-- A production is refused with anything in its gap that is read in a role, or it is read as a
change of what that is read as. -/
def Gap.Carries (file : String) (gap : Gap) (outer inner : Role) : Prop :=
  (∀ element reading, Reads file inner element reading →
    (∀ token, ¬ (gap.fill element).Negates token) →
      ∃ malformation, Reads file outer (.production (gap.fill element)) (.error malformation)) ∨
  ∃ change, inner.Keeps outer change ∧
    ∀ element reading, Reads file inner element reading →
      (∀ token, ¬ (gap.fill element).Negates token) →
        Reads file outer (.production (gap.fill element)) (change <$> reading)

section Steps

variable {file : String} {gap : Gap} {outer inner : Role}

/-- It is enough to know what is read of the whole for each part that may stand in the gap. -/
theorem Gap.carries_of_depends {ι : Type} {allowed : ι → Prop} {read : ι → Reading inner.Result}
    {whole : ι → Reading outer.Result}
    (hparts : ∀ element reading, Reads file inner element reading →
      (∀ token, ¬ (gap.fill element).Negates token) → ∃ part, allowed part ∧ reading = read part ∧
        Reads file outer (.production (gap.fill element)) (whole part))
    (h : Depends allowed read whole (inner.Keeps outer)) : gap.Carries file outer inner := by
  rcases h with h | ⟨change, hkeeps, h⟩
  · left
    intro element reading hreading hsign
    obtain ⟨part, hpart, -, hwhole⟩ := hparts element reading hreading hsign
    obtain ⟨malformation, hmalformation⟩ := h part hpart
    exact ⟨malformation, hmalformation ▸ hwhole⟩
  · right
    refine ⟨change, hkeeps, ?_⟩
    intro element reading hreading hsign
    obtain ⟨part, hpart, rfl, hwhole⟩ := hparts element reading hreading hsign
    rw [← h part hpart]
    exact hwhole

/-- An expression is read in the gap. -/
theorem Gap.carries_of_expression {whole : Element → Reading outer.Result}
    (hreads : ∀ element, element.IsValue →
      Reads file outer (.production (gap.fill element)) (whole element))
    (h : Depends gap.Admits (Expr.ofElement file) whole (Role.Keeps .expression outer)) :
    gap.Carries file outer .expression := by
  refine carries_of_depends ?_ h
  intro element reading hreading hsign
  cases hreading with
  | expression hvalue => exact ⟨element, ⟨hvalue, hsign⟩, rfl, hreads element hvalue⟩

/-- A statement is read in the gap. -/
theorem Gap.carries_of_statement {whole : Element → Reading outer.Result}
    (hreads : ∀ element, element.IsStatement →
      Reads file outer (.production (gap.fill element)) (whole element))
    (h : Depends Element.IsStatement (Stmt.ofElement file) whole (Role.Keeps .statement outer)) :
    gap.Carries file outer .statement := by
  refine carries_of_depends ?_ h
  intro element reading hreading _
  cases hreading with
  | statement hstatement => exact ⟨element, hstatement, rfl, hreads element hstatement⟩

theorem reads_expression {production : Production} (h : production.rule.isExpression) :
    Reads file .expression (.production production) (Expr.ofProduction file production) :=
  .expression ⟨h, rfl⟩

theorem reads_statement {production : Production} (h : production.rule ≠ .statementList) :
    Reads file .statement (.production production) (Stmt.ofProduction file production) :=
  .statement ⟨rfl, beq_eq_false_iff_ne.mpr h⟩

/-- **One step of the way to a value.**  A production is refused with anything in its gap, or it
is read with what is in the gap in it. -/
theorem Gap.Takes.carries (h : gap.Takes outer inner) : gap.Carries file outer inner := by
  have hsame : ∀ element, (gap.fill element).rule = gap.rule := fun _ => rfl
  cases h with
  | enclosed hrule hfirst =>
      have hexpression := Rule.isExpression_of_isWrapper hrule
      exact carries_of_expression (fun _ _ => reads_expression hexpression)
        (depends_enclosed hrule hfirst)
  | operand hrule =>
      refine carries_of_expression (fun _ _ => reads_expression ?_) (depends_operand hrule)
      rw [hsame, hrule]
      rfl
  | signed hrule hfirst =>
      refine carries_of_expression (fun _ _ => reads_expression ?_) (depends_signed hrule hfirst)
      rw [hsame, hrule]
      rfl
  | assigned hrule htarget =>
      refine carries_of_expression (fun _ _ => reads_expression ?_)
        (depends_assigned hrule htarget)
      rw [hsame, hrule]
      rfl
  | called hrule hfirst =>
      refine carries_of_depends ?_ (@depends_called file gap hrule hfirst)
      rintro element reading hreading -
      cases hreading with
      | @arguments list hlist =>
          refine ⟨list, hlist, rfl, reads_expression ?_⟩
          rw [hsame, hrule]
          rfl
  | argument hrule => exact carries_of_expression (fun _ _ => .arguments hrule) depends_argument
  | returned hrule hreturn hfirst =>
      refine carries_of_expression (fun _ _ => reads_statement ?_)
        (depends_returned hrule hreturn hfirst)
      rw [hsame, hrule]
      decide
  | wrapped hrule hreturn hbreak hfirst =>
      refine carries_of_statement (fun _ _ => reads_statement ?_)
        (depends_wrapped hrule hreturn hbreak hfirst)
      rw [hsame, hrule]
      decide
  | tested hrule hfirst =>
      refine carries_of_expression (fun _ _ => reads_statement ?_) (depends_tested hrule hfirst)
      rw [hsame, hrule]
      decide
  | chosen hrule =>
      refine carries_of_depends ?_ (@depends_chosen file gap hrule)
      rintro element reading hreading -
      cases hreading with
      | @block block hblock =>
          refine ⟨block, hblock, rfl, reads_statement ?_⟩
          rw [hsame, hrule]
          decide
  | repeating hrule hfirst =>
      refine carries_of_expression (fun _ _ => reads_statement ?_) (depends_repeating hrule hfirst)
      rw [hsame, hrule]
      decide
  | repeated hrule hsecond =>
      refine carries_of_statement (fun _ _ => reads_statement ?_) (depends_repeated hrule hsecond)
      rw [hsame, hrule]
      decide
  | declared hrule hvalue =>
      refine carries_of_expression (fun _ _ => reads_statement ?_) (depends_declared hrule hvalue)
      rw [hsame, hrule]
      decide
  | stated hrule => exact carries_of_statement (fun _ _ => .block hrule) depends_stated
  | listing hrule =>
      refine carries_of_depends ?_ (@depends_listing file gap)
      rintro element reading hreading -
      cases hreading with
      | @statements list hlist => exact ⟨list, hlist, rfl, .block hrule⟩
  | listed hrule => exact carries_of_statement (fun _ _ => .statements hrule) depends_listed
  | body hrule hfirst =>
      refine carries_of_depends ?_ (@depends_body file gap hrule hfirst)
      rintro element reading hreading -
      cases hreading with
      | @block block hblock => exact ⟨block, hblock, rfl, .item⟩
  | initialized hrule hvariable hfirst =>
      refine carries_of_depends ?_ (@depends_initialized file gap hrule hvariable hfirst)
      rintro element reading hreading -
      cases hreading with
      | @initializer production value hproduction hvalue =>
          exact ⟨(production, value), ⟨hproduction, hvalue⟩, rfl, .item⟩
  | initial hrule hvalue =>
      right
      refine ⟨id, fun _ _ h => h, ?_⟩
      rintro element reading ⟨helement⟩ -
      rw [id_map]
      exact .initializer hrule (valueAfterAssign?_fill helement.isExpression hvalue)

end Steps

/-! ## The way to a value -/

/-- A part of a file is refused with any of some values at a place, or it is read with the value
in it. -/
def Carried (file : String) (values : Element → Prop) (gaps : List Gap) (role : Role) : Prop :=
  (∀ element, values element →
    ∃ malformation, Reads file role (fillAll gaps element) (.error malformation)) ∨
  ∃ fill : Expr → role.Result, (∀ value : Expr, value.toTree.Within (role.trees (fill value))) ∧
    ∀ element, values element →
      Reads file role (fillAll gaps element) (fill <$> Expr.ofElement file element)

section Places

variable {file : String} {values : Element → Prop} {gaps : List Gap} {role outer : Role}

/-- What is read in one role may be read in another one. -/
theorem Carried.change {change : role.Result → outer.Result} (h : Carried file values gaps role)
    (hkeeps : role.Keeps outer change)
    (hreads : ∀ element reading, Reads file role element reading →
      Reads file outer element (change <$> reading)) : Carried file values gaps outer := by
  rcases h with h | ⟨fill, hwithin, h⟩
  · left
    intro element helement
    obtain ⟨malformation, hmalformation⟩ := h element helement
    exact ⟨malformation, hreads _ _ hmalformation⟩
  · right
    refine ⟨fun value => change (fill value), fun value => hkeeps _ _ (hwithin value), ?_⟩
    intro element helement
    have hreading := hreads _ _ (h element helement)
    rw [Functor.map_map] at hreading
    exact hreading

/-- **The way to a value.**  Whatever value stands at a place, the part of the file around it is
refused, or it is read with what the value is read as in it. -/
theorem Position.carried (h : Position values gaps role)
    (hvalues : ∀ element, values element → element.IsValue) : Carried file values gaps role := by
  induction h with
  | here =>
      right
      refine ⟨id, fun value => .here List.mem_cons_self, ?_⟩
      intro element helement
      rw [id_map]
      exact .expression (hvalues element helement)
  -- a refusal inside stays one, and what is found inside is changed as the gap changes it
  | @inside gap gaps outer inner htakes _ hsign ih =>
      rcases @Gap.Takes.carries file gap outer inner htakes with
        hcarries | ⟨change, hkeeps, hcarries⟩
      · left
        intro element helement
        rcases ih with ih | ⟨fill, -, ih⟩
        · obtain ⟨malformation, hreading⟩ := ih element helement
          exact hcarries _ _ hreading (hsign element helement)
        · exact hcarries _ _ (ih element helement) (hsign element helement)
      · rcases ih with ih | ⟨fill, hwithin, ih⟩
        · left
          intro element helement
          obtain ⟨malformation, hreading⟩ := ih element helement
          exact ⟨malformation, hcarries _ _ hreading (hsign element helement)⟩
        · right
          refine ⟨fun value => change (fill value), fun value => hkeeps _ _ (hwithin value), ?_⟩
          intro element helement
          have hreading := hcarries _ _ (ih element helement) (hsign element helement)
          rw [Functor.map_map] at hreading
          exact hreading
  | @statement gaps _ ih =>
      have hkeeps : Role.Keeps .expression .statement Stmt.expression := by
        intro found tree htree
        show tree.Within [Stmt.toTree (.expression found)]
        rw [Stmt.toTree]
        exact htree
      apply ih.change hkeeps
      intro element reading hreading
      cases hreading with
      | expression hvalue =>
          rw [← Stmt.ofElement_of_isExpression hvalue.isExpression]
          exact .statement hvalue.isStatement
  | @block gaps _ ih =>
      have hkeeps : Role.Keeps .block .statement Stmt.block := by
        intro found tree htree
        show tree.Within [Stmt.toTree (.block found)]
        rw [Stmt.toTree]
        exact htree
      apply ih.change hkeeps
      intro element reading hreading
      cases hreading with
      | block hblock =>
          rw [← Stmt.ofProduction_eq_block file hblock]
          exact reads_statement (by rw [hblock]; decide)

end Places

end ParseTree

/-! ## Files -/

section CompileUnits

variable {file : String} {gap : Gap}

/-- A file is read from its items. -/
theorem depends_compileUnit (hrule : gap.rule = .compileUnit) :
    Depends (fun _ : Production => True) (Item.ofProduction file)
      (fun item => CompileUnit.ofProduction file (gap.fill (.production item)))
      (fun change => ∀ found, found ∈ (change found).items) := by
  have heq : ∀ item : Production, True →
      CompileUnit.ofProduction file (gap.fill (.production item)) =
        CompileUnit.mk (gap.empty.location file) <$>
          (gap.front.filterMap Element.production? ++
            item :: gap.back.filterMap Element.production?).mapM (Item.ofProduction file) := by
    intro item _
    have hproductions : (gap.fill (.production item)).productions =
        gap.front.filterMap Element.production? ++
          item :: gap.back.filterMap Element.production? := by
      rw [Production.productions, Gap.fill, List.filterMap_append]
      rfl
    have hsame : (gap.fill (.production item)).rule = .compileUnit := hrule
    rw [CompileUnit.ofProduction, if_pos hsame, hproductions]
    cases List.mapM (Item.ofProduction file) _ <;> rfl
  refine .congr heq (.map (.mapM fun _ _ => rfl) ?_)
  rintro change ⟨before, after, hchange⟩ found
  show found ∈ change found
  rw [hchange found]
  exact List.mem_append_right _ List.mem_cons_self

/-- **Values in a file.**  Whatever value stands at a place in an item of a file, the file is
refused, or it is read with what the value is read as in it. -/
theorem CompileUnit.carries {values : Element → Prop} {gaps : List Gap}
    (hrule : gap.rule = .compileUnit) (h : Position values gaps .item)
    (hvalues : ∀ element, values element → element.IsValue) :
    (∀ element, values element → ∃ malformation,
      CompileUnit.ofProduction file (gap.fill (fillAll gaps element)) = .error malformation) ∨
    ∃ fill : Expr → CompileUnit,
      (∀ value : Expr, value.toTree.Within [(fill value).toTree]) ∧
      ∀ element, values element →
        CompileUnit.ofProduction file (gap.fill (fillAll gaps element)) =
          fill <$> Expr.ofElement file element := by
  have hproduction : ∀ element, ∃ item, fillAll gaps element = .production item := by
    cases h with
    | inside _ _ _ => exact fun element => ⟨_, rfl⟩
  rcases @depends_compileUnit file gap hrule with hrefused | ⟨change, hkeeps, hchange⟩
  · left
    intro element _
    obtain ⟨item, hsame⟩ := hproduction element
    exact hsame ▸ hrefused item trivial
  have hread : ∀ element reading, Reads file .item (fillAll gaps element) reading →
      CompileUnit.ofProduction file (gap.fill (fillAll gaps element)) = change <$> reading := by
    intro element reading hreading
    generalize fillAll gaps element = whole at hreading
    cases hreading with
    | @item production => exact hchange production trivial
  rcases @Position.carried file values gaps .item h hvalues with hitem | ⟨fill, hwithin, hitem⟩
  · left
    intro element helement
    obtain ⟨malformation, hreading⟩ := hitem element helement
    exact ⟨malformation, hread element _ hreading⟩
  · right
    refine ⟨fun value => change (fill value), fun value => ?_, fun element helement => ?_⟩
    · refine (hwithin value).node_first (List.cons_subset.mpr ⟨?_, List.nil_subset _⟩)
      exact List.mem_map_of_mem (hkeeps (fill value))
    · rw [hread element _ (hitem element helement)]
      cases Expr.ofElement file element <;> rfl

end CompileUnits

end MiniC
