import MiniC.Proofs.Reading.Parts

/-!
# Outlines of parse trees

The outline of a parse tree is what is left of it without the places of its productions
and tokens and without the texts of the tokens in its type specifiers.  What reading looks
for in a production it finds in its outline as well, and it is the outline of what is
found in the production.
-/

namespace MiniC

namespace ParseTree

/-! ## Outlines of parse trees -/

/-- A token without its place, and without its text if it is in a type specifier. -/
def Token.outline (inType : Bool) (token : Token) : Token :=
  ⟨token.kind, if inType then "" else token.text, 0, 0⟩

mutual

/-- An element without places and without the texts in type specifiers. -/
def Element.outline (inType : Bool) : Element → Element
  | .token token => .token (token.outline inType)
  | .production production => .production (production.outline inType)

/-- A production without places and without the texts in type specifiers. -/
def Production.outline (inType : Bool) : Production → Production
  | ⟨rule, _, _, children⟩ =>
      ⟨rule, 0, 0, outlineChildren (inType || rule == .typeSpecifier) children⟩

/-- Children without places and without the texts in type specifiers. -/
def outlineChildren (inType : Bool) : List Element → List Element
  | [] => []
  | child :: children => child.outline inType :: outlineChildren inType children

end

theorem outlineChildren_eq (inType : Bool) (children : List Element) :
    outlineChildren inType children = children.map (Element.outline inType) := by
  induction children with
  | nil => rfl
  | cons child children ih => rw [outlineChildren, ih, List.map_cons]

section Elements

variable (inType : Bool) (element : Element)

@[simp] theorem Element.isExpression_outline :
    (element.outline inType).isExpression = element.isExpression := by
  cases element with
  | token token => rfl
  | production production =>
      cases production
      rfl

@[simp] theorem Element.isPunctuation_outline :
    (element.outline inType).isPunctuation = element.isPunctuation := by
  cases element <;> rfl

@[simp] theorem Element.isPunctuationOrKeyword_outline :
    (element.outline inType).isPunctuationOrKeyword = element.isPunctuationOrKeyword := by
  cases element <;> rfl

theorem Element.isAssign_outline : (element.outline false).isAssign = element.isAssign := by
  cases element <;> rfl

theorem Element.token?_outline :
    (element.outline inType).token? = element.token?.map (Token.outline inType) := by
  cases element <;> rfl

theorem Element.production?_outline :
    (element.outline inType).production? = element.production?.map (Production.outline inType) := by
  cases element <;> rfl

end Elements

/-- What holds of an outline if it holds of the element is looked for in the same way. -/
theorem find?_map_outline {α β : Type} {test : α → Bool} {other : β → Bool} {change : α → β}
    (h : ∀ value, other (change value) = test value) (values : List α) :
    (values.map change).find? other = (values.find? test).map change := by
  rw [List.find?_map, show other ∘ change = test from funext h]

theorem filter_map_outline {α β : Type} {test : α → Bool} {other : β → Bool} {change : α → β}
    (h : ∀ value, other (change value) = test value) (values : List α) :
    (values.map change).filter other = (values.filter test).map change := by
  rw [List.filter_map, show other ∘ change = test from funext h]

theorem option_filter_outline {α β : Type} {test : α → Bool} {other : β → Bool} {change : α → β}
    (h : ∀ value, other (change value) = test value) (found : Option α) :
    (found.map change).filter other = (found.filter test).map change := by
  cases found with
  | none => rfl
  | some value =>
      rw [Option.map_some, Option.filter_some, Option.filter_some, h]
      cases test value <;> rfl

namespace Production

@[simp] theorem rule_outline (inType : Bool) (production : Production) :
    (production.outline inType).rule = production.rule := by
  cases production
  rfl

variable {production : Production}

theorem location_outline (inType : Bool) (production : Production) :
    (production.outline inType).location Location.unknown.file = .unknown := by
  cases production
  rfl

theorem filterMap_production?_outline (inType : Bool) (children : List Element) :
    (children.map (Element.outline inType)).filterMap Element.production? =
      (children.filterMap Element.production?).map (outline inType) := by
  rw [List.filterMap_map, List.map_filterMap]
  congr 1
  funext element
  exact element.production?_outline inType

/-- In a production that is no type specifier, the texts of the children are kept. -/
theorem children_outline (h : production.rule ≠ .typeSpecifier) :
    (production.outline false).children = production.children.map (Element.outline false) := by
  obtain ⟨rule, line, column, children⟩ := production
  rw [outline, outlineChildren_eq, beq_eq_false_iff_ne.mpr h, Bool.or_false]

theorem outline_mk {rule : Rule} (h : rule ≠ .typeSpecifier) (line column : UInt32)
    (children : List Element) :
    outline false ⟨rule, line, column, children⟩ =
      ⟨rule, 0, 0, children.map (Element.outline false)⟩ := by
  rw [outline, outlineChildren_eq, beq_eq_false_iff_ne.mpr h, Bool.or_false]

theorem expressions_outline (h : production.rule ≠ .typeSpecifier) :
    (production.outline false).expressions =
      production.expressions.map (Element.outline false) := by
  rw [expressions, children_outline h]
  exact filter_map_outline (Element.isExpression_outline false) _

theorem productions_outline (h : production.rule ≠ .typeSpecifier) :
    (production.outline false).productions = production.productions.map (outline false) := by
  rw [productions, children_outline h]
  exact filterMap_production?_outline false _

theorem tokens_outline (inType : Bool) :
    (production.outline inType).tokens =
      production.tokens.map (Token.outline (inType || production.rule == .typeSpecifier)) := by
  obtain ⟨rule, line, column, children⟩ := production
  rw [outline, outlineChildren_eq, tokens, tokens, List.filterMap_map, List.map_filterMap]
  congr 1
  funext element
  exact element.token?_outline _

theorem child?_outline (h : production.rule ≠ .typeSpecifier) (rule : Rule) :
    (production.outline false).child? rule = (production.child? rule).map (outline false) := by
  rw [child?, productions_outline h]
  exact find?_map_outline (fun value => by rw [rule_outline]) _

theorem firstToken?_outline (h : production.rule ≠ .typeSpecifier) (kind : TokenKind) :
    (production.outline false).firstToken? kind =
      (production.firstToken? kind).map (Token.outline false) := by
  rw [firstToken?, tokens_outline, beq_eq_false_iff_ne.mpr h]
  exact find?_map_outline (fun _ => rfl) _

theorem hasToken_outline (h : production.rule ≠ .typeSpecifier) (kind : TokenKind)
    (text : String) :
    (production.outline false).hasToken kind text = production.hasToken kind text := by
  rw [hasToken, tokens_outline, beq_eq_false_iff_ne.mpr h, List.any_map]
  rfl

theorem valueAfterAssign?_outline (h : production.rule ≠ .typeSpecifier) :
    valueAfterAssign? (production.outline false) =
      (valueAfterAssign? production).map (Element.outline false) := by
  -- the `=` is found by its text, which an outline keeps outside of type specifiers
  have hkept : (fun element : Element => !element.isAssign) ∘ Element.outline false =
      fun element => !element.isAssign :=
    funext fun element => congrArg not element.isAssign_outline
  rw [valueAfterAssign?, children_outline h, List.dropWhile_map, hkept, ← List.map_drop]
  exact find?_map_outline (Element.isExpression_outline false) _

end Production

/-- A malformation without its place. -/
def Malformation.outline (malformation : Malformation) : Malformation :=
  { malformation with location := .unknown }

end ParseTree

open ParseTree

/-! ## Results -/

section Results

variable {α β γ δ : Type} {change : α → β} {changeNext : γ → δ}

/-- The result of reading the outline of a part. -/
def outlineReading (change : α → β) : Reading α → Reading β
  | .ok value => .ok (change value)
  | .error malformation => .error malformation.outline

/-- The name of the file that an outline stands in. -/
def unnamedFile : String := Location.unknown.file

theorem outline_bind {reading : Reading α} {other : Reading β} {next : α → Reading γ}
    {otherNext : β → Reading δ} (h : other = outlineReading change reading)
    (hnext : ∀ value, otherNext (change value) = outlineReading changeNext (next value)) :
    other >>= otherNext = outlineReading changeNext (reading >>= next) := by
  cases reading with
  | error malformation => rw [h]; rfl
  | ok value => rw [h]; exact hnext value

/-- What follows may rely on what is read first. -/
theorem outline_bind_of_ok {reading : Reading α} {other : Reading β} {next : α → Reading γ}
    {otherNext : β → Reading δ} (h : other = outlineReading change reading)
    (hnext : ∀ value, reading = .ok value →
      otherNext (change value) = outlineReading changeNext (next value)) :
    other >>= otherNext = outlineReading changeNext (reading >>= next) := by
  cases reading with
  | error malformation => rw [h]; rfl
  | ok value => rw [h]; exact hnext value rfl

theorem outline_map {reading : Reading α} {other : Reading β} {build : α → γ} {otherBuild : β → δ}
    (h : other = outlineReading change reading)
    (hbuild : ∀ value, otherBuild (change value) = changeNext (build value)) :
    otherBuild <$> other = outlineReading changeNext (build <$> reading) := by
  cases reading with
  | error malformation => rw [h]; rfl
  | ok value => rw [h]; exact congrArg Except.ok (hbuild value)

theorem outline_mapM {read : α → Reading γ} {otherRead : β → Reading δ} {values : List α}
    (h : ∀ value ∈ values, otherRead (change value) = outlineReading changeNext (read value)) :
    (values.map change).mapM otherRead =
      outlineReading (List.map changeNext) (values.mapM read) := by
  induction values with
  | nil => rfl
  | cons value values ih =>
      rw [List.map_cons, List.mapM_cons, List.mapM_cons]
      -- a list is read up to the first failure, in the outline at the same element
      refine outline_bind (h value List.mem_cons_self) fun first => ?_
      refine outline_bind (ih fun other hother => h other (List.mem_cons_of_mem _ hother))
        fun rest => ?_
      rfl

theorem outline_option_mapM {read : α → Reading γ} {otherRead : β → Reading δ} {part : Option α}
    (h : ∀ value ∈ part, otherRead (change value) = outlineReading changeNext (read value)) :
    (part.map change).mapM otherRead =
      outlineReading (Option.map changeNext) (part.mapM read) := by
  cases part with
  | none => rfl
  | some value =>
      rw [Option.map_some, Option.mapM_some, Option.mapM_some]
      exact outline_map (h value rfl) fun _ => rfl

variable (file : String)

theorem malformed_outline (inType : Bool) (production : Production) (defect : Defect) :
    (production.outline inType).malformed unnamedFile defect =
      (production.malformed file defect).outline := by
  cases production
  rfl

theorem required_outline (inType : Bool) (production : Production) (part : String)
    (found : Option α) :
    (production.outline inType).required unnamedFile part (found.map change) =
      outlineReading change (production.required file part found) := by
  cases found with
  | none => exact congrArg Except.error (malformed_outline file inType production _)
  | some value => rfl

end Results

end MiniC
