import MiniC.Proofs.Reading.Parts

/-!
# Places and the parts in them

The rule of a production has places for its parts.  Parts fit places if they stand in the
order of these, at most one to a place (`fits`).  Where reading has found a part, the place
for such a part is filled by it: no other place takes it, and it is the first of its sort.
-/

namespace MiniC

namespace ParseTree

/-- Whether elements fit places in order, at most one to a place. -/
def fits : List (Element → Bool) → List Element → Bool
  | _, [] => true
  | [], _ :: _ => false
  | place :: places, element :: elements =>
      if place element then fits places elements else fits places (element :: elements)

/-- Whether elements fill places in order, one each. -/
def fills : List (Element → Bool) → List Element → Bool
  | [], [] => true
  | place :: places, element :: elements => place element && fills places elements
  | _, _ => false

variable {place : Element → Bool} {places : List (Element → Bool)} {elements : List Element}

theorem eq_nil_of_fits_nil (h : fits [] elements) : elements = [] := by
  cases elements with
  | nil => rfl
  | cons element elements => cases h

/-- The first place is filled by the first element, or by none. -/
theorem fits_cons (h : fits (place :: places) elements) :
    fits places elements ∨ ∃ element others, elements = element :: others ∧ place element ∧
      fits places others := by
  cases elements with
  | nil => exact .inl (by cases places <;> rfl)
  | cons element others =>
      rw [fits] at h
      split at h
      next hplace => exact .inr ⟨element, others, rfl, hplace, h⟩
      next => exact .inl h

theorem exists_place_of_fits (h : fits places elements) {element : Element}
    (helement : element ∈ elements) : ∃ place ∈ places, place element := by
  -- a place that stays empty is skipped, another one takes the first element
  induction places generalizing elements with
  | nil => simp [eq_nil_of_fits_nil h] at helement
  | cons place places ih =>
      rcases fits_cons h with h | ⟨first, others, rfl, hfirst, h⟩
      · obtain ⟨found, hfound, hplace⟩ := ih h helement
        exact ⟨found, List.mem_cons_of_mem _ hfound, hplace⟩
      · rcases List.mem_cons.mp helement with rfl | helement
        · exact ⟨place, List.mem_cons_self, hfirst⟩
        · obtain ⟨found, hfound, hplace⟩ := ih h helement
          exact ⟨found, List.mem_cons_of_mem _ hfound, hplace⟩

/-- The first place is filled where an element fits no other. -/
theorem first_of_fits (h : fits (place :: places) elements) {element : Element}
    (helement : element ∈ elements) (hothers : ∀ other ∈ places, other element = false) :
    ∃ first others, elements = first :: others ∧ place first ∧ fits places others := by
  rcases fits_cons h with h | hfirst
  · obtain ⟨found, hfound, hplace⟩ := exists_place_of_fits h helement
    rw [hothers found hfound] at hplace
    cases hplace
  · exact hfirst

/-- A single place. -/
theorem eq_singleton_of_fits (h : fits [place] elements) {element : Element}
    (helement : element ∈ elements) : elements = [element] := by
  obtain ⟨first, others, rfl, -, h⟩ := first_of_fits h helement (by simp)
  obtain rfl := eq_nil_of_fits_nil h
  rw [List.mem_singleton.mp helement]

end ParseTree

open ParseTree

/-! ## Parts that are found -/

/-- A list of at most one value is the first one. -/
theorem eq_singleton_of_head? {α : Type} {values : List α} {value : α}
    (h : values.head? = some value) (hlength : values.length ≤ 1) : values = [value] := by
  obtain ⟨others, rfl⟩ := List.head?_eq_some_iff.mp h
  rw [List.length_cons] at hlength
  rw [List.length_eq_zero_iff.mp (by omega : others.length = 0)]

section Found

variable {production : Production} {element : Element}

theorem mem_children_of_mem_productions {child : Production} (h : child ∈ production.productions) :
    .production child ∈ production.children := by
  obtain ⟨found, hfound, hchild⟩ := List.mem_filterMap.mp h
  cases found with
  | token t => cases hchild
  | production p =>
      cases hchild
      exact hfound

/-- The only part is the expression, if there is one. -/
theorem parts_eq_head? (h : fits [Element.isExpression] production.parts) :
    production.parts = production.expressions.head?.toList := by
  rcases fits_cons h with h | ⟨expression, others, hparts, hexpression, h⟩
  · rw [Production.expressions_eq, eq_nil_of_fits_nil h]
    rfl
  · rw [Production.expressions_eq, hparts, List.filter_cons_of_pos hexpression,
      eq_nil_of_fits_nil h]
    rfl

theorem mem_parts_of_head? (h : production.expressions.head? = some element) :
    element ∈ production.parts ∧ element.isExpression := by
  rw [Production.expressions_eq] at h
  exact List.mem_filter.mp (List.mem_of_mem_head? h)

theorem mem_parts_of_child? {rule : Rule} {child : Production}
    (h : production.child? rule = some child) :
    .production child ∈ production.parts ∧ child.rule = rule := by
  rw [Production.child?_eq] at h
  obtain ⟨found, hfound, hchild⟩ := List.mem_filterMap.mp (List.mem_of_find?_eq_some h)
  have hrule := List.find?_some h
  cases found with
  | token t => cases hchild
  | production p =>
      cases hchild
      exact ⟨hfound, by simpa using hrule⟩

theorem kind_of_firstToken? {kind : TokenKind} {token : Token}
    (h : production.firstToken? kind = some token) : token.kind = kind := by
  simpa using List.find?_some h

end Found

/-! ## Places that are filled -/

section Places

variable {places : List (Element → Bool)} {elements : List Element}

/-- The place of a name is filled where a name is found. -/
theorem name_of_fits {name : Token}
    (hplaces : ∀ place ∈ places, ∀ t, place (.token t) = false)
    (h : fits (Element.isName :: places) elements)
    (hname : (elements.find? Element.isName).bind Element.token? = some name) :
    ∃ others, elements = .token name :: others ∧ fits places others := by
  obtain ⟨found, hfound, htoken⟩ := Option.bind_eq_some_iff.mp hname
  cases found with
  | production p => cases htoken
  | token t =>
      cases htoken
      obtain ⟨first, others, rfl, hfirst, hothers⟩ := first_of_fits h
        (List.mem_of_find?_eq_some hfound) fun place hplace => hplaces place hplace name
      rw [List.find?_cons_of_pos hfirst] at hfound
      cases hfound
      exact ⟨others, rfl, hothers⟩

/-- The place of a production is filled where a production of its rule is found. -/
theorem production_of_fits {rule : Rule} {production : Production}
    (hplaces : ∀ place ∈ places, ∀ p : Production, p.rule = rule → place (.production p) = false)
    (h : fits (Element.isOf rule :: places) elements)
    (hproduction : (elements.filterMap Element.production?).find? (·.rule == rule) =
      some production) :
    ∃ others, elements = .production production :: others ∧ fits places others := by
  have hrule : production.rule = rule := by simpa using List.find?_some hproduction
  obtain ⟨found, hfound, hfoundProduction⟩ :=
    List.mem_filterMap.mp (List.mem_of_find?_eq_some hproduction)
  cases found with
  | token t => cases hfoundProduction
  | production p =>
      cases hfoundProduction
      obtain ⟨first, others, rfl, hfirst, hothers⟩ := first_of_fits h hfound
        fun place hplace => hplaces place hplace production hrule
      -- the place is filled by the first production of the rule, and that is the one that is found
      cases first with
      | token t => cases hfirst
      | production p =>
          have hp : (p.rule == rule) = true := hfirst
          have hproductions : (Element.production p).production? = some p := rfl
          simp only [List.filterMap_cons_some hproductions, List.find?_cons, hp] at hproduction
          cases hproduction
          exact ⟨others, rfl, hothers⟩

/-- The first place of a production is filled by the one of its rule that is found, if
there is one. -/
theorem optional_of_fits {rule : Rule}
    (hplaces : ∀ place ∈ places, ∀ p : Production, p.rule = rule → place (.production p) = false)
    (h : fits (Element.isOf rule :: places) elements) :
    ∃ others, elements =
      ((elements.filterMap Element.production?).find? (·.rule == rule)).toList.map
      Element.production ++ others ∧ fits places others := by
  cases hfound : (elements.filterMap Element.production?).find? (·.rule == rule) with
  | some p => exact production_of_fits hplaces h hfound
  | none =>
      rcases fits_cons h with h | ⟨first, others, rfl, hfirst, -⟩
      · exact ⟨elements, rfl, h⟩
      -- had the place been filled, a production of the rule would have been found
      · cases first with
        | token t => cases hfirst
        | production p =>
            have hp : (p.rule == rule) = true := hfirst
            simp [Element.production?, hp] at hfound

/-- A single place of a production. -/
theorem eq_of_fits_isOf {rule : Rule} (h : fits [Element.isOf rule] elements) :
    elements = ((elements.filterMap Element.production?).find? (·.rule == rule)).toList.map
      Element.production := by
  obtain ⟨others, helements, hothers⟩ := optional_of_fits (by simp) h
  rwa [eq_nil_of_fits_nil hothers, List.append_nil] at helements

/-- The places of a type and a name are filled where a type and a name are found. -/
theorem declarator_of_fits {type : Production} {name : Token} (rules : List Rule)
    (hrules : .typeSpecifier ∉ rules)
    (h : fits (Element.isOf .typeSpecifier :: Element.isName :: rules.map Element.isOf) elements)
    (htype : (elements.filterMap Element.production?).find? (·.rule == .typeSpecifier) = some type)
    (hname : (elements.find? Element.isName).bind Element.token? = some name) :
    ∃ others, elements = .production type :: .token name :: others ∧
      fits (rules.map Element.isOf) others := by
  obtain ⟨others, rfl, hothers⟩ := production_of_fits (by
    intro place hplace p hp
    rcases List.mem_cons.mp hplace with rfl | hplace
    · rfl
    · obtain ⟨rule, hrule, rfl⟩ := List.mem_map.mp hplace
      have hne : rule ≠ .typeSpecifier := fun heq => hrules (heq ▸ hrule)
      simp [Element.isOf, hp, Ne.symm hne]) h htype
  have hfind : (others.find? Element.isName).bind Element.token? = some name := by
    rwa [List.find?_cons_of_neg (by simp [Element.isName])] at hname
  obtain ⟨rest, rfl, hrest⟩ := name_of_fits (by
    intro place hplace t
    obtain ⟨rule, -, rfl⟩ := List.mem_map.mp hplace
    rfl) hothers hfind
  exact ⟨rest, rfl, hrest⟩

end Places

end MiniC
