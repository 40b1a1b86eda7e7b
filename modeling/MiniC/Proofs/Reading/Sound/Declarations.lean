import Mathlib.Data.List.TakeWhile
import MiniC.Proofs.Reading.Sound.Expressions

/-!
# Declarations that are read are of the grammar

Tidy declarations of variables and tidy lists of parameters spell what is read of them.
What is declared is told apart from the initial value by the `=` between them.
-/

namespace MiniC

open ParseTree

variable {file : String}

/-! ## Variables -/

theorem spellsType_of_typeText {production : Production} {typeName : String}
    (hrule : production.rule = .typeSpecifier) (htidy : production.tidy)
    (h : typeText file production = .ok typeName) : SpellsType production typeName := by
  have hhere := (Production.tidy_iff.mp htidy).1
  simp only [Production.isTidy, hrule, Bool.and_eq_true, List.isEmpty_iff, decide_eq_true_eq]
    at hhere
  obtain ⟨token, htoken, rfl⟩ := typeText_eq_ok.mp h
  rw [← List.head?_filter] at htoken
  exact .word hrule hhere.1 (eq_singleton_of_head? htoken hhere.2)

/-- What is read of the parts of a declaration but for the initial value. -/
theorem declared_of_ofParts {production : Production} {declared : Declaration}
    {value : Option Element} (htidy : production.tidy)
    (h : Declaration.ofParts file production value = .ok declared) :
    ∃ type typeName name initial, production.child? .typeSpecifier = some type ∧
      SpellsType type typeName ∧ production.firstToken? .identifier = some name ∧
      name.kind = .identifier ∧ value.mapM (Expr.ofElement file) = .ok initial ∧
      declared = ⟨production.location file, type.location file, typeName, name.location file,
        name.text, initial⟩ := by
  obtain ⟨type, typeName, name, initial, htype, htypeName, hname, hinitial, rfl⟩ :=
    Declaration.ofParts_eq_ok.mp h
  obtain ⟨hmem, hrule⟩ := mem_parts_of_child? htype
  exact ⟨type, typeName, name, initial, htype,
    spellsType_of_typeText hrule (Production.tidy_of_mem_parts htidy hmem) htypeName, hname,
    kind_of_firstToken? hname, hinitial, rfl⟩

theorem initial_of_mapM {value : Element} {initial : Option Expr}
    (h : (some value).mapM (Expr.ofElement file) = .ok initial) :
    ∃ expr, Expr.ofElement file value = .ok expr ∧ initial = some expr := by
  rcases option_mapM_eq_ok.mp h with ⟨hnone, -⟩ | ⟨element, expr, helement, hexpr, rfl⟩
  · cases hnone
  · cases helement
    exact ⟨expr, hexpr, rfl⟩

/-- Without an `=` all parts are before it. -/
theorem beforeAssign_of_any {production : Production}
    (h : production.children.any Element.isAssign = false) :
    production.beforeAssign = production.parts := by
  have hall : production.children.takeWhile (!·.isAssign) = production.children :=
    List.takeWhile_eq_self_iff.mpr (by simpa using h)
  rw [Production.beforeAssign, hall, Production.parts]

/-- The only part after the `=` is the value. -/
theorem afterAssign_of_value {production : Production} {value : Element}
    (htidy : fits [Element.isExpression] production.afterAssign)
    (h : valueAfterAssign? production = some value) :
    production.afterAssign = [value] ∧ value.isExpression := by
  rw [valueAfterAssign?_eq] at h
  exact ⟨eq_singleton_of_fits htidy (List.mem_of_find?_eq_some h), List.find?_some h⟩

theorem mem_children_of_valueAfterAssign? {production : Production} {value : Element}
    (h : valueAfterAssign? production = some value) : value ∈ production.children :=
  (List.dropWhile_sublist _).subset (List.mem_of_mem_drop (List.mem_of_find?_eq_some h))

theorem any_isAssign_of_valueAfterAssign? {production : Production} {value : Element}
    (h : valueAfterAssign? production = some value) :
    production.children.any Element.isAssign := by
  cases hassign : production.children.any Element.isAssign with
  | true => rfl
  | false =>
      have hdrop : production.children.dropWhile (!·.isAssign) = [] :=
        List.dropWhile_eq_nil_iff.mpr (by simpa using hassign)
      rw [valueAfterAssign?, hdrop] at h
      cases h

/-- What is found before an `=` and a value is found before them. -/
theorem found_beforeAssign {production : Production} {value : Element}
    (hafter : production.afterAssign = [value]) (hvalue : value.isExpression) {type : Production}
    (htype : production.child? .typeSpecifier = some type) :
    (production.beforeAssign.filterMap Element.production?).find? (·.rule == .typeSpecifier) =
      some type := by
  -- the value is an expression, and no expression is a type
  have hvalueProduction : ([value].filterMap Element.production?).find?
      (·.rule == .typeSpecifier) = none := by
    cases value with
    | token t => rfl
    | production p =>
        have hrule : (p.rule == .typeSpecifier) = false :=
          Element.not_isOf_of_isExpression hvalue rfl
        simp [Element.production?, hrule]
  -- the rest from the `=` on is a token and the value, and neither is a type
  cases hdrop : production.children.dropWhile (!·.isAssign) with
  | nil => simp [Production.afterAssign, hdrop] at hafter
  | cons assign rest =>
      have hassign : assign.isAssign := by
        have := List.head?_dropWhile_not (!Element.isAssign ·) production.children
        simpa [hdrop] using this
      cases assign with
      | production p => cases hassign
      | token t =>
          have htoken : (partsOf [.token t]).filterMap Element.production? = [] := by
            cases hsymbol : (Element.token t).isSymbol <;>
              simp [partsOf, hsymbol, Element.production?]
          have hrest : partsOf rest = [value] := by
            simpa [Production.afterAssign, hdrop] using hafter
          rw [Production.child?_eq, Production.parts_eq_beforeAssign, hdrop,
            ← List.singleton_append, partsOf_append, hrest, List.filterMap_append,
            List.filterMap_append, htoken, List.nil_append, List.find?_append,
            hvalueProduction, Option.or_none] at htype
          exact htype

/-- A name that stands before an `=` is found there. -/
theorem name_beforeAssign {production : Production} {name : Token}
    (hbefore : production.beforeAssign.any Element.isName)
    (hname : production.firstToken? .identifier = some name) :
    (production.beforeAssign.find? Element.isName).bind Element.token? = some name := by
  rw [Production.firstToken?_identifier, Production.parts_eq_beforeAssign, List.find?_append]
    at hname
  -- tidiness has a name before the `=`, so the first name of all is there
  cases hfind : production.beforeAssign.find? Element.isName with
  | none =>
      rw [List.find?_eq_none] at hfind
      obtain ⟨found, hfound, hisName⟩ := List.any_eq_true.mp hbefore
      exact absurd hisName (hfind found hfound)
  | some found =>
      rw [hfind, Option.some_or] at hname
      exact hname

theorem Declaration.spells_of_ofLocal {production : Production} {declared : Declaration}
    (hrule : production.rule = .localDeclaration) (htidy : production.tidy)
    (h : Declaration.ofLocal file production = .ok declared) :
    SpellsLocal file production declared := by
  have hhere := (Production.tidy_iff.mp htidy).1
  simp only [Production.isTidy, hrule, Bool.and_eq_true] at hhere
  obtain ⟨⟨hbefore, hafter⟩, hname⟩ := hhere
  rw [Declaration.ofLocal_eq_ok] at h
  split at h
  next hassign =>
    obtain ⟨value, hvalue, h⟩ := h
    obtain ⟨hparts, hexpression⟩ := afterAssign_of_value hafter hvalue
    obtain ⟨type, typeName, name, initial, htype, htypeName, hfound, hkind, hinitial, rfl⟩ :=
      declared_of_ofParts htidy h
    obtain ⟨expr, hread, rfl⟩ := initial_of_mapM hinitial
    have hbeforeName : production.beforeAssign.any Element.isName := by simpa [hassign] using hname
    obtain ⟨others, hfront, hothers⟩ := declarator_of_fits [] (by simp) hbefore
      (found_beforeAssign hparts hexpression htype) (name_beforeAssign hbeforeName hfound)
    obtain rfl := eq_nil_of_fits_nil hothers
    have hvalueTidy := (Production.tidy_iff.mp htidy).2 value
      (mem_children_of_valueAfterAssign? hvalue)
    exact .valued hrule hassign hfront htypeName hkind hparts
      (Expr.spells_of_ofElement hvalueTidy hread)
  next hassign =>
    have hassign : production.children.any Element.isAssign = false := by simpa using hassign
    obtain ⟨type, typeName, name, initial, htype, htypeName, hname, hkind, hinitial, rfl⟩ :=
      declared_of_ofParts htidy h
    rw [beforeAssign_of_any hassign] at hbefore
    rw [Production.child?_eq] at htype
    rw [Production.firstToken?_identifier] at hname
    obtain ⟨others, hparts, hothers⟩ := declarator_of_fits [] (by simp) hbefore htype hname
    obtain rfl := eq_nil_of_fits_nil hothers
    cases hinitial
    exact .plain hrule hassign hparts htypeName hkind

/-- The parts of a tidy declaration that declares no function. -/
theorem parts_of_global {production type : Production} {name : Token}
    (hrule : production.rule = .declaration) (htidy : production.isTidy)
    (hfunction : production.child? .functionDeclaration = none)
    (htype : production.child? .typeSpecifier = some type)
    (hname : production.firstToken? .identifier = some name) :
    production.parts = .production type :: .token name ::
      (production.child? .initializer).toList.map Element.production := by
  simp only [Production.isTidy, hrule, Bool.or_eq_true] at htidy
  -- the other shape of a tidy declaration holds a function and nothing else, so no type
  rcases htidy with hwrapper | hfits
  · have hparts := eq_of_fits_isOf hwrapper
    rw [← Production.child?_eq, hfunction] at hparts
    rw [Production.child?_eq, hparts] at htype
    cases htype
  · obtain ⟨others, hparts, hothers⟩ := declarator_of_fits [.initializer] (by simp) hfits
      ((Production.child?_eq production _).symm.trans htype)
      ((Production.firstToken?_identifier production).symm.trans hname)
    have hrule : type.rule = .typeSpecifier := (mem_parts_of_child? htype).2
    have hinitializer : production.child? .initializer =
        (others.filterMap Element.production?).find? (·.rule == .initializer) := by
      simp [Production.child?_eq, hparts, Element.production?, hrule]
    rw [hparts, hinitializer]
    exact congrArg _ (congrArg _ (eq_of_fits_isOf hothers))

theorem Declaration.spells_of_ofGlobal {production : Production} {declared : Declaration}
    (hrule : production.rule = .declaration) (htidy : production.tidy)
    (hfunction : production.child? .functionDeclaration = none)
    (h : Declaration.ofGlobal file production = .ok declared) :
    SpellsGlobal file production declared := by
  have hhere := (Production.tidy_iff.mp htidy).1
  rw [Declaration.ofGlobal_eq_ok] at h
  split at h
  next initializer hinitializer =>
    obtain ⟨value, hvalue, h⟩ := h
    obtain ⟨type, typeName, name, initial, htype, htypeName, hname, hkind, hinitial, rfl⟩ :=
      declared_of_ofParts htidy h
    obtain ⟨expr, hread, rfl⟩ := initial_of_mapM hinitial
    have hparts := parts_of_global hrule hhere hfunction htype hname
    rw [hinitializer] at hparts
    obtain ⟨hmem, hinitializerRule⟩ := mem_parts_of_child? hinitializer
    have hinitializerTidy : initializer.tidy := Production.tidy_of_mem_parts htidy hmem
    obtain ⟨hplaces, hchildren⟩ := Production.tidy_iff.mp hinitializerTidy
    simp only [Production.isTidy, hinitializerRule, Bool.and_eq_true, List.isEmpty_iff] at hplaces
    exact .valued hrule hparts htypeName hkind hinitializerRule
      (any_isAssign_of_valueAfterAssign? hvalue) hplaces.1 (afterAssign_of_value hplaces.2 hvalue).1
      (Expr.spells_of_ofElement (hchildren value (mem_children_of_valueAfterAssign? hvalue)) hread)
  next hinitializer =>
    obtain ⟨type, typeName, name, initial, htype, htypeName, hname, hkind, hinitial, rfl⟩ :=
      declared_of_ofParts htidy h
    have hparts := parts_of_global hrule hhere hfunction htype hname
    rw [hinitializer] at hparts
    cases hinitial
    exact .plain hrule hparts htypeName hkind

/-! ## Parameters -/

/-- A list of parameters goes on with a type. -/
theorem type_of_ofElements {list : Production} {before : List Parameter} {element : Element}
    {elements : List Element} {result : ParameterList} (hcomma : element.isComma = false)
    (h : ParameterList.ofElements file list none before (element :: elements) = .ok result) :
    ∃ type typeName, element = .production type ∧ type.rule = .typeSpecifier ∧
      typeText file type = .ok typeName ∧
      ParameterList.ofElements file list (some typeName) before elements = .ok result := by
  unfold ParameterList.ofElements at h
  cases element with
  | token token =>
      have htext : token.kind = .identifier ∨ token.text ≠ "," := by
        simpa [Element.isComma, or_iff_not_imp_left] using hcomma
      rcases htext with hkind | htext
      · simp only [hkind, if_true] at h
        cases h
      · simp only [htext, if_false] at h
        split at h <;> cases h
  | production type =>
      by_cases hrule : type.rule = .typeSpecifier
      · simp only [hrule, if_true, Option.isSome_none, Bool.false_eq_true, if_false] at h
        cases htypeName : typeText file type with
        | error malformation =>
            rw [htypeName] at h
            cases h
        | ok typeName =>
            rw [htypeName] at h
            exact ⟨type, typeName, rfl, hrule, htypeName, h⟩
      · simp only [hrule, if_false] at h
        cases h

/-- After the type of a parameter its name follows. -/
theorem name_of_ofElements {list : Production} {before : List Parameter} {typeName : String}
    {elements : List Element} {result : ParameterList}
    (hcomma : ∀ element ∈ elements, element.isComma = false)
    (h : ParameterList.ofElements file list (some typeName) before elements = .ok result) :
    ∃ name others, elements = .token name :: others ∧ name.kind = .identifier ∧
      ParameterList.ofElements file list none
        (⟨name.location file, name.text, typeName⟩ :: before) others = .ok result := by
  cases elements with
  | nil =>
      rw [ParameterList.ofElements] at h
      cases h
  | cons element others =>
      unfold ParameterList.ofElements at h
      cases element with
      | token token =>
          by_cases hkind : token.kind = .identifier
          · simp only [hkind, if_true] at h
            exact ⟨token, others, rfl, hkind, h⟩
          · have htext : token.text ≠ "," := by
              simpa [Element.isComma, hkind] using hcomma (.token token) List.mem_cons_self
            simp only [hkind, htext, if_false] at h
            cases h
      | production production =>
          by_cases hrule : production.rule = .typeSpecifier
          · simp only [hrule, if_true, Option.isSome_some] at h
            cases h
          · simp only [hrule, if_false] at h
            cases h

/-- What is read of the elements of a list of parameters, less the commas. -/
theorem spells_of_ofElements {list : Production} {result : ParameterList}
    (elements : List Element) (before : List Parameter)
    (hcomma : ∀ element ∈ elements, element.isComma = false)
    (htidy : ∀ element ∈ elements, element.tidy)
    (h : ParameterList.ofElements file list none before elements = .ok result) :
    ∃ parameters, SpellsParameters file elements parameters ∧
      result = ⟨list.location file, before.reverse ++ parameters⟩ := by
  match elements with
  | [] =>
      rw [ParameterList.ofElements] at h
      cases h
      exact ⟨[], .nil, by rw [List.append_nil]⟩
  | element :: elements =>
      rw [List.forall_mem_cons] at hcomma htidy
      -- two elements are used up for each parameter
      obtain ⟨type, typeName, rfl, hrule, htypeName, h⟩ := type_of_ofElements hcomma.1 h
      obtain ⟨name, others, rfl, hkind, h⟩ := name_of_ofElements hcomma.2 h
      obtain ⟨parameters, hparameters, rfl⟩ := spells_of_ofElements others _
        (List.forall_mem_cons.mp hcomma.2).2 (List.forall_mem_cons.mp htidy.2).2 h
      refine ⟨_, .cons (spellsType_of_typeText hrule htidy.1 htypeName) hkind hparameters, ?_⟩
      rw [List.reverse_cons, List.append_assoc, List.singleton_append]

theorem spells_of_parametersOf {production : Production} {parameters : Option ParameterList}
    (htidy : production.tidy) (h : parametersOf file production = .ok parameters) :
    SpellsParameterList file ((production.child? .fargs).toList.map Element.production)
      parameters := by
  rcases parametersOf_eq_ok.mp h with ⟨hnone, rfl⟩ | ⟨list, found, hlist, hfound, rfl⟩
  · rw [hnone]
    exact .none
  · obtain ⟨hmem, hrule⟩ := mem_parts_of_child? hlist
    have hlistTidy : list.tidy := Production.tidy_of_mem_parts htidy hmem
    rw [ParameterList.ofProduction, ParameterList.ofElements_filter] at hfound
    obtain ⟨parameters, hparameters, rfl⟩ := spells_of_ofElements _ []
      (fun element helement => by simpa using (List.mem_filter.mp helement).2)
      (fun element helement =>
        (Production.tidy_iff.mp hlistTidy).2 element (List.mem_filter.mp helement).1) hfound
    rw [hlist]
    exact .some hrule hparameters

end MiniC
