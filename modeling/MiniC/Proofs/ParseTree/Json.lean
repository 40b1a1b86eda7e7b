import MiniC.ParseTree.Json
import MiniC.Proofs.Json.Values
import MiniC.Proofs.Reading.Parts

/-!
# Parse trees read back

A parse tree is read back from its JSON form where the budget allows for the containers of that
form, and is refused otherwise (`Production.ofJson?_toJson`).  A production in another costs
three of them: its record, the list of its children and the alternative in that list.  The
innermost ones have a list as well, and the record and the alternative of a token at most, so
that the nesting of the productions settles whether a budget of `3 * n + 1` suffices
(`Production.depth_toJson_le_iff`).

A form that leaves out the children of a production saves their list.  So a budget that does not
suffice to read a tree back may suffice to read it, but only for one more level
(`Production.nesting_of_ofJson?`).
-/

namespace MiniC.ParseTree

open MiniC.Json

/-! ## Nesting -/

mutual

/-- How deep productions are nested in an element. -/
def Element.nesting : Element → Nat
  | .token _ => 0
  | .production production => production.nesting

/-- How deep productions are nested in a production, itself included. -/
def Production.nesting : Production → Nat
  | ⟨_, _, _, children⟩ => 1 + nestingIn children

/-- How deep productions are nested in elements. -/
def nestingIn : List Element → Nat
  | [] => 0
  | child :: children => max child.nesting (nestingIn children)

end

theorem Production.nesting_eq (production : Production) :
    production.nesting = 1 + nestingIn production.children := by
  obtain ⟨rule, line, column, children⟩ := production
  rw [nesting]

/-! ## The depth of the form that is written -/

@[simp] theorem Token.depth_toJson (token : Token) : token.toJson.depth = 1 := by
  simp [toJson, Value.ofFields, Value.depth, Value.depthOfMembers, Value.ofText, Value.ofInt]

theorem Production.depth_toJson (production : Production) :
    production.toJson.depth = 2 + Value.depthOfItems (childrenToJson production.children) := by
  obtain ⟨rule, line, column, children⟩ := production
  simp [toJson, Value.ofFields, Value.depth, Value.depthOfMembers, Value.ofText, Value.ofInt]
  omega

@[simp] theorem Element.depth_toJson_token (token : Token) :
    (Element.token token).toJson.depth = 2 := by
  simp [toJson, Value.ofFields, Value.depth, Value.depthOfMembers]

@[simp] theorem Element.depth_toJson_production (production : Production) :
    (Element.production production).toJson.depth = 1 + production.toJson.depth := by
  simp [toJson, Value.ofFields, Value.depth, Value.depthOfMembers]

theorem depthOfItems_childrenToJson {children : List Element}
    (h : ∀ child ∈ children, 3 * child.nesting ≤ child.toJson.depth ∧
      child.toJson.depth ≤ 3 * child.nesting + 2) :
    3 * nestingIn children ≤ Value.depthOfItems (childrenToJson children) ∧
      Value.depthOfItems (childrenToJson children) ≤ 3 * nestingIn children + 2 := by
  induction children with
  | nil => simp [nestingIn, childrenToJson, Value.depthOfItems]
  | cons child children ih =>
      obtain ⟨hlow, hhigh⟩ := h child List.mem_cons_self
      have hrest := ih fun other hother => h other (List.mem_cons_of_mem child hother)
      simp only [nestingIn, childrenToJson, Value.depthOfItems]
      omega

/-- The containers of an element are three for each production around another, and two more at
most. -/
theorem Element.depth_toJson (element : Element) :
    3 * element.nesting ≤ element.toJson.depth ∧
      element.toJson.depth ≤ 3 * element.nesting + 2 := by
  induction element using Element.induction with
  | token t => simp [nesting]
  | production p ih =>
      -- its tag, its record and the array of its children are the three containers
      have hchildren := depthOfItems_childrenToJson ih
      rw [depth_toJson_production, Production.depth_toJson, nesting, p.nesting_eq]
      omega

/-- Whether the form of a tree fits into so many containers depends on its nesting alone. -/
theorem Production.depth_toJson_le_iff (production : Production) (limit : Nat) :
    production.toJson.depth ≤ 3 * limit + 1 ↔ production.nesting ≤ limit := by
  have hbounds := Element.depth_toJson (.production production)
  rw [Element.depth_toJson_production, Element.nesting] at hbounds
  have hchildren := depthOfItems_childrenToJson fun child (_ : child ∈ production.children) =>
    child.depth_toJson
  rw [production.depth_toJson, production.nesting_eq]
  omega

/-! ## Reading what is written -/

theorem coordinate?_ofInt (position : UInt32) :
    coordinate? (some (.ofInt position.toNat)) = some position := by
  have hlow : (0 : Int) ≤ position.toNat := Int.natCast_nonneg _
  have hhigh : (position.toNat : Int) < 4294967296 := by
    have hlt := position.toNat_lt
    omega
  simp [coordinate?, Value.uint32?, Value.intFrom?, Value.ofInt, hlow, hhigh]

theorem Rule.ofJson?_ofText (rule : Rule) (budget : Nat) :
    Rule.ofJson? budget (.ofText rule.key) = some rule := by
  simp [ofJson?, Value.plain?, Value.ofText]

theorem TokenKind.ofJson?_ofText (kind : TokenKind) (budget : Nat) :
    TokenKind.ofJson? budget (.ofText kind.key) = some kind := by
  simp [ofJson?, Value.plain?, Value.ofText]

theorem Token.ofJson?_toJson (token : Token) (budget : Nat) :
    Token.ofJson? (budget + 1) token.toJson = some token := by
  have hfields : token.toJson.fields? ["kind", "text", "line", "column"] =
      some [some (.ofText token.kind.key), some (.ofText token.text),
        some (.ofInt token.line.toNat), some (.ofInt token.column.toNat)] := by
    rfl
  rw [ofJson?, hfields]
  simp [TokenKind.ofJson?_ofText, coordinate?_ofInt, Value.text?]
  rfl

theorem mapM_ofJson?_childrenToJson {budget : Nat} {children : List Element}
    (h : ∀ child ∈ children, Element.ofJson? budget child.toJson =
      if child.toJson.depth ≤ budget then some child else none) :
    (childrenToJson children).mapM (Element.ofJson? budget) =
      if Value.depthOfItems (childrenToJson children) ≤ budget then some children else none := by
  induction children with
  | nil => simp [childrenToJson, Value.depthOfItems]
  | cons child children ih =>
      have hchild := h child List.mem_cons_self
      have hrest := ih fun other hother => h other (List.mem_cons_of_mem child hother)
      rw [childrenToJson, List.mapM_cons, hchild, hrest, Value.depthOfItems]
      -- the children fit if the deepest of them does
      by_cases hfirst : child.toJson.depth ≤ budget
      · by_cases hothers : Value.depthOfItems (childrenToJson children) ≤ budget
        · rw [if_pos hfirst, if_pos hothers, if_pos (Nat.max_le.mpr ⟨hfirst, hothers⟩)]
          rfl
        · rw [if_pos hfirst, if_neg hothers,
            if_neg fun hfits => hothers (Nat.max_le.mp hfits).2]
          rfl
      · rw [if_neg hfirst, if_neg fun hfits => hfirst (Nat.max_le.mp hfits).1]
        rfl

/-- A production is read back if its children are. -/
theorem Production.ofJson?_toJson_of_children {production : Production}
    (h : ∀ child ∈ production.children, ∀ budget, Element.ofJson? budget child.toJson =
      if child.toJson.depth ≤ budget then some child else none) (budget : Nat) :
    ofJson? budget production.toJson =
      if production.toJson.depth ≤ budget then some production else none := by
  obtain ⟨rule, line, column, children⟩ := production
  rw [depth_toJson]
  cases budget with
  | zero => rw [ofJson?, if_neg (by omega)]
  | succ budget =>
      have hfields : (Production.toJson ⟨rule, line, column, children⟩).fields?
          ["rule", "line", "column", "children"] =
            some [some (.ofText rule.key), some (.ofInt line.toNat), some (.ofInt column.toNat),
              some (.array (childrenToJson children))] := by
        rfl
      rw [ofJson?, hfields]
      cases budget with
      | zero =>
          simp [Rule.ofJson?_ofText, coordinate?_ofInt, children?]
          omega
      | succ budget =>
          have hchildren := mapM_ofJson?_childrenToJson fun child hchild => h child hchild budget
          simp only [Rule.ofJson?_ofText, coordinate?_ofInt, children?, hchildren,
            Option.bind_eq_bind, Option.bind_some]
          by_cases hfits : Value.depthOfItems (childrenToJson children) ≤ budget
          · rw [if_pos hfits, if_pos (by omega)]
            rfl
          · rw [if_neg hfits, if_neg (by omega)]
            rfl

theorem Element.ofJson?_toJson (element : Element) (budget : Nat) :
    ofJson? budget element.toJson =
      if element.toJson.depth ≤ budget then some element else none := by
  induction element using Element.induction generalizing budget with
  | token t =>
      cases budget with
      | zero => rw [ofJson?, if_neg (by simp)]
      | succ budget =>
          have htagged : (Element.token t).toJson.tagged? = some ("token", t.toJson) := rfl
          rw [ofJson?, htagged, depth_toJson_token]
          cases budget with
          | zero => simp [Token.ofJson?]
          | succ budget => simp [Token.ofJson?_toJson]
  | production p ih =>
      cases budget with
      | zero => rw [ofJson?, if_neg (by simp)]
      | succ budget =>
          have htagged : (Element.production p).toJson.tagged? = some ("node", p.toJson) := rfl
          rw [ofJson?, htagged, depth_toJson_production]
          have hread := Production.ofJson?_toJson_of_children ih budget
          simp only [Option.bind_eq_bind, Option.bind_some, hread]
          by_cases hfits : p.toJson.depth ≤ budget
          · rw [if_pos hfits, if_pos (by omega)]
            rfl
          · rw [if_neg hfits, if_neg (by omega)]
            rfl

/-- A tree is read back from its JSON form if and only if the budget suffices for the
containers of that form. -/
theorem Production.ofJson?_toJson (production : Production) (budget : Nat) :
    ofJson? budget production.toJson =
      if production.toJson.depth ≤ budget then some production else none :=
  ofJson?_toJson_of_children (fun child _ => child.ofJson?_toJson) budget

/-! ## The nesting of what is read -/

theorem nestingIn_of_mapM {items : List Value} {read : Value → Option Element} {limit : Nat}
    (hread : ∀ item child, read item = some child → child.nesting ≤ limit)
    {children : List Element} (h : items.mapM read = some children) :
    nestingIn children ≤ limit := by
  induction items generalizing children with
  | nil =>
      obtain rfl : [] = children := by simpa using h
      simp [nestingIn]
  | cons item items ih =>
      simp only [List.mapM_cons, Option.bind_eq_bind, Option.bind_eq_some_iff] at h
      obtain ⟨child, hchild, others, hothers, h⟩ := h
      cases h
      exact Nat.max_le.mpr ⟨hread item child hchild, ih hothers⟩

mutual

/-- Three containers are spent on each production that holds another, and one on the innermost. -/
theorem Production.nesting_of_ofJson? {budget : Nat} {value : Value} {production : Production}
    (h : Production.ofJson? budget value = some production) :
    3 * production.nesting ≤ budget + 2 := by
  match budget with
  | 0 => cases h
  | budget + 1 =>
      rw [Production.ofJson?] at h
      obtain ⟨fields, hfields, h⟩ := Option.bind_eq_some_iff.mp h
      split at h
      next rule line column children =>
        obtain ⟨rule, hrule, h⟩ := Option.bind_eq_some_iff.mp h
        obtain ⟨line, hline, h⟩ := Option.bind_eq_some_iff.mp h
        obtain ⟨column, hcolumn, h⟩ := Option.bind_eq_some_iff.mp h
        split at h
        next =>
          cases h
          simp [Production.nesting, nestingIn]
        next children =>
          obtain ⟨children, hchildren, h⟩ := Option.bind_eq_some_iff.mp h
          cases h
          have hnested := nestingIn_of_children? hchildren
          rw [Production.nesting]
          omega
      next => cases h

theorem nestingIn_of_children? {budget : Nat} {value : Value} {children : List Element}
    (h : children? budget value = some children) : 3 * nestingIn children ≤ budget := by
  match budget, value with
  | budget + 1, .array items =>
      rw [children?] at h
      have hnested : nestingIn children ≤ (budget + 1) / 3 := by
        refine nestingIn_of_mapM (fun item child hchild => ?_) h
        have helement := Element.nesting_of_ofJson? hchild
        omega
      omega
  | 0, _ => cases h
  | _ + 1, .null | _ + 1, .bool _ | _ + 1, .number _ | _ + 1, .string _ | _ + 1, .object _ =>
      cases h

theorem Element.nesting_of_ofJson? {budget : Nat} {value : Value} {element : Element}
    (h : Element.ofJson? budget value = some element) : 3 * element.nesting ≤ budget + 1 := by
  match budget with
  | 0 => cases h
  | budget + 1 =>
      rw [Element.ofJson?] at h
      obtain ⟨tagged, htagged, h⟩ := Option.bind_eq_some_iff.mp h
      split at h
      next =>
        obtain ⟨production, hproduction, h⟩ := Option.bind_eq_some_iff.mp h
        cases h
        exact Production.nesting_of_ofJson? hproduction
      next =>
        obtain ⟨token, htoken, h⟩ := Option.bind_eq_some_iff.mp h
        cases h
        simp [Element.nesting]
      next => cases h

end

end MiniC.ParseTree
