import MiniC.Proofs.Emission.Operations

/-!
# Positions of emission nodes

A position is a place in a list of a composite.  An emission is `Placed` if each listed
node comes after its composite, names it as its parent and has no other position.
Neither adding a node nor changing one without its lists moves anything.  Appending a child
fills one free position (`listedAt?_append`), so that a node that is in no list may be
appended to one of a composite before it (`Placed.adopt`).
-/

namespace MiniC.Emission

/-- A place in the list of a context of a composite. -/
structure Position where
  composite : Nat
  context : Context
  index : Nat
deriving DecidableEq

/-- The nodes listed in a context of a node. -/
def listed (emission : Emission) (id : Nat) (context : Context) : List Nat :=
  (emission.nodes[id]?.bind (·.body.children? context)).getD []

/-- The node at a position. -/
def listedAt? (emission : Emission) (position : Position) : Option Nat :=
  (emission.listed position.composite position.context)[position.index]?

/-- No list holds the node. -/
def Loose (emission : Emission) (id : Nat) : Prop :=
  ∀ position, emission.listedAt? position ≠ some id

/-- The lists of a body, if it has some, hold nothing. -/
def Childless (body : Nat → Body) : Prop :=
  ∀ nesting context, ((body nesting).children? context).getD [] = []

/-- Each listed node comes after the composite whose list it is in, has that one as its
parent, and has one position only. -/
structure Placed (emission : Emission) : Prop where
  later : ∀ {position child}, emission.listedAt? position = some child → position.composite < child
  parent : ∀ {position child}, emission.listedAt? position = some child →
    ∃ node, emission.nodes[child]? = some node ∧ node.parent = some position.composite
  unique : ∀ {position other child}, emission.listedAt? position = some child →
    emission.listedAt? other = some child → other = position

/-- A placed emission in which each node has the nesting again that it was created at. -/
structure IsStrictTree (emission : Emission) : Prop extends Placed emission where
  level : ∀ {id : Nat} {node : Node}, emission.nodes[id]? = some node → node.nesting = node.base

variable {emission before after : Emission} {id parent child : Nat} {node : Node}
  {context : Context}

theorem listed_of_some (hnode : emission.nodes[id]? = some node) (context : Context) :
    emission.listed id context = (node.body.children? context).getD [] := by
  rw [listed, hnode, Option.bind_some]

theorem mem_listed_iff : child ∈ emission.listed id context ↔
    ∃ index, emission.listedAt? ⟨id, context, index⟩ = some child :=
  List.mem_iff_getElem?

/-! ## Placed emissions -/

theorem placed_empty (options : Asm.Options) : (empty options).Placed := by
  have hnone (position : Position) : (empty options).listedAt? position = none := by
    obtain ⟨composite, context, index⟩ := position
    cases composite with
    | zero => cases context <;> rfl
    | succ composite => rfl
  constructor <;> intro position <;> simp [hnone]

/-- Emissions with the same lists, where listed nodes keep their parents. -/
theorem Placed.congr (placed : before.Placed)
    (hlisted : ∀ position, after.listedAt? position = before.listedAt? position)
    (hparent : ∀ id node, ¬ before.Loose id → before.nodes[id]? = some node →
      ∃ other, after.nodes[id]? = some other ∧ other.parent = node.parent) : after.Placed := by
  refine ⟨?_, ?_, ?_⟩
  · intro position child h
    rw [hlisted] at h
    exact placed.later h
  · intro position child h
    rw [hlisted] at h
    obtain ⟨node, hnode, hnodeParent⟩ := placed.parent h
    obtain ⟨other, hother, hsame⟩ := hparent child node (fun loose => loose position h) hnode
    exact ⟨other, hother, hsame.trans hnodeParent⟩
  · intro position other child h hother
    rw [hlisted] at h hother
    exact placed.unique h hother

/-- What has no node yet is in no list. -/
theorem Placed.loose_of_size_le (placed : emission.Placed) (h : emission.nodes.size ≤ id) :
    emission.Loose id := by
  intro position hlisted
  obtain ⟨node, hnode, -⟩ := placed.parent hlisted
  have := lt_size_of_some hnode
  omega

/-- The file stands before all other nodes. -/
theorem Placed.loose_file (placed : emission.Placed) : emission.Loose fileId := by
  intro position hlisted
  exact Nat.not_lt_zero _ (placed.later hlisted)

theorem Placed.of_mem_listed (placed : emission.Placed) (h : child ∈ emission.listed id context) :
    id < child ∧ ∃ node, emission.nodes[child]? = some node ∧ node.parent = some id := by
  obtain ⟨index, hposition⟩ := mem_listed_iff.mp h
  exact ⟨placed.later hposition, placed.parent hposition⟩

theorem loose_congr (hlisted : ∀ position, after.listedAt? position = before.listedAt? position) :
    after.Loose id ↔ before.Loose id := by
  simp only [Loose, hlisted]

/-! ## Lists under the operations -/

theorem listedAt?_push {body : Nat → Body} (hbody : Childless body) (position : Position) :
    (emission.push parent body).listedAt? position = emission.listedAt? position := by
  have hlisted : (emission.push parent body).listed position.composite position.context =
      emission.listed position.composite position.context := by
    -- an old node, the new one, which has no children yet, or none at all
    rcases Nat.lt_trichotomy position.composite emission.nodes.size with hlt | heq | hgt
    · rw [listed, getElem?_push_old _ _ _ hlt, listed]
    · rw [heq, listed_of_some (getElem?_push_new _ _ _), hbody, listed,
        Array.getElem?_eq_none (Nat.le_refl _)]
      rfl
    · rw [listed, listed, Array.getElem?_eq_none (by rw [size_push]; exact hgt),
        Array.getElem?_eq_none (Nat.le_of_lt hgt)]
  rw [listedAt?, hlisted, listedAt?]

theorem listedAt?_modifyNode (emission : Emission) (id : Nat) (change : Node → Node)
    (hchange : ∀ node, emission.nodes[id]? = some node →
      ∀ context, (change node).body.children? context = node.body.children? context)
    (position : Position) :
    (emission.modifyNode id change).listedAt? position = emission.listedAt? position := by
  have hlisted : (emission.modifyNode id change).listed position.composite position.context =
      emission.listed position.composite position.context := by
    rw [listed, listed, getElem?_modifyNode]
    split
    next heq =>
      subst heq
      cases hnode : emission.nodes[position.composite]? with
      | none => rfl
      | some node => exact congrArg (·.getD []) (hchange node hnode position.context)
    next => rfl
  rw [listedAt?, hlisted, listedAt?]

/-- An appended child has the position after the last one. -/
theorem listedAt?_append {ids : List Nat} (hparent : emission.nodes[parent]? = some node)
    (hcontext : node.body.children? context = some ids) (position : Position) :
    (emission.modifyNode parent fun node =>
        { node with body := node.body.append child context }).listedAt? position =
      if position = ⟨parent, context, ids.length⟩ then some child
      else emission.listedAt? position := by
  obtain ⟨composite, other, index⟩ := position
  -- another composite, another context and another index have their own positions
  by_cases hcomposite : parent = composite
  · subst hcomposite
    have hchanged := getElem?_modifyNode_self emission parent fun node =>
      { node with body := node.body.append child context }
    rw [hparent, Option.map_some] at hchanged
    simp only [listedAt?, listed_of_some hchanged, listed_of_some hparent]
    by_cases hother : context = other
    · subst hother
      rw [children?_append hcontext, hcontext]
      simp only [Option.getD_some, Position.mk.injEq, true_and]
      rw [List.getElem?_append]
      grind
    · rw [children?_append_of_ne hother, if_neg (by simp [Ne.symm hother])]
  · simp only [listedAt?, listed, getElem?_modifyNode_of_ne _ _ _ hcomposite]
    rw [if_neg (by simp [Ne.symm hcomposite])]

/-- An emission with one more child in a context of a composite. -/
def adopt (emission : Emission) (parent child : Nat) (context : Context) : Emission :=
  (emission.modifyNode parent fun node => { node with body := node.body.append child context })
    |>.modifyNode child fun node => { node with parent := some parent }

@[simp] theorem size_adopt :
    (emission.adopt parent child context).nodes.size = emission.nodes.size := by
  simp [adopt]

theorem listedAt?_adopt {ids : List Nat} (hparent : emission.nodes[parent]? = some node)
    (hcontext : node.body.children? context = some ids) (child : Nat) (position : Position) :
    (emission.adopt parent child context).listedAt? position =
      if position = ⟨parent, context, ids.length⟩ then some child
      else emission.listedAt? position := by
  rw [adopt, listedAt?_modifyNode _ child (fun node => { node with parent := some parent })
    fun _ _ _ => rfl, listedAt?_append hparent hcontext]

/-- No node gets another level, and none but the child another parent. -/
theorem exists_node_adopt (hnode : emission.nodes[id]? = some node) :
    ∃ other, (emission.adopt parent child context).nodes[id]? = some other ∧
      other.base = node.base ∧ other.nesting = node.nesting ∧
      other.parent = if child = id then some parent else node.parent := by
  rw [adopt, getElem?_modifyNode, getElem?_modifyNode, hnode]
  split <;> split <;> exact ⟨_, rfl, rfl, rfl, rfl⟩

section Adopt

variable {ids : List Nat} (hparent : emission.nodes[parent]? = some node)
  (hcontext : node.body.children? context = some ids)
include hparent hcontext

theorem Loose.adopt (hloose : emission.Loose id) (hne : id ≠ child) :
    (emission.adopt parent child context).Loose id := by
  intro position
  rw [listedAt?_adopt hparent hcontext]
  split
  · exact fun heq => hne (Option.some.inj heq).symm
  · exact hloose position

/-- A node that is in no list may be appended to one of a composite before it. -/
theorem Placed.adopt (placed : emission.Placed) (hlater : parent < child)
    (hlt : child < emission.nodes.size) (hloose : emission.Loose child) :
    (emission.adopt parent child context).Placed := by
  have hlisted := listedAt?_adopt hparent hcontext child
  refine ⟨?_, ?_, ?_⟩
  · intro position other hother
    rw [hlisted] at hother
    split at hother
    next heq =>
      cases heq
      cases hother
      exact hlater
    next => exact placed.later hother
  · intro position other hother
    rw [hlisted] at hother
    split at hother
    next heq =>
      cases heq
      cases hother
      obtain ⟨old, hold⟩ := exists_node_of_lt hlt
      obtain ⟨last, hlast, -, -, hlastParent⟩ := exists_node_adopt hold
      exact ⟨last, hlast, hlastParent.trans (if_pos rfl)⟩
    next =>
      obtain ⟨old, hold, holdParent⟩ := placed.parent hother
      obtain ⟨last, hlast, -, -, hlastParent⟩ := exists_node_adopt hold
      have hne : child ≠ other := by
        rintro rfl
        exact hloose position hother
      exact ⟨last, hlast, by rw [hlastParent, if_neg hne, holdParent]⟩
  · intro position place other hposition hplace
    rw [hlisted] at hposition hplace
    -- both positions are the new one, or both old ones; the child has no old position
    split at hposition <;> split at hplace
    next heq hsame => rw [heq, hsame]
    next =>
      cases hposition
      exact absurd hplace (hloose place)
    next =>
      cases hplace
      exact absurd hposition (hloose position)
    next => exact placed.unique hposition hplace

end Adopt

end MiniC.Emission
