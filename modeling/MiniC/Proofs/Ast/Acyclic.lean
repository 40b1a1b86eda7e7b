import Mathlib.Logic.Relation
import Mathlib.Order.WellFoundedSet
import MiniC.Proofs.Ast.Changes

/-!
# Cycles in arenas

`Arena.attach` looks at the two nodes that it is given: the child must be another node
and must not have a parent.  It does not look further up.  So the root of a tree may be
attached to a node of that same tree, and from then on these nodes are above each other
(`cycle_of_attached_root`).

That is the only way to a cycle.  A list of changes is `Orderly` if no attachment in it
puts a node below itself, and the arenas without cycles are those of orderly lists
(`acyclic_changeAll`, `acyclic_iff_orderly`).  A step changes one parent link, so that a
path after it is a path from before, with at most one detour over the new link
(`Below.of_link`).

Arenas are finite, so that without a cycle the way up from each node comes to an end, and
so does each way down (`exists_root_iff_acyclic`, `wellFounded_children_iff_acyclic`).
-/

namespace MiniC.Ast

namespace Arena

open Relation (ReflTransGen TransGen)

variable {arena : Arena} {parent child slot id : Nat}

/-- One node names another one as its parent. -/
def ChildOf (arena : Arena) (child parent : Nat) : Prop := arena.parentOf? child = some parent

/-- One node is below another: parent links lead up to it in one or more steps. -/
def Below (arena : Arena) : Nat → Nat → Prop := TransGen arena.ChildOf

/-- No node is below itself. -/
def Acyclic (arena : Arena) : Prop := ∀ id, ¬ arena.Below id id

/-- A change that attaches a node below itself. -/
def Closes (arena : Arena) : Change → Prop
  | .attach parent child slot =>
      (∃ after, arena.attach parent child slot = .ok after) ∧ arena.Below parent child
  | .create _ _ | .setRoot _ => False

/-- Changes none of which attaches a node below itself. -/
def Orderly : Arena → List Change → Prop
  | _, [] => True
  | arena, change :: changes => ¬ arena.Closes change ∧ (arena.change change).Orderly changes

/-! ## One change -/

theorem acyclic_empty : empty.Acyclic := by
  intro id hbelow
  obtain ⟨parent, hlink, -⟩ := TransGen.head'_iff.mp hbelow
  cases hlink

/-- Arenas with the same parent links have the same cycles. -/
theorem acyclic_congr (arena : Arena) {other : Arena}
    (h : ∀ id, other.parentOf? id = arena.parentOf? id) : other.Acyclic ↔ arena.Acyclic := by
  have hlinks : other.ChildOf = arena.ChildOf := by
    funext child parent
    rw [ChildOf, ChildOf, h child]
  rw [Acyclic, Acyclic, Below, Below, hlinks]

section Link

variable (hchild : child < arena.size)
include hchild

theorem childOf_link : (arena.link parent child slot).ChildOf child parent := by
  rw [ChildOf, parentOf?_link hchild, if_pos rfl]

/-- A link is one from before, or the new one. -/
theorem ChildOf.of_link {low high : Nat} (h : (arena.link parent child slot).ChildOf low high) :
    arena.ChildOf low high ∨ (low = child ∧ high = parent) := by
  rw [ChildOf, parentOf?_link hchild] at h
  split at h
  next hsame =>
    cases h
    exact .inr ⟨hsame.symm, rfl⟩
  next => exact .inl h

/-- A path up takes the new link at most once, unless the child is above its parent. -/
theorem Below.of_link (hopen : ¬ ReflTransGen arena.ChildOf parent child) {low high : Nat}
    (h : (arena.link parent child slot).Below low high) :
    arena.Below low high ∨
      (ReflTransGen arena.ChildOf low child ∧ ReflTransGen arena.ChildOf parent high) := by
  induction h with
  | single hlink =>
      rcases ChildOf.of_link hchild hlink with hold | ⟨rfl, rfl⟩
      · exact .inl (.single hold)
      · exact .inr ⟨.refl, .refl⟩
  | tail _ hlink ih =>
      rcases ChildOf.of_link hchild hlink with hold | ⟨rfl, rfl⟩
      · rcases ih with hbelow | ⟨hlow, hhigh⟩
        · exact .inl (hbelow.tail hold)
        · exact .inr ⟨hlow, hhigh.tail hold⟩
      · rcases ih with hbelow | ⟨-, hhigh⟩
        · exact .inr ⟨hbelow.to_reflTransGen, .refl⟩
        · exact absurd hhigh hopen

variable (hfree : arena.parentOf? child = none)
include hfree

/-- The links from before are still there. -/
theorem ChildOf.link {low high : Nat} (h : arena.ChildOf low high) :
    (arena.link parent child slot).ChildOf low high := by
  have hne : child ≠ low := by
    rintro rfl
    rw [ChildOf, hfree] at h
    cases h
  rw [ChildOf, parentOf?_link hchild, if_neg hne]
  exact h

/-- A new link makes a cycle if the child was above its parent. -/
theorem acyclic_link_iff (hne : parent ≠ child) :
    (arena.link parent child slot).Acyclic ↔ arena.Acyclic ∧ ¬ arena.Below parent child := by
  have hkept : ∀ low high, arena.ChildOf low high →
      (arena.link parent child slot).ChildOf low high :=
    fun _ _ => ChildOf.link hchild hfree
  constructor
  · intro acyclic
    refine ⟨fun id hbelow => acyclic id (TransGen.mono hkept _ _ hbelow), ?_⟩
    intro hbelow
    exact acyclic parent ((TransGen.mono hkept _ _ hbelow).tail (childOf_link hchild))
  · rintro ⟨acyclic, hnot⟩ id hbelow
    have hopen : ¬ ReflTransGen arena.ChildOf parent child := by
      intro hpath
      rcases Relation.reflTransGen_iff_eq_or_transGen.mp hpath with heq | hbelow
      · exact hne heq.symm
      · exact hnot hbelow
    rcases Below.of_link hchild hopen hbelow with hold | ⟨hlow, hhigh⟩
    · exact acyclic id hold
    · exact hopen (hhigh.trans hlow)

end Link

/-- A change leaves an arena without cycles if it had none and the change closes none. -/
theorem acyclic_change_iff (change : Change) :
    (arena.change change).Acyclic ↔ arena.Acyclic ∧ ¬ arena.Closes change := by
  cases change with
  | create kind location =>
      have hsame := acyclic_congr arena (parentOf?_create arena kind location)
      simpa [Arena.change, Closes] using hsame
  | setRoot id =>
      have hsame : (arena.setRoot id).Acyclic ↔ arena.Acyclic := acyclic_congr arena fun _ => rfl
      simpa [Arena.change, Closes] using hsame
  | attach parent child slot =>
      cases hattach : arena.attach parent child slot with
      | error refused => simp [Arena.change, Closes, hattach, Except.toOption]
      | ok after =>
          obtain ⟨node, hparent, hchild, hslot, hne, hfree, rfl⟩ := attach_eq_ok_iff.mp hattach
          simp [Arena.change, Closes, hattach, Except.toOption, acyclic_link_iff hchild hfree hne]

/-! ## Any changes -/

theorem acyclic_changeAll (changes : List Change) :
    (arena.changeAll changes).Acyclic ↔ arena.Acyclic ∧ arena.Orderly changes := by
  induction changes generalizing arena with
  | nil => simp [changeAll, Orderly]
  | cons change changes ih =>
      show ((arena.change change).changeAll changes).Acyclic ↔ _
      rw [ih, acyclic_change_iff, Orderly, and_assoc]

/-! ## Ways up and down -/

/-- Steps between the nodes of an arena come to an end if they never come back. -/
theorem wellFounded_of_irrefl {step : Nat → Nat → Prop}
    (hlt : ∀ low high, step low high → low < arena.size ∧ high < arena.size)
    (hirrefl : ∀ id, ¬ TransGen step id id) : WellFounded step := by
  have : IsStrictOrder Nat (TransGen step) :=
    { irrefl := hirrefl, trans := fun _ _ _ => TransGen.trans }
  have hnodes : (Set.Iio arena.size).WellFoundedOn (TransGen step) :=
    (Set.finite_Iio arena.size).wellFoundedOn
  refine Subrelation.wf (fun {low high} hstep => ?_) (Set.wellFoundedOn_iff.mp hnodes)
  exact ⟨.single hstep, hlt low high hstep⟩

/-- What is above a node on a cycle is on the cycle. -/
theorem Below.self_of_reaches {high : Nat} (hcycle : arena.Below id id)
    (h : ReflTransGen arena.ChildOf id high) : arena.Below high high := by
  induction h with
  | refl => exact hcycle
  | tail _ hlink ih =>
      obtain ⟨next, hnext, hback⟩ := TransGen.head'_iff.mp ih
      -- a node names one parent only
      obtain rfl := Option.some.inj (hlink.symm.trans hnext)
      exact TransGen.tail' hback hlink

namespace Linked

variable (linked : arena.Linked)
include linked

theorem lt_size_of_childOf {low high : Nat} (h : arena.ChildOf low high) :
    low < arena.size ∧ high < arena.size :=
  ⟨lt_size_of_parentOf? h, linked.parent_lt h⟩

/-- Without a cycle, and only then, each node is below a node without a parent. -/
theorem exists_root_iff_acyclic :
    (∀ id < arena.size, ∃ root, ReflTransGen arena.ChildOf id root ∧
      arena.parentOf? root = none) ↔ arena.Acyclic := by
  constructor
  · intro hroots id hcycle
    obtain ⟨first, hfirst, -⟩ := TransGen.head'_iff.mp hcycle
    obtain ⟨root, hreaches, hnone⟩ := hroots id (lt_size_of_parentOf? hfirst)
    obtain ⟨next, hnext, -⟩ := TransGen.head'_iff.mp (hcycle.self_of_reaches hreaches)
    rw [ChildOf, hnone] at hnext
    cases hnext
  · rintro acyclic id -
    have hup : WellFounded (Function.swap arena.ChildOf) := by
      refine wellFounded_of_irrefl (fun high low h => (linked.lt_size_of_childOf h).symm) ?_
      exact fun id hcycle => acyclic id (Relation.transGen_swap.mp hcycle)
    induction id using hup.induction with
    | _ id ih =>
        cases hparent : arena.parentOf? id with
        | none => exact ⟨id, .refl, hparent⟩
        | some parent =>
            obtain ⟨root, hreaches, hnone⟩ := ih parent hparent
            exact ⟨root, hreaches.head hparent, hnone⟩

/-- Without a cycle, and only then, each way down along listed children comes to an end. -/
theorem wellFounded_children_iff_acyclic :
    WellFounded (fun child parent => child ∈ arena.childrenOf parent) ↔ arena.Acyclic := by
  have hlisted : (fun child parent => child ∈ arena.childrenOf parent) = arena.ChildOf := by
    funext child parent
    exact propext linked.mem_childrenOf_iff
  rw [hlisted]
  constructor
  · intro hdown id hcycle
    exact hdown.transGen.irrefl.irrefl id hcycle
  · exact wellFounded_of_irrefl fun low high => linked.lt_size_of_childOf

end Linked

/-! ## The main statement -/

/-- **When arenas have no cycles.**  After any changes to an empty arena, no node is below
itself if and only if none of the changes has attached a node below itself.  This is also
when parent links lead from each node up to one without a parent, and when each way down
along listed children comes to an end. -/
theorem acyclic_iff_orderly (changes : List Change) :
    let arena := empty.changeAll changes
    ((∀ id, ¬ arena.Below id id) ↔ empty.Orderly changes) ∧
      ((∀ id < arena.size, ∃ root, ReflTransGen arena.ChildOf id root ∧
        arena.parentOf? root = none) ↔ empty.Orderly changes) ∧
      (WellFounded (fun child parent => child ∈ arena.childrenOf parent) ↔
        empty.Orderly changes) := by
  intro arena
  have linked : arena.Linked := linked_empty.changeAll changes
  have hacyclic : arena.Acyclic ↔ empty.Orderly changes := by
    rw [acyclic_changeAll]
    exact and_iff_right acyclic_empty
  exact ⟨hacyclic, linked.exists_root_iff_acyclic.trans hacyclic,
    linked.wellFounded_children_iff_acyclic.trans hacyclic⟩

/-- Two blocks, of which the second one takes the first one and is then taken by it. -/
def crossed : List Change :=
  [.create .block .unknown, .create .block .unknown, .attach 1 0 0, .attach 0 1 0]

/-- Two nodes that are attached to each other: both attachments are accepted, and there is
no way up to a node without a parent, and no end to the ways down. -/
theorem cycle_of_attached_root :
    let arena := empty.changeAll crossed
    arena.parentOf? 0 = some 1 ∧ arena.parentOf? 1 = some 0 ∧ arena.Below 0 0 ∧
      (¬ ∃ root, ReflTransGen arena.ChildOf 0 root ∧ arena.parentOf? root = none) ∧
      ¬ WellFounded (fun child parent => child ∈ arena.childrenOf parent) := by
  intro arena
  have hfirst : arena.parentOf? 0 = some 1 := by decide
  have hsecond : arena.parentOf? 1 = some 0 := by decide
  have hcycle : arena.Below 0 0 := .tail (.single hfirst) hsecond
  have linked : arena.Linked := linked_empty.changeAll crossed
  refine ⟨hfirst, hsecond, hcycle, ?_, fun hdown => ?_⟩
  · rintro ⟨root, hreaches, hnone⟩
    obtain ⟨next, hnext, -⟩ := TransGen.head'_iff.mp (hcycle.self_of_reaches hreaches)
    rw [ChildOf, hnone] at hnext
    cases hnext
  · exact linked.wellFounded_children_iff_acyclic.mp hdown 0 hcycle

end Arena

end MiniC.Ast
