import MiniC.Proofs.Reading.Positions.Gaps

/-!
# Readings that depend on one part

A production is read from several parts, of which one may be exchanged.  Whatever stands there,
the other parts are in order or they are not.  If one of them is not, then the production is
refused with any part, and if all are in order, then what is read of the production is read of
the part first (`Depends`).
-/

namespace MiniC

open ParseTree
open Ast (Tree)

/-! ## One part of a reading -/

section Depends

variable {ι α β γ : Type} {allowed : ι → Prop} {read : ι → Reading α} {whole other : ι → Reading β}
  {keeps : (α → β) → Prop}

/-- A whole is refused with each allowed part, or it is read as a change of what the part is read
as. -/
def Depends (allowed : ι → Prop) (read : ι → Reading α) (whole : ι → Reading β)
    (keeps : (α → β) → Prop) : Prop :=
  (∀ part, allowed part → ∃ malformation, whole part = .error malformation) ∨
    ∃ change, keeps change ∧ ∀ part, allowed part → whole part = change <$> read part

theorem Depends.of_error (malformation : Malformation)
    (h : ∀ part, allowed part → whole part = .error malformation) :
    Depends allowed read whole keeps :=
  .inl fun part hpart => ⟨malformation, h part hpart⟩

theorem Depends.of_eq {change : α → β} (hkeeps : keeps change)
    (h : ∀ part, allowed part → whole part = change <$> read part) :
    Depends allowed read whole keeps :=
  .inr ⟨change, hkeeps, h⟩

theorem Depends.congr (heq : ∀ part, allowed part → whole part = other part)
    (h : Depends allowed read other keeps) : Depends allowed read whole keeps := by
  rcases h with h | ⟨change, hkeeps, h⟩
  · exact .inl fun part hpart => heq part hpart ▸ h part hpart
  · exact .inr ⟨change, hkeeps, fun part hpart => (heq part hpart).trans (h part hpart)⟩

/-- What is read before the rest does not depend on the part. -/
theorem Depends.bind {first : Reading γ} {next : γ → ι → Reading β}
    (h : ∀ value, first = .ok value → Depends allowed read (next value) keeps) :
    Depends allowed read (fun part => first >>= fun value => next value part) keeps := by
  cases hfirst : first with
  | error malformation => exact .of_error malformation fun _ _ => rfl
  | ok value => exact h value hfirst

/-- A part that must be present is so or not, whatever is read after it. -/
theorem Depends.required {file name : String} {production : Production} {found : Option γ}
    {next : γ → ι → Reading β}
    (h : ∀ value, found = some value → Depends allowed read (next value) keeps) :
    Depends allowed read
      (fun part => production.required file name found >>= fun value => next value part) keeps := by
  cases hfound : found with
  | none => exact .of_error _ fun _ _ => rfl
  | some value => exact h value hfound

/-- The part is read before another one that does not depend on it. -/
theorem Depends.before {last : Reading γ} {combine : α → γ → β}
    (hkeeps : ∀ value, keeps (combine · value)) :
    Depends allowed read
      (fun part => read part >>= fun found => last >>= fun value => pure (combine found value))
      keeps := by
  -- what is read after the part is refused with any part, or with none
  cases last with
  | error malformation =>
      refine .inl ?_
      intro part _
      show ∃ reason, (read part >>= fun _ => .error malformation) = .error reason
      cases read part with
      | error reason => exact ⟨reason, rfl⟩
      | ok found => exact ⟨malformation, rfl⟩
  | ok value =>
      refine .of_eq (hkeeps value) ?_
      intro part _
      cases read part <;> rfl

/-- What is read of the part may be changed once more. -/
theorem Depends.map {change : β → γ} {keepsAll : (α → γ) → Prop}
    (h : Depends allowed read whole keeps)
    (hkeeps : ∀ inner, keeps inner → keepsAll fun found => change (inner found)) :
    Depends allowed read (fun part => change <$> whole part) keepsAll := by
  rcases h with h | ⟨inner, hinner, h⟩
  · refine .inl ?_
    intro part hpart
    obtain ⟨malformation, hmalformation⟩ := h part hpart
    exact ⟨malformation, congrArg (change <$> ·) hmalformation⟩
  · refine .of_eq (hkeeps inner hinner) ?_
    intro part hpart
    refine (congrArg (change <$> ·) (h part hpart)).trans ?_
    cases read part <;> rfl

/-- The part may be read as a change of something that is read of it. -/
theorem Depends.comap {found : ι → Reading γ} {change : α → γ} {keepsFound : (γ → β) → Prop}
    (heq : ∀ part, allowed part → found part = change <$> read part)
    (h : Depends allowed found whole keepsFound)
    (hkeeps : ∀ outer, keepsFound outer → keeps fun value => outer (change value)) :
    Depends allowed read whole keeps := by
  rcases h with h | ⟨outer, houter, h⟩
  · exact .inl h
  · refine .of_eq (hkeeps outer houter) ?_
    intro part hpart
    rw [h part hpart, heq part hpart]
    cases read part <;> rfl

/-- What is found is put between other values. -/
def Inserts (change : α → List α) : Prop :=
  ∃ before after, ∀ found, change found = before ++ found :: after

/-- One of the elements of a list is exchanged. -/
theorem Depends.mapM {element : γ → Reading α} {find : ι → γ} {front back : List γ}
    (h : ∀ part, allowed part → element (find part) = read part) :
    Depends allowed read (fun part => (front ++ find part :: back).mapM element) Inserts := by
  have heq : ∀ part, allowed part → (front ++ find part :: back).mapM element =
      front.mapM element >>= fun before => read part >>= fun found =>
        back.mapM element >>= fun after => pure (before ++ found :: after) := by
    intro part hpart
    rw [List.mapM_append, List.mapM_cons, h part hpart]
    simp
  refine .congr heq (.bind fun before _ => .before fun after => ?_)
  exact ⟨before, after, fun _ => rfl⟩

end Depends

end MiniC
