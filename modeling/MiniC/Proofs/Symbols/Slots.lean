import Mathlib.Data.List.Perm.Subperm
import MiniC.Symbols.Frame

/-!
# Slots in the order of first declaration

A frame keeps each name once, in the order of the first declarations.  So what it knows
is a function of the names as they were declared, repetitions included
(`Frame.Records`): the slot of a name is given by its `position`, the number of different
names declared before it.

Offsets are computed with 32 bits.  They are the numbers that they should be as long as
the slots are within reach of a signed offset.
-/

namespace MiniC

open Asm (Operand)

/-! ## Positions -/

section Positions

variable {names front rest : List String} {name : String}

/-- The number of different names before the first occurrence of a name. -/
def position (names : List String) (name : String) : Nat :=
  (names.takeWhile (· ≠ name)).eraseDups.length

theorem position_of_first (h : name ∉ front) :
    position (front ++ name :: rest) name = front.eraseDups.length := by
  have hfront : ∀ other ∈ front, decide (other ≠ name) = true := by
    intro other hother
    apply decide_eq_true
    rintro rfl
    exact h hother
  unfold position
  rw [List.takeWhile_append_of_pos hfront, List.takeWhile_cons_of_neg (by simp), List.append_nil]

/-- A name that is there only once comes after those before it. -/
theorem position_of_count_eq_one {index : Nat} (hindex : index < names.length)
    (h : names.count names[index] = 1) :
    position names names[index] = (names.take index).eraseDups.length := by
  have hsplit : names = names.take index ++ names[index] :: names.drop (index + 1) := by
    rw [List.getElem_cons_drop, List.take_append_drop]
  have hfirst : names[index] ∉ names.take index := by
    intro hmem
    have hbefore := List.count_pos_iff.mpr hmem
    have hcount := congrArg (List.count names[index]) hsplit
    rw [List.count_append, List.count_cons_self] at hcount
    omega
  calc position names names[index]
      = position (names.take index ++ names[index] :: names.drop (index + 1)) names[index] :=
        congrArg (position · names[index]) hsplit
    _ = (names.take index).eraseDups.length := position_of_first hfirst

/-- What comes later does not matter. -/
theorem position_append (h : name ∈ names) (rest : List String) :
    position (names ++ rest) name = position names name := by
  obtain ⟨front, back, rfl, hfirst⟩ := List.eq_append_cons_of_mem h
  rw [List.append_assoc, List.cons_append, position_of_first hfirst, position_of_first hfirst]

theorem eraseDups_snoc (names : List String) (name : String) :
    (names ++ [name]).eraseDups =
      if name ∈ names then names.eraseDups else names.eraseDups ++ [name] := by
  rw [List.eraseDups_append]
  by_cases h : name ∈ names
  · simp [List.removeAll, h]
  · simp [List.removeAll, h, List.eraseDups_cons]

/-- The place of a name among the different ones. -/
theorem idxOf?_eraseDups (names : List String) (name : String) :
    names.eraseDups.idxOf? name = if name ∈ names then some (position names name) else none := by
  by_cases h : name ∈ names
  · obtain ⟨front, rest, rfl, hfirst⟩ := List.eq_append_cons_of_mem h
    have hrest : (name :: rest).removeAll front = name :: rest.removeAll front := by
      simp [List.removeAll, hfirst]
    have hnone : front.eraseDups.idxOf? name = none := by
      rw [List.idxOf?_eq_none_iff, List.mem_eraseDups]
      exact hfirst
    rw [if_pos h, position_of_first hfirst, List.eraseDups_append, hrest, List.eraseDups_cons]
    unfold List.idxOf? at hnone ⊢
    rw [List.findIdx?_append, hnone]
    simp [List.findIdx?_cons]
  · rw [if_neg h, List.idxOf?_eq_none_iff, List.mem_eraseDups]
    exact h

theorem position_lt (h : name ∈ names) : position names name < names.eraseDups.length := by
  have hposition := idxOf?_eraseDups names name
  rw [if_pos h] at hposition
  obtain ⟨hlt, -⟩ := List.idxOf?_eq_some_iff.mp hposition
  exact hlt

/-- Different names have different positions. -/
theorem eq_of_position_eq {other : String} (h : name ∈ names) (hother : other ∈ names)
    (heq : position names name = position names other) : name = other := by
  have hname := idxOf?_eraseDups names name
  have hsame := idxOf?_eraseDups names other
  rw [if_pos h, List.idxOf?_eq_some_iff] at hname
  rw [if_pos hother, ← heq, List.idxOf?_eq_some_iff] at hsame
  obtain ⟨_, hname, -⟩ := hname
  obtain ⟨_, hsame, -⟩ := hsame
  exact hname.symm.trans hsame

theorem nodup_eraseDups (names : List String) : names.eraseDups.Nodup := by
  match names with
  | [] => exact List.nodup_nil
  | name :: names =>
      rw [List.eraseDups_cons, List.nodup_cons]
      constructor
      · rw [List.mem_eraseDups]
        simp
      · exact nodup_eraseDups (names.filter fun other => !other == name)
termination_by names.length
decreasing_by
  have hle := List.length_filter_le (fun other => !other == name) names
  simp only [List.length_cons]
  omega

/-- The different names are at their positions. -/
theorem position_getElem_eraseDups (names : List String) (index : Nat)
    (h : index < names.eraseDups.length) : position names names.eraseDups[index] = index := by
  have hmem : names.eraseDups[index] ∈ names := List.mem_eraseDups.mp (List.getElem_mem h)
  have hposition := idxOf?_eraseDups names names.eraseDups[index]
  rw [if_pos hmem] at hposition
  obtain ⟨hlt, heq, hfirst⟩ := List.idxOf?_eq_some_iff.mp hposition
  have hle : ¬ index < position names names.eraseDups[index] := fun hlt => hfirst index hlt rfl
  have hge : ¬ position names names.eraseDups[index] < index := fun hlt =>
    List.pairwise_iff_getElem.mp (nodup_eraseDups names) _ _ _ h hlt heq
  omega

/-- Names without repetitions are kept as they are. -/
theorem eraseDups_of_nodup (h : names.Nodup) : names.eraseDups = names := by
  induction names with
  | nil => rfl
  | cons name names ih =>
      obtain ⟨hname, hnodup⟩ := List.nodup_cons.mp h
      have hkept : names.filter (fun other => !other == name) = names := by
        rw [List.filter_eq_self]
        intro other hother
        have hne : other ≠ name := by
          rintro rfl
          exact hname hother
        simp [hne]
      rw [List.eraseDups_cons, hkept, ih hnodup]

/-- There are as many different names as names if there are no repetitions. -/
theorem length_eraseDups_eq_iff : names.eraseDups.length = names.length ↔ names.Nodup := by
  constructor
  · intro h
    have hsubset : names.eraseDups ⊆ names := fun _ => List.mem_eraseDups.mp
    have hperm : names.eraseDups.Perm names :=
      (List.subperm_of_subset (nodup_eraseDups names) hsubset).perm_of_length_le
        (Nat.le_of_eq h.symm)
    exact hperm.nodup_iff.mp (nodup_eraseDups names)
  · intro h
    rw [eraseDups_of_nodup h]

end Positions

/-! ## Frames -/

namespace Frame

/-- A frame knows some parameters and locals, which were declared in this order. -/
structure Records (frame : Frame) (parameters locals : List String) : Prop where
  parameters_eq : frame.parameters = parameters.eraseDups
  locals_eq : frame.locals = locals.eraseDups

variable {frame : Frame} {parameters locals : List String}

theorem records_empty (name : String) : Records { name } [] [] := ⟨rfl, rfl⟩

namespace Records

variable (records : frame.Records parameters locals) (name : String)
include records

theorem parameterOffset? : frame.parameterOffset? name =
    if name ∈ parameters then some (parameterOffsetAt (position parameters name)) else none := by
  rw [Frame.parameterOffset?, records.parameters_eq, idxOf?_eraseDups]
  split <;> rfl

theorem localOffset? : frame.localOffset? name =
    if name ∈ locals then some (localOffsetAt (position locals name)) else none := by
  rw [Frame.localOffset?, records.locals_eq, idxOf?_eraseDups]
  split <;> rfl

theorem addParameter : (frame.addParameter name).2.2.Records (parameters ++ [name]) locals := by
  unfold Frame.addParameter
  rw [records.parameterOffset? name]
  by_cases h : name ∈ parameters
  · rw [if_pos h]
    refine ⟨?_, records.locals_eq⟩
    rw [eraseDups_snoc, if_pos h, records.parameters_eq]
  · rw [if_neg h]
    refine ⟨?_, records.locals_eq⟩
    rw [eraseDups_snoc, if_neg h, records.parameters_eq]

theorem addLocal : (frame.addLocal name).2.2.Records parameters (locals ++ [name]) := by
  unfold Frame.addLocal
  rw [records.localOffset? name]
  by_cases h : name ∈ locals
  · rw [if_pos h]
    refine ⟨records.parameters_eq, ?_⟩
    rw [eraseDups_snoc, if_pos h, records.locals_eq]
  · rw [if_neg h]
    refine ⟨records.parameters_eq, ?_⟩
    rw [eraseDups_snoc, if_neg h, records.locals_eq]

/-- A local gets the slot that it is found in from then on. -/
theorem addLocal_offset :
    (frame.addLocal name).1 = localOffsetAt (position (locals ++ [name]) name) := by
  unfold Frame.addLocal
  rw [records.localOffset? name]
  by_cases h : name ∈ locals
  · rw [if_pos h, position_append h]
  · rw [if_neg h, position_of_first h, records.locals_eq]

theorem resolve : frame.resolve name =
    if name ∈ locals then .localSlot (localOffsetAt (position locals name))
    else if name ∈ parameters then .parameterSlot (parameterOffsetAt (position parameters name))
    else .global name := by
  unfold Frame.resolve
  rw [records.localOffset? name, records.parameterOffset? name]
  by_cases hlocal : name ∈ locals
  · rw [if_pos hlocal, if_pos hlocal]
  · rw [if_neg hlocal, if_neg hlocal]
    by_cases hparameter : name ∈ parameters
    · rw [if_pos hparameter, if_pos hparameter]
    · rw [if_neg hparameter, if_neg hparameter]

end Records

/-! ## Offsets -/

theorem parameterOffsetAt_eq (position : Nat) :
    parameterOffsetAt position = Int32.ofInt (8 + 4 * position) := by
  rw [Int32.ofInt_add, Int32.ofInt_mul, Int32.ofInt_eq_ofNat, Int32.mul_comm]
  rfl

theorem localOffsetAt_eq (position : Nat) :
    localOffsetAt position = Int32.ofInt (-4 * (position + 1)) := by
  have hnegative : (-4 * (position + 1) : Int) = -(position + 1) * 4 := by omega
  rw [hnegative, Int32.ofInt_mul, Int32.ofInt_neg, Int32.ofInt_add, Int32.ofInt_eq_ofNat]
  rfl

variable {position : Nat}

theorem toInt_parameterOffsetAt (h : 8 + 4 * position < 2147483648) :
    (parameterOffsetAt position).toInt = 8 + 4 * position := by
  rw [parameterOffsetAt_eq]
  exact Int32.toInt_ofInt_of_le (by omega) (by omega)

theorem toInt_localOffsetAt (h : 4 * (position + 1) ≤ 2147483648) :
    (localOffsetAt position).toInt = -4 * (position + 1) := by
  rw [localOffsetAt_eq]
  exact Int32.toInt_ofInt_of_le (by omega) (by omega)

theorem toInt_localBytes (h : 4 * frame.locals.length < 2147483648) :
    frame.localBytes.toInt = 4 * frame.locals.length := by
  have hbytes : frame.localBytes = Int32.ofNat (frame.locals.length * 4) := by
    rw [Int32.ofNat_mul]
    rfl
  rw [hbytes, Int32.toInt_ofNat_of_lt (by omega)]
  omega

/-- The text of the slot of a parameter. -/
theorem text_parameterOffsetAt (h : 8 + 4 * position < 2147483648) :
    (Operand.frame (parameterOffsetAt position)).text =
      "[ebp+" ++ toString (parameterOffsetAt position).toInt ++ "]" := by
  have hoffset := toInt_parameterOffsetAt h
  rw [Operand.text, if_neg (by omega)]

/-- The text of the slot of a local. -/
theorem text_localOffsetAt (h : 4 * (position + 1) < 2147483648) :
    (Operand.frame (localOffsetAt position)).text =
      "[ebp-" ++ toString (-localOffsetAt position).toInt ++ "]" := by
  have hoffset := toInt_localOffsetAt (Nat.le_of_lt h)
  have hsize : (-localOffsetAt position).toInt = (localOffsetAt position).toInt.natAbs := by
    rw [localOffsetAt_eq, ← Int32.ofInt_neg, Int32.toInt_ofInt_of_le (by omega) (by omega),
      ← localOffsetAt_eq, hoffset]
    omega
  rw [Operand.text, if_pos (by omega), hsize]
  rfl

end Frame

end MiniC
