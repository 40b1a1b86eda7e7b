import Mathlib.Data.List.Induction
import MiniC.Proofs.Symbols.Slots

/-!
# Frames after declarations

The frame of a function after a list of declarations, of parameters and locals in any order and
with any repetitions (`Frame.declared`).  A slot is settled by its `rank`, the number of different
names of its sort that were declared before it:

* a declaration of a new name takes the next rank (`declare_of_not_mem`), and one of a name that
  is known answers with the slot that the name has (`declare_of_mem`);
* what is declared later does not change a rank (`Slot.rank_append`), so that a slot stays where
  it is (`offset?_declared`);
* different slots of one sort have different ranks (`Slot.parameter_eq_of_rank_eq`,
  `Slot.local_eq_of_rank_eq`).

Offsets are computed from the size of the frame at the time of the declaration, with 32 bits.
The functions with a name in `unwrapped` compute the same numbers without wrapping around, and
give up as soon as one on the way is out of reach.
-/

namespace MiniC.Frame

/-! ## Computing offsets without wrapping around -/

/-- A number, if 32 bits with sign hold it. -/
def representable? (value : Int) : Option Int :=
  if -2147483648 ≤ value ∧ value < 2147483648 then some value else none

/-- The offset of the parameter at a position, if all numbers on the way are representable. -/
def unwrappedParameterOffset? (position : Nat) : Option Int := do
  let index ← representable? position
  let distance ← representable? (index * slotSize.toInt)
  representable? (firstParameterOffset.toInt + distance)

/-- The offset of the local at a position, if all numbers on the way are representable. -/
def unwrappedLocalOffset? (position : Nat) : Option Int := do
  let index ← representable? position
  let next ← representable? (index + 1)
  let negated ← representable? (-next)
  representable? (negated * slotSize.toInt)

/-- The bytes that the locals take, if all numbers on the way are representable. -/
def unwrappedLocalBytes? (frame : Frame) : Option Int := do
  let count ← representable? frame.locals.length
  representable? (count * slotSize.toInt)

section Unwrapped

variable {position : Nat}

theorem representable?_of_range {value : Int} (hlow : -2147483648 ≤ value)
    (hhigh : value < 2147483648) : representable? value = some value := by
  unfold representable?
  rw [if_pos ⟨hlow, hhigh⟩]

theorem toInt_slotSize : slotSize.toInt = 4 := rfl

theorem toInt_firstParameterOffset : firstParameterOffset.toInt = 8 := rfl

/-- Below 2²⁹ − 2 parameters no number is out of reach. -/
theorem unwrappedParameterOffset?_eq (h : position < 536870910) :
    unwrappedParameterOffset? position = some (parameterOffsetAt position).toInt := by
  unfold unwrappedParameterOffset?
  rw [toInt_slotSize, toInt_firstParameterOffset, toInt_parameterOffsetAt (by omega)]
  -- the position, the distance from the first parameter, and the offset
  rw [representable?_of_range (by omega) (by omega), Option.bind_eq_bind, Option.bind_some,
    representable?_of_range (by omega) (by omega), Option.bind_some,
    representable?_of_range (by omega) (by omega)]
  exact congrArg some (by omega)

theorem unwrappedLocalOffset?_eq (h : position < 536870910) :
    unwrappedLocalOffset? position = some (localOffsetAt position).toInt := by
  unfold unwrappedLocalOffset?
  rw [toInt_slotSize, toInt_localOffsetAt (by omega)]
  -- the position, the next one, its negative, and the offset
  rw [representable?_of_range (by omega) (by omega), Option.bind_eq_bind, Option.bind_some,
    representable?_of_range (by omega) (by omega), Option.bind_some,
    representable?_of_range (by omega) (by omega), Option.bind_some,
    representable?_of_range (by omega) (by omega)]
  exact congrArg some (by omega)

theorem unwrappedLocalBytes?_eq {frame : Frame} (h : frame.locals.length < 536870910) :
    frame.unwrappedLocalBytes? = some frame.localBytes.toInt := by
  unfold unwrappedLocalBytes?
  rw [toInt_slotSize, toInt_localBytes (by omega)]
  -- the number of locals, and their bytes
  rw [representable?_of_range (by omega) (by omega), Option.bind_eq_bind, Option.bind_some,
    representable?_of_range (by omega) (by omega)]
  exact congrArg some (by omega)

/-- The next parameter after those is out of reach. -/
example : unwrappedParameterOffset? 536870910 = none := by decide

end Unwrapped

/-! ## Slots -/

/-- A slot of a frame: that of a parameter, or that of a local. -/
inductive Slot where
  | parameter (name : String)
  | localVariable (name : String)
deriving DecidableEq

namespace Slot

/-- The name of a parameter. -/
def parameter? : Slot → Option String
  | parameter name => some name
  | localVariable _ => none

/-- The name of a local. -/
def local? : Slot → Option String
  | parameter _ => none
  | localVariable name => some name

/-- The names of the parameters among slots, in order and with repetitions. -/
def parameters (slots : List Slot) : List String := slots.filterMap parameter?

/-- The names of the locals among slots, in order and with repetitions. -/
def locals (slots : List Slot) : List String := slots.filterMap local?

/-- The number of different slots of the same sort before a slot. -/
def rank (slots : List Slot) : Slot → Nat
  | parameter name => position (parameters slots) name
  | localVariable name => position (locals slots) name

/-- The number of different slots of the same sort as a slot. -/
def count (slots : List Slot) : Slot → Nat
  | parameter _ => (parameters slots).eraseDups.length
  | localVariable _ => (locals slots).eraseDups.length

/-- The offset of a slot with a rank. -/
def offsetAt (rank : Nat) : Slot → Int32
  | parameter _ => parameterOffsetAt rank
  | localVariable _ => localOffsetAt rank

/-- The same offset, if all numbers on the way to it are representable. -/
def unwrappedOffset? (rank : Nat) : Slot → Option Int
  | parameter _ => unwrappedParameterOffset? rank
  | localVariable _ => unwrappedLocalOffset? rank

variable {slots before : List Slot} {slot : Slot} {name other : String}

theorem unwrappedOffset?_eq {rank : Nat} (h : rank < 536870910) :
    slot.unwrappedOffset? rank = some (slot.offsetAt rank).toInt := by
  cases slot with
  | parameter name => exact unwrappedParameterOffset?_eq h
  | localVariable name => exact unwrappedLocalOffset?_eq h

@[simp] theorem mem_parameters : name ∈ parameters slots ↔ parameter name ∈ slots := by
  constructor
  · intro h
    obtain ⟨slot, hmem, hname⟩ := List.mem_filterMap.mp h
    cases slot with
    | parameter other =>
        cases hname
        exact hmem
    | localVariable other => cases hname
  · intro h
    exact List.mem_filterMap.mpr ⟨_, h, rfl⟩

@[simp] theorem mem_locals : name ∈ locals slots ↔ localVariable name ∈ slots := by
  constructor
  · intro h
    obtain ⟨slot, hmem, hname⟩ := List.mem_filterMap.mp h
    cases slot with
    | parameter other => cases hname
    | localVariable other =>
        cases hname
        exact hmem
  · intro h
    exact List.mem_filterMap.mpr ⟨_, h, rfl⟩

/-- Different slots of one sort have different ranks. -/
theorem parameter_eq_of_rank_eq (h : parameter name ∈ slots)
    (hother : parameter other ∈ slots)
    (hrank : (parameter name).rank slots = (parameter other).rank slots) : name = other :=
  eq_of_position_eq (mem_parameters.mpr h) (mem_parameters.mpr hother) hrank

theorem local_eq_of_rank_eq (h : localVariable name ∈ slots)
    (hother : localVariable other ∈ slots)
    (hrank : (localVariable name).rank slots = (localVariable other).rank slots) : name = other :=
  eq_of_position_eq (mem_locals.mpr h) (mem_locals.mpr hother) hrank

theorem rank_lt (h : slot ∈ slots) : slot.rank slots < slot.count slots := by
  cases slot with
  | parameter name => exact position_lt (mem_parameters.mpr h)
  | localVariable name => exact position_lt (mem_locals.mpr h)

/-- A slot keeps its rank. -/
theorem rank_append (h : slot ∈ before) (since : List Slot) :
    slot.rank (before ++ since) = slot.rank before := by
  cases slot with
  | parameter name =>
      unfold rank parameters
      rw [List.filterMap_append]
      exact position_append (mem_parameters.mpr h) _
  | localVariable name =>
      unfold rank locals
      rw [List.filterMap_append]
      exact position_append (mem_locals.mpr h) _

/-- A new slot comes after those that are there. -/
theorem rank_of_not_mem (h : slot ∉ before) (since : List Slot) :
    slot.rank (before ++ slot :: since) = slot.count before := by
  cases slot with
  | parameter name =>
      unfold rank parameters
      rw [List.filterMap_append]
      exact position_of_first (mem_parameters.not.mpr h)
  | localVariable name =>
      unfold rank locals
      rw [List.filterMap_append]
      exact position_of_first (mem_locals.not.mpr h)

end Slot

/-! ## Declarations -/

/-- Declares a slot: its offset, whether it is new, and the frame with it. -/
def declare (frame : Frame) : Slot → Int32 × Bool × Frame
  | .parameter name => frame.addParameter name
  | .localVariable name => frame.addLocal name

/-- The offset of a slot. -/
def offset? (frame : Frame) : Slot → Option Int32
  | .parameter name => frame.parameterOffset? name
  | .localVariable name => frame.localOffset? name

/-- The number of slots of the same sort as a slot. -/
def size (frame : Frame) : Slot → Nat
  | .parameter _ => frame.parameters.length
  | .localVariable _ => frame.locals.length

/-- The frame of a function after declarations. -/
def declared (function : String) (slots : List Slot) : Frame :=
  slots.foldl (fun frame slot => (frame.declare slot).2.2) { name := function }

variable {frame : Frame} {function : String} {slots : List Slot} {slot : Slot}

theorem declare_of_some {offset : Int32} (h : frame.offset? slot = some offset) :
    frame.declare slot = (offset, false, frame) := by
  cases slot with
  | parameter name =>
      unfold offset? at h
      simp only [declare, addParameter, h]
  | localVariable name =>
      unfold offset? at h
      simp only [declare, addLocal, h]

theorem declare_of_none (h : frame.offset? slot = none) :
    (frame.declare slot).1 = slot.offsetAt (frame.size slot) ∧ (frame.declare slot).2.1 = true := by
  cases slot with
  | parameter name =>
      unfold offset? at h
      simp only [declare, addParameter, h, size, Slot.offsetAt, and_self]
  | localVariable name =>
      unfold offset? at h
      simp only [declare, addLocal, h, size, Slot.offsetAt, and_self]

theorem declared_concat (function : String) (slots : List Slot) (slot : Slot) :
    declared function (slots ++ [slot]) = ((declared function slots).declare slot).2.2 := by
  unfold declared
  rw [List.foldl_append]
  rfl

/-- The frame has the names that were declared. -/
theorem records_declared (function : String) (slots : List Slot) :
    (declared function slots).Records (Slot.parameters slots) (Slot.locals slots) := by
  induction slots using List.reverseRecOn with
  | nil => exact records_empty function
  | append_singleton slots slot ih =>
      rw [declared_concat]
      unfold Slot.parameters Slot.locals
      rw [List.filterMap_append, List.filterMap_append]
      cases slot with
      | parameter name =>
          rw [show [Slot.parameter name].filterMap Slot.local? = [] from rfl, List.append_nil]
          exact ih.addParameter name
      | localVariable name =>
          rw [show [Slot.localVariable name].filterMap Slot.parameter? = [] from rfl,
            List.append_nil]
          exact ih.addLocal name

theorem size_declared (function : String) (slots : List Slot) (slot : Slot) :
    (declared function slots).size slot = slot.count slots := by
  have hrecords := records_declared function slots
  cases slot with
  | parameter name => exact congrArg List.length hrecords.parameters_eq
  | localVariable name => exact congrArg List.length hrecords.locals_eq

/-- The slots are those that were declared, each at its rank. -/
theorem offset?_declared (function : String) (slots : List Slot) (slot : Slot) :
    (declared function slots).offset? slot =
      if slot ∈ slots then some (slot.offsetAt (slot.rank slots)) else none := by
  have hrecords := records_declared function slots
  cases slot with
  | parameter name =>
      refine (hrecords.parameterOffset? name).trans ?_
      simp only [Slot.mem_parameters]
      rfl
  | localVariable name =>
      refine (hrecords.localOffset? name).trans ?_
      simp only [Slot.mem_locals]
      rfl

theorem offset?_declared_eq_some_iff {offset : Int32} :
    (declared function slots).offset? slot = some offset ↔
      slot ∈ slots ∧ slot.offsetAt (slot.rank slots) = offset := by
  rw [offset?_declared]
  by_cases h : slot ∈ slots
  · simp [h]
  · simp [h]

/-- A declaration of a slot that is known answers with its offset. -/
theorem declare_of_mem (h : slot ∈ slots) : (declared function slots).declare slot =
    (slot.offsetAt (slot.rank slots), false, declared function slots) := by
  apply declare_of_some
  rw [offset?_declared, if_pos h]

/-- A declaration of a new slot takes the next rank. -/
theorem declare_of_not_mem (h : slot ∉ slots) :
    ((declared function slots).declare slot).1 = slot.offsetAt (slot.count slots) ∧
      ((declared function slots).declare slot).2.1 = true := by
  rw [← size_declared function slots slot]
  apply declare_of_none
  rw [offset?_declared, if_neg h]

end MiniC.Frame
