import MiniC.Proofs.Symbols.Declarations

/-!
# Frames after any declarations

Where the parameters and locals of a function are kept, however they were declared: in any order,
and each of them any number of times (`layout_of_declarations`).  There may be fewer than 2²⁹ − 2
different names of each sort, which is the 536870910 below.

Everything comes from the ranks of slots.  A slot keeps its rank, so that offsets stay what they
are; different slots of one sort have different ranks, so that they are four bytes apart or more;
and a rank is below the number of names, so that 32 bits are enough.
-/

namespace MiniC.Frame

variable {function : String} {slots before : List Slot} {slot first second : Slot}

/-! ## Offsets over time -/

/-- An offset stays what it is, whatever is declared later. -/
theorem offset?_declared_append {offset : Int32}
    (h : (declared function before).offset? slot = some offset) (since : List Slot) :
    (declared function (before ++ since)).offset? slot = some offset := by
  rw [offset?_declared_eq_some_iff] at h ⊢
  obtain ⟨hmem, hoffset⟩ := h
  rw [Slot.rank_append hmem]
  exact ⟨List.mem_append_left since hmem, hoffset⟩

/-- A declaration answers with the offset of its slot. -/
theorem offset?_declare (function : String) (before : List Slot) (slot : Slot) :
    (declared function (before ++ [slot])).offset? slot =
      some ((declared function before).declare slot).1 := by
  rw [offset?_declared, if_pos (List.mem_append_right before List.mem_cons_self)]
  by_cases hmem : slot ∈ before
  · rw [declare_of_mem hmem, Slot.rank_append hmem]
  · rw [(declare_of_not_mem hmem).1, Slot.rank_of_not_mem hmem]

theorem isNew_declare_iff :
    ((declared function before).declare slot).2.1 = true ↔ slot ∉ before := by
  by_cases hmem : slot ∈ before
  · rw [declare_of_mem hmem]
    simp [hmem]
  · simp [(declare_of_not_mem hmem).2, hmem]

theorem isSome_offset?_iff (slot : Slot) :
    ((declared function slots).offset? slot).isSome = true ↔ slot ∈ slots := by
  rw [offset?_declared]
  by_cases hmem : slot ∈ slots
  · simp [hmem]
  · simp [hmem]

/-! ## Where slots are -/

section Bounded

variable (hcount : ∀ slot : Slot, slot.count slots < 536870910)
include hcount

theorem toInt_parameter {name : String} (h : .parameter name ∈ slots) :
    ((Slot.parameter name).offsetAt ((Slot.parameter name).rank slots)).toInt =
      8 + 4 * (Slot.parameter name).rank slots := by
  have hlt := Slot.rank_lt h
  have hbound := hcount (.parameter name)
  exact toInt_parameterOffsetAt (by omega)

theorem toInt_local {name : String} (h : .localVariable name ∈ slots) :
    ((Slot.localVariable name).offsetAt ((Slot.localVariable name).rank slots)).toInt =
      -4 * ((Slot.localVariable name).rank slots + 1) := by
  have hlt := Slot.rank_lt h
  have hbound := hcount (.localVariable name)
  exact toInt_localOffsetAt (by omega)

/-- No slot is on the saved `ebp` or the return address. -/
theorem clear_of_mem (h : slot ∈ slots) :
    (slot.offsetAt (slot.rank slots)).toInt + 4 ≤ 0 ∨
      8 ≤ (slot.offsetAt (slot.rank slots)).toInt := by
  cases slot with
  | parameter name =>
      rw [toInt_parameter hcount h]
      omega
  | localVariable name =>
      rw [toInt_local hcount h]
      omega

/-- Different slots have no byte in common. -/
theorem apart_of_mem (hfirst : first ∈ slots) (hsecond : second ∈ slots) (hne : first ≠ second) :
    (first.offsetAt (first.rank slots)).toInt + 4 ≤ (second.offsetAt (second.rank slots)).toInt ∨
      (second.offsetAt (second.rank slots)).toInt + 4 ≤
        (first.offsetAt (first.rank slots)).toInt := by
  -- slots of one sort have different ranks, and zero is between those of different sorts
  cases first with
  | parameter name =>
      rw [toInt_parameter hcount hfirst]
      cases second with
      | parameter other =>
          have hrank : (Slot.parameter name).rank slots ≠ (Slot.parameter other).rank slots :=
            fun heq => hne (congrArg _ (Slot.parameter_eq_of_rank_eq hfirst hsecond heq))
          rw [toInt_parameter hcount hsecond]
          omega
      | localVariable other =>
          rw [toInt_local hcount hsecond]
          omega
  | localVariable name =>
      rw [toInt_local hcount hfirst]
      cases second with
      | parameter other =>
          rw [toInt_parameter hcount hsecond]
          omega
      | localVariable other =>
          have hrank :
              (Slot.localVariable name).rank slots ≠ (Slot.localVariable other).rank slots :=
            fun heq => hne (congrArg _ (Slot.local_eq_of_rank_eq hfirst hsecond heq))
          rw [toInt_local hcount hsecond]
          omega

/-- The parameters are listed in the order of their slots. -/
theorem exists_parameterOffset? {index : Nat}
    (h : index < (Slot.parameters slots).eraseDups.length) :
    ∃ offset,
      (declared function slots).parameterOffset? (Slot.parameters slots).eraseDups[index] =
        some offset ∧ offset.toInt = 8 + 4 * index := by
  have hmem := Slot.mem_parameters.mp (List.mem_eraseDups.mp (List.getElem_mem h))
  refine ⟨_, offset?_declared_eq_some_iff.mpr ⟨hmem, rfl⟩, ?_⟩
  rw [toInt_parameter hcount hmem, Slot.rank, position_getElem_eraseDups]

/-- The locals are listed in the order of their slots. -/
theorem exists_localOffset? {index : Nat} (h : index < (Slot.locals slots).eraseDups.length) :
    ∃ offset, (declared function slots).localOffset? (Slot.locals slots).eraseDups[index] =
      some offset ∧ offset.toInt = -4 * (index + 1) := by
  have hmem := Slot.mem_locals.mp (List.mem_eraseDups.mp (List.getElem_mem h))
  refine ⟨_, offset?_declared_eq_some_iff.mpr ⟨hmem, rfl⟩, ?_⟩
  rw [toInt_local hcount hmem, Slot.rank, position_getElem_eraseDups]

/-- The slots of the locals are within the bytes that are counted for them. -/
theorem reserved_of_local {name : String} {offset : Int32}
    (h : (declared function slots).localOffset? name = some offset) :
    -(4 * (Slot.locals slots).eraseDups.length : Int) ≤ offset.toInt ∧ offset.toInt ≤ -4 := by
  have hslot : (declared function slots).offset? (.localVariable name) = some offset := h
  obtain ⟨hmem, rfl⟩ := offset?_declared_eq_some_iff.mp hslot
  have hlt : (Slot.localVariable name).rank slots < (Slot.locals slots).eraseDups.length :=
    Slot.rank_lt hmem
  rw [toInt_local hcount hmem]
  omega

/-- No number is out of reach when a new slot gets its offset. -/
theorem unwrappedOffset?_declare {since : List Slot} (hslots : slots = before ++ slot :: since)
    (hnew : slot ∉ before) :
    slot.unwrappedOffset? ((declared function before).size slot) =
      some ((declared function before).declare slot).1.toInt := by
  have hmem : slot ∈ slots := hslots ▸ List.mem_append_right before List.mem_cons_self
  -- the rank that the slot keeps is the number of slots that were there
  have hrank : slot.rank slots = slot.count before := by
    rw [hslots]
    exact Slot.rank_of_not_mem hnew since
  have hlt := Slot.rank_lt hmem
  have hbound := hcount slot
  rw [size_declared, (declare_of_not_mem hnew).1]
  exact Slot.unwrappedOffset?_eq (by omega)

end Bounded

/-! ## Names -/

theorem exists_resolve_local {name : String} (h : .localVariable name ∈ slots) :
    ∃ offset, (declared function slots).localOffset? name = some offset ∧
      (declared function slots).resolve name = .localSlot offset := by
  have hrecords := records_declared function slots
  refine ⟨_, offset?_declared_eq_some_iff.mpr ⟨h, rfl⟩, ?_⟩
  rw [hrecords.resolve, if_pos (Slot.mem_locals.mpr h)]
  rfl

theorem exists_resolve_parameter {name : String} (hlocal : .localVariable name ∉ slots)
    (h : .parameter name ∈ slots) :
    ∃ offset, (declared function slots).parameterOffset? name = some offset ∧
      (declared function slots).resolve name = .parameterSlot offset := by
  have hrecords := records_declared function slots
  refine ⟨_, offset?_declared_eq_some_iff.mpr ⟨h, rfl⟩, ?_⟩
  rw [hrecords.resolve, if_neg (Slot.mem_locals.not.mpr hlocal), if_pos (Slot.mem_parameters.mpr h)]
  rfl

theorem resolve_of_not_mem {name : String} (hlocal : .localVariable name ∉ slots)
    (h : .parameter name ∉ slots) : (declared function slots).resolve name = .global name := by
  rw [(records_declared function slots).resolve, if_neg (Slot.mem_locals.not.mpr hlocal),
    if_neg (Slot.mem_parameters.not.mpr h)]

/-! ## The layout -/

/-- What holds of the frame of a function after declarations. -/
structure LayoutInvariant (function : String) (slots : List Slot) (frame : Frame) : Prop where
  /-- The different parameters are at 8, 12, 16 and so on, in the order of their first
  declarations. -/
  parameter : ∀ (index : Nat) (h : index < (Slot.parameters slots).eraseDups.length),
    ∃ offset, frame.parameterOffset? (Slot.parameters slots).eraseDups[index] = some offset ∧
      offset.toInt = 8 + 4 * index
  /-- The different locals are at -4, -8, -12 and so on, in the order of their first
  declarations. -/
  localVariable : ∀ (index : Nat) (h : index < (Slot.locals slots).eraseDups.length),
    ∃ offset, frame.localOffset? (Slot.locals slots).eraseDups[index] = some offset ∧
      offset.toInt = -4 * (index + 1)
  /-- What was declared has a slot, and nothing else has one. -/
  isSome : ∀ slot, (frame.offset? slot).isSome = true ↔ slot ∈ slots
  /-- Each declaration answers with the offset that the slot still has in the end, and says
  whether the slot is new. -/
  answer : ∀ before slot since, slots = before ++ slot :: since →
    frame.offset? slot = some ((declared function before).declare slot).1 ∧
      (((declared function before).declare slot).2.1 = true ↔ slot ∉ before)
  /-- An offset that a slot has at some time is never changed. -/
  kept : ∀ before since, slots = before ++ since → ∀ slot offset,
    (declared function before).offset? slot = some offset → frame.offset? slot = some offset
  /-- No two slots have a byte in common. -/
  apart : ∀ first second offset other, frame.offset? first = some offset →
    frame.offset? second = some other → first ≠ second →
      offset.toInt + 4 ≤ other.toInt ∨ other.toInt + 4 ≤ offset.toInt
  /-- No slot has one of the bytes from 0 to 7. -/
  clear : ∀ slot offset, frame.offset? slot = some offset →
    offset.toInt + 4 ≤ 0 ∨ 8 ≤ offset.toInt
  /-- The locals take four bytes each. -/
  localBytes : frame.localBytes.toInt = 4 * (Slot.locals slots).eraseDups.length
  /-- The slots of the locals are in these bytes. -/
  reserved : ∀ name offset, frame.localOffset? name = some offset →
    -frame.localBytes.toInt ≤ offset.toInt ∧ offset.toInt ≤ -4
  /-- At each declaration of a new slot, all numbers on the way to its offset fit in 32 bits. -/
  unwrapped : ∀ before slot since, slots = before ++ slot :: since → slot ∉ before →
    slot.unwrappedOffset? ((declared function before).size slot) =
      some ((declared function before).declare slot).1.toInt
  /-- So do all numbers on the way to the bytes of the locals. -/
  unwrappedBytes : frame.unwrappedLocalBytes? = some frame.localBytes.toInt
  /-- A name that was declared as a local is that local, even if it is a parameter as well. -/
  resolve_local : ∀ name, Slot.localVariable name ∈ slots →
    ∃ offset, frame.localOffset? name = some offset ∧ frame.resolve name = .localSlot offset
  /-- Any other name that was declared as a parameter is that parameter. -/
  resolve_parameter : ∀ name, Slot.localVariable name ∉ slots → Slot.parameter name ∈ slots →
    ∃ offset, frame.parameterOffset? name = some offset ∧
      frame.resolve name = .parameterSlot offset
  /-- All others are variables of the file. -/
  resolve_global : ∀ name, Slot.localVariable name ∉ slots → Slot.parameter name ∉ slots →
    frame.resolve name = .global name

/-- **The layout of a frame** after any declarations of parameters and locals, of fewer than
2²⁹ − 2 different names of each sort: the slots are in the order of the first declarations, none of
them ever moves, no two of them meet, and 32 bits hold every number on the way to an offset. -/
theorem layout_of_declarations (function : String) (slots : List Slot)
    (hparameters : (Slot.parameters slots).eraseDups.length < 536870910)
    (hlocals : (Slot.locals slots).eraseDups.length < 536870910) :
    LayoutInvariant function slots (declared function slots) := by
  have hcount : ∀ slot : Slot, slot.count slots < 536870910 := by
    intro slot
    cases slot with
    | parameter name => exact hparameters
    | localVariable name => exact hlocals
  have hsize : (declared function slots).locals.length = (Slot.locals slots).eraseDups.length :=
    congrArg List.length (records_declared function slots).locals_eq
  have hbytes : (declared function slots).localBytes.toInt =
      4 * (Slot.locals slots).eraseDups.length := by
    rw [toInt_localBytes (by omega), hsize]
  -- with the size known, each field is a fact about positions in the list of different names
  refine
    { parameter := fun index h => exists_parameterOffset? hcount h
      localVariable := fun index h => exists_localOffset? hcount h
      isSome := isSome_offset?_iff
      answer := ?_
      kept := ?_
      apart := ?_
      clear := ?_
      localBytes := hbytes
      reserved := ?_
      unwrapped := fun before slot since hslots hnew => unwrappedOffset?_declare hcount hslots hnew
      unwrappedBytes := unwrappedLocalBytes?_eq (by omega)
      resolve_local := fun name h => exists_resolve_local h
      resolve_parameter := fun name hlocal h => exists_resolve_parameter hlocal h
      resolve_global := fun name hlocal h => resolve_of_not_mem hlocal h }
  · rintro before slot since rfl
    rw [List.append_cons]
    exact ⟨offset?_declared_append (offset?_declare function before slot) since,
      isNew_declare_iff⟩
  · rintro before since rfl slot offset hoffset
    exact offset?_declared_append hoffset since
  · intro first second offset other hfirst hsecond hne
    obtain ⟨hfirstMem, rfl⟩ := offset?_declared_eq_some_iff.mp hfirst
    obtain ⟨hsecondMem, rfl⟩ := offset?_declared_eq_some_iff.mp hsecond
    exact apart_of_mem hcount hfirstMem hsecondMem hne
  · intro slot offset hoffset
    obtain ⟨hmem, rfl⟩ := offset?_declared_eq_some_iff.mp hoffset
    exact clear_of_mem hcount hmem
  · intro name offset hoffset
    rw [hbytes]
    exact reserved_of_local hcount hoffset

/-- Declarations of both sorts in turn, some of them of names that are known: `b` is the second
parameter and the second local. -/
theorem layout_interleaved :
    let slots : List Slot := [.parameter "a", .localVariable "x", .parameter "b", .parameter "a",
      .localVariable "b", .localVariable "x"]
    (Slot.parameters slots).eraseDups.length < 536870910 ∧
      (Slot.locals slots).eraseDups.length < 536870910 ∧
      (declared "f" slots).parameterOffset? "b" = some 12 ∧
      (declared "f" slots).resolve "b" = .localSlot (-8) ∧
      LayoutInvariant "f" slots (declared "f" slots) := by
  intro slots
  have hparameters : (Slot.parameters slots).eraseDups.length < 536870910 := by decide
  have hlocals : (Slot.locals slots).eraseDups.length < 536870910 := by decide
  exact ⟨hparameters, hlocals, by decide, by decide,
    layout_of_declarations "f" slots hparameters hlocals⟩

end MiniC.Frame
