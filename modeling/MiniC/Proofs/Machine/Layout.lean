import MiniC.Proofs.Machine.State

/-!
# Where values are kept

A `Layout` says where the machine keeps the values of a `World`: parameters and
locals at their distances from `ebp`, and the variables of the file at the
addresses that the linkage gives them.  A state `Represents` a world if the words
in these places are its values.

The stack may grow down to the address `bottom`.  No place is between `bottom`
and the locals (`toNat_of_covers_locate`), and no two places have a byte in
common (`locate_apart`), so that what is pushed or stored elsewhere leaves the
values in the other places as they are.

`Follows` is the convention for calls: the arguments are on the stack, the first
one on top, the result is in `eax`, and the caller takes the arguments off.
-/

namespace MiniC

/-- A frame at some point of a function, of which another one is the frame further on:
the parameters are the same, and there may be more locals. -/
structure Frame.Within (frame later : Frame) : Prop where
  parameters_eq : later.parameters = frame.parameters
  locals_prefix : frame.locals <+: later.locals

protected theorem Frame.Within.refl (frame : Frame) : frame.Within frame :=
  ⟨rfl, List.prefix_refl _⟩

namespace Machine

/-- Where a function keeps its values. -/
structure Layout where
  linkage : Linkage
  /-- The names of the function. -/
  frame : Frame
  /-- The variables of the file. -/
  globals : List String
  /-- The lowest address of the stack. -/
  bottom : Nat
  /-- The bytes of the stack that a called function may ask for. -/
  reserve : Nat

namespace Layout

variable (layout : Layout)

/-- The bytes that the locals take. -/
def localSize : Nat := 4 * layout.frame.locals.length

/-- The bytes that the parameters take. -/
def parameterSize : Nat := 4 * layout.frame.parameters.length

/-- The places of the function and of the file. -/
def Owns : Place → Prop
  | .localSlot offset =>
      ∃ position < layout.frame.locals.length, offset = Frame.localOffsetAt position
  | .parameterSlot offset =>
      ∃ position < layout.frame.parameters.length, offset = Frame.parameterOffsetAt position
  | .global name => name ∈ layout.globals

/-- The address of a place. -/
def locate (ebp : Word) : Place → Word
  | .localSlot offset => ebp + offset.toBitVec
  | .parameterSlot offset => ebp + offset.toBitVec
  | .global name => layout.linkage.address name

/-- There is room for everything without wrapping around: the locals lie above the
bottom of the stack, and the variables of the file lie outside of the stack
and apart from each other. -/
structure Fits (ebp : Word) : Prop where
  locals_fit : layout.bottom + layout.localSize ≤ ebp.toNat
  parameters_fit : ebp.toNat + 8 + layout.parameterSize ≤ 4294967296
  variables_fit : ∀ name ∈ layout.globals,
    (layout.linkage.address name).toNat + 4 ≤ 4294967296 ∧
      ((layout.linkage.address name).toNat + 4 ≤ layout.bottom ∨
        ebp.toNat + 8 + layout.parameterSize ≤ (layout.linkage.address name).toNat)
  variables_apart : ∀ name ∈ layout.globals, ∀ other ∈ layout.globals, name ≠ other →
    (layout.linkage.address name).toNat + 4 ≤ (layout.linkage.address other).toNat ∨
      (layout.linkage.address other).toNat + 4 ≤ (layout.linkage.address name).toNat

/-- A state has the values of a world in their places. -/
structure Represents (world : World) (state : State) : Prop where
  fits : layout.Fits state.ebp
  values_eq : ∀ place, layout.Owns place →
    state.memory.load (layout.locate state.ebp place) = (world.values place).toBitVec
  calls_eq : state.calls = world.calls

/-- The top of the stack is below the locals, with a number of bytes below it
that may be used. -/
structure Room (need : Nat) (state : State) : Prop where
  enough : layout.bottom + need ≤ state.esp.toNat
  below : state.esp.toNat + layout.localSize ≤ state.ebp.toNat

/-- The bytes that may change: those of the places, and those below the top of the
stack. -/
def Writable (state : State) (byte : Word) : Prop :=
  (layout.bottom ≤ byte.toNat ∧ byte.toNat < state.esp.toNat) ∨
    ∃ place, layout.Owns place ∧ Covers (layout.locate state.ebp place) byte

/-- Only bytes that may change do. -/
structure Keeps (before after : State) : Prop where
  ebp_eq : after.ebp = before.ebp
  memory_eq : ∀ byte, ¬ layout.Writable before byte → after.memory byte = before.memory byte

/-! ## Places -/

variable {layout} {ebp : Word} {place other : Place}

theorem toNat_local (fits : layout.Fits ebp) {position : Nat}
    (h : position < layout.frame.locals.length) :
    (ebp + (Frame.localOffsetAt position).toBitVec).toNat + 4 * (position + 1) = ebp.toNat := by
  have := fits.locals_fit
  unfold localSize at this
  simp only [Frame.localOffsetAt, slotSize]
  simp
  bv_omega

theorem toNat_parameter (fits : layout.Fits ebp) {position : Nat}
    (h : position < layout.frame.parameters.length) :
    (ebp + (Frame.parameterOffsetAt position).toBitVec).toNat = ebp.toNat + 8 + 4 * position := by
  have := fits.parameters_fit
  unfold parameterSize at this
  simp only [Frame.parameterOffsetAt, firstParameterOffset, slotSize]
  simp
  bv_omega

/-- A name of a frame of the function has a place in the layout, and a variable of the
file has one if the layout has the variable. -/
theorem owns_resolve {frame : Frame} (within : frame.Within layout.frame) {name : String}
    (hvariables : frame.resolve name = .global name → name ∈ layout.globals) :
    layout.Owns (frame.resolve name) := by
  unfold Frame.resolve Frame.localOffset? Frame.parameterOffset? at *
  cases hlocal : frame.locals.idxOf? name with
  | some position =>
      obtain ⟨hposition, -⟩ := List.idxOf?_eq_some_iff.mp hlocal
      exact ⟨position, Nat.lt_of_lt_of_le hposition within.locals_prefix.length_le, rfl⟩
  | none =>
      cases hparameter : frame.parameters.idxOf? name with
      | some position =>
          obtain ⟨hposition, -⟩ := List.idxOf?_eq_some_iff.mp hparameter
          exact ⟨position, by rwa [within.parameters_eq], rfl⟩
      | none =>
          rw [hlocal, hparameter] at hvariables
          exact hvariables rfl

/-- The words of places, by what they are for. -/
theorem locate_cases (fits : layout.Fits ebp) (h : layout.Owns place) :
    (∃ position < layout.frame.locals.length,
      place = .localSlot (Frame.localOffsetAt position) ∧
        (layout.locate ebp place).toNat + 4 * (position + 1) = ebp.toNat) ∨
    (∃ position < layout.frame.parameters.length,
      place = .parameterSlot (Frame.parameterOffsetAt position) ∧
        (layout.locate ebp place).toNat = ebp.toNat + 8 + 4 * position) ∨
    ∃ name ∈ layout.globals,
      place = .global name ∧ layout.locate ebp place = layout.linkage.address name := by
  cases place with
  | localSlot offset =>
      obtain ⟨position, hposition, rfl⟩ := h
      exact .inl ⟨position, hposition, rfl, toNat_local fits hposition⟩
  | parameterSlot offset =>
      obtain ⟨position, hposition, rfl⟩ := h
      exact .inr (.inl ⟨position, hposition, rfl, toNat_parameter fits hposition⟩)
  | global name => exact .inr (.inr ⟨name, h, rfl, rfl⟩)

/-- No place is where the stack may grow, and none between the locals and the
parameters. -/
theorem toNat_locate (fits : layout.Fits ebp) (h : layout.Owns place) :
    (layout.locate ebp place).toNat + 4 ≤ 4294967296 ∧
      ((layout.locate ebp place).toNat + 4 ≤ layout.bottom ∨
        ebp.toNat ≤ (layout.locate ebp place).toNat + layout.localSize) ∧
      ((layout.locate ebp place).toNat + 4 ≤ ebp.toNat ∨
        ebp.toNat + 8 ≤ (layout.locate ebp place).toNat) := by
  have hbottom := fits.locals_fit
  have htop := fits.parameters_fit
  unfold parameterSize at htop
  rcases locate_cases fits h with ⟨position, hposition, -, haddress⟩ |
    ⟨position, hposition, -, haddress⟩ | ⟨name, hname, -, haddress⟩
  · unfold localSize at hbottom ⊢
    omega
  · omega
  · obtain ⟨hend, hside⟩ := fits.variables_fit name hname
    rw [haddress]
    omega

theorem toNat_of_covers_locate (fits : layout.Fits ebp) (h : layout.Owns place) {byte : Word}
    (hbyte : Covers (layout.locate ebp place) byte) :
    (byte.toNat < layout.bottom ∨ ebp.toNat ≤ byte.toNat + layout.localSize) ∧
      (byte.toNat < ebp.toNat ∨ ebp.toNat + 8 ≤ byte.toNat) := by
  obtain ⟨hend, hstack, hlinks⟩ := toNat_locate fits h
  have := toNat_of_covers hbyte hend
  omega

/-- Two places have no byte in common. -/
theorem locate_apart (fits : layout.Fits ebp) (h : layout.Owns place) (hother : layout.Owns other)
    (hne : place ≠ other) {byte : Word} (hbyte : Covers (layout.locate ebp place) byte) :
    ¬ Covers (layout.locate ebp other) byte := by
  intro hcovers
  have hplace := toNat_of_covers hbyte (toNat_locate fits h).1
  have hotherPlace := toNat_of_covers hcovers (toNat_locate fits hother).1
  have hbottom := fits.locals_fit
  have htop := fits.parameters_fit
  have hvariables := fits.variables_fit
  simp only [localSize, parameterSize] at hbottom htop hvariables
  -- the kinds of the two places fix their order, unless both are of the same kind
  rcases locate_cases fits h with ⟨position, hposition, rfl, haddress⟩ |
    ⟨position, hposition, rfl, haddress⟩ | ⟨name, hname, rfl, haddress⟩ <;>
  rcases locate_cases fits hother with ⟨position', hposition', rfl, haddress'⟩ |
    ⟨position', hposition', rfl, haddress'⟩ | ⟨name', hname', rfl, haddress'⟩
  · have : position ≠ position' := fun heq => hne (by rw [heq])
    omega
  · omega
  · have := hvariables name' hname'
    rw [haddress'] at hotherPlace
    omega
  · omega
  · have : position ≠ position' := fun heq => hne (by rw [heq])
    omega
  · have := hvariables name' hname'
    rw [haddress'] at hotherPlace
    omega
  · have := hvariables name hname
    rw [haddress] at hplace
    omega
  · have := hvariables name hname
    rw [haddress] at hplace
    omega
  · have := fits.variables_apart name hname name' hname' fun heq => hne (by rw [heq])
    rw [haddress] at hplace
    rw [haddress'] at hotherPlace
    omega

/-! ## Worlds in memory -/

variable {world : World} {state before middle after : State} {need more : Nat}

theorem Room.mono (room : layout.Room need state) (h : more ≤ need) : layout.Room more state where
  enough := Nat.le_trans (Nat.add_le_add_left h _) room.enough
  below := room.below

theorem Room.of_eq (room : layout.Room need before) (hesp : after.esp = before.esp)
    (hebp : after.ebp = before.ebp) : layout.Room need after where
  enough := by rw [hesp]; exact room.enough
  below := by rw [hesp, hebp]; exact room.below

namespace Keeps

theorem of_eq (hebp : after.ebp = before.ebp) (hmemory : after.memory = before.memory) :
    layout.Keeps before after where
  ebp_eq := hebp
  memory_eq byte _ := by rw [hmemory]

/-- What may change later may change from the start, as long as the stack only
grows. -/
theorem trans (keeps : layout.Keeps before middle) (hmore : layout.Keeps middle after)
    (hesp : middle.esp.toNat ≤ before.esp.toNat) : layout.Keeps before after where
  ebp_eq := hmore.ebp_eq.trans keeps.ebp_eq
  memory_eq byte hbyte := by
    rw [hmore.memory_eq byte ?_, keeps.memory_eq byte hbyte]
    -- what may change from the middle on could change from the start
    rintro (⟨hbottom, htop⟩ | ⟨place, howns, hcovers⟩)
    · exact hbyte (.inl ⟨hbottom, by omega⟩)
    · exact hbyte (.inr ⟨place, howns, by rwa [keeps.ebp_eq] at hcovers⟩)

/-- The words on the stack stay as they are. -/
theorem load_eq (keeps : layout.Keeps before after) (fits : layout.Fits before.ebp)
    (room : layout.Room need before) {address : Word} (hstack : before.esp.toNat ≤ address.toNat)
    (hlocals : address.toNat + 4 + layout.localSize ≤ before.ebp.toNat) :
    after.memory.load address = before.memory.load address := by
  have henough := room.enough
  apply Memory.load_congr
  intro byte hbyte
  apply keeps.memory_eq
  have hbytes := toNat_of_covers hbyte (by omega)
  rintro (⟨hbottom, htop⟩ | ⟨place, howns, hcovers⟩)
  · omega
  · have := toNat_of_covers_locate fits howns hcovers
    omega

end Keeps

namespace Represents

/-- Only the bytes of the places matter. -/
theorem congr (represents : layout.Represents world before) (hebp : after.ebp = before.ebp)
    (hcalls : after.calls = before.calls)
    (hmemory : ∀ place, layout.Owns place → ∀ byte,
      Covers (layout.locate before.ebp place) byte → after.memory byte = before.memory byte) :
    layout.Represents world after where
  fits := by rw [hebp]; exact represents.fits
  values_eq place howns := by
    rw [hebp, Memory.load_congr (hmemory place howns), represents.values_eq place howns]
  calls_eq := by rw [hcalls, represents.calls_eq]

theorem of_eq (represents : layout.Represents world before) (hebp : after.ebp = before.ebp)
    (hcalls : after.calls = before.calls) (hmemory : after.memory = before.memory) :
    layout.Represents world after :=
  represents.congr hebp hcalls fun _ _ _ _ => by rw [hmemory]

/-- A word that is pushed is in no place. -/
theorem push (represents : layout.Represents world state) (room : layout.Room (4 + need) state)
    (value : Word) : layout.Represents world (state.push value) := by
  have henough := room.enough
  have hbelow := room.below
  refine represents.congr rfl rfl fun place howns _ hbyte => Memory.store_of_not_covers ?_
  intro hcovers
  have hpushed := toNat_of_covers_below hcovers (by omega)
  have hplace := toNat_of_covers_locate represents.fits howns hbyte
  omega

/-- Storing a value in its place. -/
theorem store (represents : layout.Represents world state) {place : Place}
    (howns : layout.Owns place) {value : Int32} {word : Word} (hword : word = value.toBitVec) :
    layout.Represents (world.set place value)
      { state with memory := state.memory.store (layout.locate state.ebp place) word } where
  fits := represents.fits
  values_eq other hother := by
    -- the place itself has the new value, and no other place has a byte in common with it
    by_cases heq : other = place
    · subst heq
      simp [hword]
    · rw [World.values_set_of_ne heq, ← represents.values_eq other hother]
      exact Memory.load_store_of_apart fun _ => locate_apart represents.fits hother howns heq
  calls_eq := represents.calls_eq

end Represents

theorem Keeps.store {place : Place} (howns : layout.Owns place) (value : Word) :
    layout.Keeps state
      { state with memory := state.memory.store (layout.locate state.ebp place) value } where
  ebp_eq := rfl
  memory_eq _ hbyte := Memory.store_of_not_covers fun hcovers =>
    hbyte (.inr ⟨place, howns, hcovers⟩)

section Push

variable (room : layout.Room (4 + need) state) (value : Word)
include room

theorem toNat_esp_push : (state.push value).esp.toNat + 4 = state.esp.toNat := by
  have := room.enough
  simp only [State.push]
  bv_omega

theorem Room.push : layout.Room need (state.push value) where
  enough := by
    have := room.enough
    have := toNat_esp_push room value
    omega
  below := by
    have hbelow := room.below
    have := toNat_esp_push room value
    show _ ≤ state.ebp.toNat
    omega

theorem Keeps.push : layout.Keeps state (state.push value) where
  ebp_eq := rfl
  memory_eq byte hbyte := Memory.store_of_not_covers fun hcovers => by
    have := room.enough
    have := toNat_of_covers_below hcovers (by omega)
    exact hbyte (.inl (by omega))

end Push

@[simp] theorem load_esp_push (value : Word) :
    (state.push value).memory.load (state.push value).esp = value :=
  Memory.load_store_self

/-! ## Operands -/

theorem execute_load (place : Place) :
    executeAll layout.linkage [.mov Asm.Register.eax place.operand] state =
      .ok { state with eax := state.memory.load (layout.locate state.ebp place) } := by
  cases place <;> rfl

theorem execute_store (place : Place) :
    executeAll layout.linkage [.mov place.operand Asm.Register.eax] state =
      .ok { state with
        memory := state.memory.store (layout.locate state.ebp place) state.eax } := by
  cases place <;> rfl

/-! ## Calls -/

/-- Words are on the stack, the first one at an address and each other one after
the one before. -/
def Stacked (memory : Memory) : Word → List Int32 → Prop
  | _, [] => True
  | address, value :: values =>
      memory.load address = value.toBitVec ∧ Stacked memory (address + 4) values

theorem stacked_congr {memory other : Memory} {values : List Int32} {address : Word}
    (h : ∀ target : Word, address.toNat ≤ target.toNat →
      target.toNat + 4 ≤ address.toNat + 4 * values.length →
      other.load target = memory.load target)
    (hend : address.toNat + 4 * values.length < 4294967296)
    (stacked : Stacked memory address values) : Stacked other address values := by
  induction values generalizing address with
  | nil => trivial
  | cons value values ih =>
      obtain ⟨hvalue, hvalues⟩ := stacked
      rw [List.length_cons] at hend h
      have hnext : (address + 4).toNat = address.toNat + 4 := by bv_omega
      refine ⟨?_, ih ?_ (by omega) hvalues⟩
      · rw [h address (by omega) (by omega), hvalue]
      · intro target hlow hhigh
        exact h target (by omega) (by omega)

variable (layout)

/-- The values of the variables of the file are in their places. -/
def HoldsVariables (world : World) (memory : Memory) : Prop :=
  ∀ name ∈ layout.globals,
    memory.load (layout.linkage.address name) = (world.values (.global name)).toBitVec

/-- What a called function leaves: the result in `eax`, the stack as it was, and the
new values of the variables of the file in their places.  The function may use
the stack below the words of its arguments and these words. -/
structure Returned (oracle : Oracle) (world : World) (call : Call) (before after : State) :
    Prop where
  eax_eq : after.eax = (world.result oracle call).toBitVec
  ebp_eq : after.ebp = before.ebp
  esp_eq : after.esp = before.esp
  calls_eq : after.calls = (world.after oracle call).calls
  variables_eq : layout.HoldsVariables (world.after oracle call) after.memory
  memory_eq : ∀ byte : Word,
    byte.toNat < layout.bottom ∨ before.esp.toNat + 4 * call.arguments.length ≤ byte.toNat →
    (∀ name ∈ layout.globals, ¬ Covers (layout.linkage.address name) byte) →
    after.memory byte = before.memory byte

/-- A function does what an oracle says where it is called with a number of arguments.
With another number of arguments it may do something else. -/
def Follows (oracle : Oracle) (name : String) (count : Nat) : Prop :=
  ∀ (world : World) (state : State) (arguments : List Int32),
    arguments.length = count →
    Stacked state.memory state.esp arguments →
    layout.bottom + layout.reserve ≤ state.esp.toNat →
    layout.HoldsVariables world state.memory → state.calls = world.calls →
    layout.Returned oracle world ⟨name, arguments⟩ state (layout.linkage.callee name count state)

variable {layout} {oracle : Oracle} {call : Call}

theorem Represents.holdsVariables (represents : layout.Represents world state) :
    layout.HoldsVariables world state.memory :=
  fun name hname => represents.values_eq (.global name) hname

/-- A call leaves the locals and parameters of the caller as they are. -/
theorem Represents.of_returned (represents : layout.Represents world before)
    (hstack : before.esp.toNat + 4 * call.arguments.length + layout.localSize ≤ before.ebp.toNat)
    (returned : layout.Returned oracle world call before after) :
    layout.Represents (world.after oracle call) after where
  fits := by rw [returned.ebp_eq]; exact represents.fits
  values_eq place howns := by
    rw [returned.ebp_eq]
    -- the callee keeps to the stack below the caller and to the variables of the file
    have hold : (∀ name, place ≠ .global name) →
        after.memory.load (layout.locate before.ebp place) = (world.values place).toBitVec := by
      intro hplace
      rw [← represents.values_eq place howns]
      refine Memory.load_congr fun byte hbyte => returned.memory_eq byte ?_ ?_
      · have := toNat_of_covers_locate represents.fits howns hbyte
        omega
      · intro name hname
        have howner : layout.Owns (.global name) := hname
        exact locate_apart represents.fits howns howner (hplace name) hbyte
    cases place with
    | localSlot offset => exact hold fun _ => Place.noConfusion
    | parameterSlot offset => exact hold fun _ => Place.noConfusion
    | global name => exact returned.variables_eq name howns
  calls_eq := returned.calls_eq

end Layout

end Machine

end MiniC
