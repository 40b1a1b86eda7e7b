import MiniC.Proofs.Machine.Layout

/-!
# Called functions for an oracle

Whatever an oracle says, there are functions that do it: `answering` finds the
arguments of a call on the stack, the values of the variables of the file in their
places, and the calls before in the state, so that it can ask the oracle itself.  It
follows the oracle whatever it is called and with any number of arguments, in one
program (`follows_answering`).

A function outside of the code sees the variables of the file and no others, and so
must the oracle (`Oracle.LocalTo`).
-/

namespace MiniC

/-- An oracle goes by some variables alone, and what becomes of these goes by no others. -/
def Oracle.LocalTo (oracle : Oracle) (names : List String) : Prop :=
  ∀ calls call (globals other : String → Int32), (∀ name ∈ names, globals name = other name) →
    (oracle calls call globals).1 = (oracle calls call other).1 ∧
      ∀ name ∈ names, (oracle calls call globals).2 name = (oracle calls call other).2 name

namespace Machine

/-! ## Arguments -/

/-- The values of words on the stack, the first one at an address. -/
def valuesAt (memory : Memory) (address : Word) : Nat → List Int32
  | 0 => []
  | count + 1 => .ofBitVec (memory.load address) :: valuesAt memory (address + 4) count

theorem valuesAt_of_stacked {memory : Memory} {values : List Int32} {address : Word}
    (stacked : Layout.Stacked memory address values) :
    valuesAt memory address values.length = values := by
  induction values generalizing address with
  | nil => rfl
  | cons value values ih =>
      obtain ⟨hvalue, hvalues⟩ := stacked
      rw [List.length_cons, valuesAt, hvalue, ih hvalues, Int32.ofBitVec_toBitVec]

/-! ## Variables -/

/-- The memory with values in the places of variables. -/
def storeAll (address : String → Word) (values : String → Int32) (memory : Memory) :
    List String → Memory
  | [] => memory
  | name :: names =>
      (storeAll address values memory names).store (address name) (values name).toBitVec

section Variables

variable {address : String → Word} {values : String → Int32} {memory : Memory}
  {names : List String}

theorem storeAll_of_not_covers {byte : Word} (h : ∀ name ∈ names, ¬ Covers (address name) byte) :
    storeAll address values memory names byte = memory byte := by
  induction names with
  | nil => rfl
  | cons name names ih =>
      rw [storeAll, Memory.store_of_not_covers (h name List.mem_cons_self)]
      exact ih fun other hother => h other (List.mem_cons_of_mem _ hother)

/-- Where no two variables have a byte in common, each place has its value. -/
theorem load_storeAll (hapart : ∀ name ∈ names, ∀ other ∈ names, name ≠ other →
      ∀ byte, Covers (address name) byte → ¬ Covers (address other) byte)
    {name : String} (hname : name ∈ names) :
    (storeAll address values memory names).load (address name) = (values name).toBitVec := by
  induction names with
  | nil => cases hname
  | cons first names ih =>
      rw [storeAll]
      by_cases heq : name = first
      · rw [heq, Memory.load_store_self]
      · rw [Memory.load_store_of_apart (hapart name hname first List.mem_cons_self heq)]
        have hrest := (List.mem_cons.mp hname).resolve_left heq
        exact ih (fun one hone other hother => hapart one (List.mem_cons_of_mem _ hone) other
          (List.mem_cons_of_mem _ hother)) hrest

end Variables

/-! ## Functions that ask the oracle -/

/-- A function that does what an oracle says: it leaves the result in `eax` and the new
values of the variables in their places. -/
def answering (oracle : Oracle) (address : String → Word) (globals : List String) (name : String)
    (count : Nat) (state : State) : State :=
  let call : Call := ⟨name, valuesAt state.memory state.esp count⟩
  let answer := oracle state.calls call fun name => .ofBitVec (state.memory.load (address name))
  { state with
    eax := answer.1.toBitVec
    memory := storeAll address answer.2 state.memory globals
    calls := state.calls ++ [call] }

variable {layout : Layout} {oracle : Oracle}

/-- **Every oracle is followed**, by functions of any name and with any number of
arguments at once, as long as it goes by the variables of the file and these lie apart. -/
theorem follows_answering
    (hcallee : layout.linkage.callee = answering oracle layout.linkage.address layout.globals)
    (hlocal : oracle.LocalTo layout.globals)
    (hend : ∀ name ∈ layout.globals, (layout.linkage.address name).toNat + 4 ≤ 4294967296)
    (hapart : ∀ name ∈ layout.globals, ∀ other ∈ layout.globals, name ≠ other →
      (layout.linkage.address name).toNat + 4 ≤ (layout.linkage.address other).toNat ∨
        (layout.linkage.address other).toNat + 4 ≤ (layout.linkage.address name).toNat)
    (name : String) (count : Nat) : layout.Follows oracle name count := by
  rintro world state arguments rfl stacked - hvariables hcalls
  have hbytes : ∀ name ∈ layout.globals, ∀ other ∈ layout.globals, name ≠ other → ∀ byte,
      Covers (layout.linkage.address name) byte →
        ¬ Covers (layout.linkage.address other) byte := by
    intro name hname other hother hne byte hbyte hcovers
    have hone := toNat_of_covers hbyte (hend name hname)
    have htwo := toNat_of_covers hcovers (hend other hother)
    have := hapart name hname other hother hne
    omega
  -- the oracle hears of the same call, and of the same values of the variables of the file
  have hseen : ∀ name ∈ layout.globals,
      Int32.ofBitVec (state.memory.load (layout.linkage.address name)) = world.globals name := by
    intro name hname
    rw [hvariables name hname, Int32.ofBitVec_toBitVec]
    rfl
  obtain ⟨hresult, hglobals⟩ := hlocal world.calls ⟨name, arguments⟩ _ world.globals hseen
  have hanswer := valuesAt_of_stacked stacked
  rw [hcallee]
  simp only [answering, hanswer, hcalls]
  refine ⟨?_, rfl, rfl, rfl, ?_, ?_⟩
  · exact congrArg Int32.toBitVec hresult
  · intro other hother
    show (storeAll _ _ _ _).load _ = _
    rw [load_storeAll hbytes hother]
    exact congrArg Int32.toBitVec (hglobals other hother)
  · exact fun byte _ hbyte => storeAll_of_not_covers hbyte

end Machine

end MiniC
