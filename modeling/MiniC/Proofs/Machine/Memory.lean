/-!
# Words in memory

The memory of the machine is a byte for each of the 2³² addresses, and a word
is kept in four of them, the lowest byte first.  Addresses wrap around.

`Covers address byte` says that `byte` is one of the four bytes of the word at
`address`; a store changes just those (`store_of_not_covers`), and a load
depends on no others (`load_congr`).  In front of the wrap-around the covered
bytes are an interval (`toNat_of_covers`).
-/

namespace MiniC.Machine

/-- The contents of a 32-bit register, and an address. -/
abbrev Word := BitVec 32

/-- The contents of the memory. -/
abbrev Memory := Word → BitVec 8

/-- A byte belongs to the word at an address. -/
def Covers (address byte : Word) : Prop := (byte - address).toNat < 4

namespace Memory

variable {memory other : Memory} {address byte word : Word}

/-- The word at an address. -/
def load (memory : Memory) (address : Word) : Word :=
  memory (address + 3) ++ memory (address + 2) ++ memory (address + 1) ++ memory address

/-- The memory with another word at an address. -/
def store (memory : Memory) (address word : Word) : Memory := fun byte =>
  if (byte - address).toNat < 4 then word.extractLsb' (8 * (byte - address).toNat) 8
  else memory byte

theorem store_of_not_covers (h : ¬ Covers address byte) :
    memory.store address word byte = memory byte :=
  if_neg h

theorem load_congr (h : ∀ byte, Covers address byte → memory byte = other byte) :
    memory.load address = other.load address := by
  have hbyte : ∀ offset : Word, offset.toNat < 4 →
      memory (address + offset) = other (address + offset) := by
    intro offset hoffset
    apply h
    unfold Covers
    bv_omega
  have hfirst : memory address = other address := h address (by simp [Covers])
  rw [load, load, hbyte 1 (by decide), hbyte 2 (by decide), hbyte 3 (by decide), hfirst]

@[simp] theorem load_store_self : (memory.store address word).load address = word := by
  have hoffset : ∀ offset : Word, address + offset - address = offset := by
    intro offset
    rw [BitVec.add_comm, BitVec.add_sub_cancel]
  simp only [load, store, hoffset, BitVec.sub_self]
  apply BitVec.eq_of_getLsbD_eq
  intro bit hbit
  simp only [BitVec.getLsbD_append]
  grind

theorem load_store_of_apart {target : Word}
    (h : ∀ byte, Covers target byte → ¬ Covers address byte) :
    (memory.store address word).load target = memory.load target :=
  load_congr fun byte hbyte => store_of_not_covers (h byte hbyte)

end Memory

theorem toNat_of_covers {address byte : Word} (h : Covers address byte)
    (haddress : address.toNat + 4 ≤ 4294967296) :
    address.toNat ≤ byte.toNat ∧ byte.toNat < address.toNat + 4 := by
  unfold Covers at h
  bv_omega

/-- The word just below an address. -/
theorem toNat_of_covers_below {address byte : Word} (h : Covers (address - 4) byte)
    (haddress : 4 ≤ address.toNat) :
    address.toNat ≤ byte.toNat + 4 ∧ byte.toNat < address.toNat := by
  unfold Covers at h
  bv_omega

end MiniC.Machine
