import MiniC.Codegen.Scope
import MiniC.Proofs.Machine.State
import MiniC.Proofs.Meaning.Expression

/-!
# Operators on the machine

The instructions of an operator find the left operand in `ebx` and the right one
in `eax`, and leave the value of the operator in `eax`
(`executeAll_binarySequence`, `executeAll_unarySequence`).  They trap where the
operator has no value, and they touch neither the stack nor the memory.
-/

namespace MiniC.Machine

open Asm (Condition Instruction Register)
open Codegen (binarySequence unarySequence)

/-! ## Comparisons -/

/-- After a comparison, the condition `l` holds if the left word is less than the
right one as an integer with sign. -/
theorem satisfy_less (left right : Word) :
    (Flags.ofDifference left right).satisfy .l = left.slt right := by
  have := left.toInt_lt
  have := left.le_toInt
  have := right.toInt_lt
  have := right.le_toInt
  simp only [Flags.satisfy, Flags.ofDifference, Flags.ofResult, BitVec.ssubOverflow, BitVec.slt,
    BitVec.msb_eq_toInt, BitVec.toInt_sub, Int.bmod]
  simp
  grind

theorem satisfy_equal (left right : Word) :
    (Flags.ofDifference left right).satisfy .e = decide (left = right) := by
  simp only [Flags.satisfy, Flags.ofDifference, Flags.ofResult, Bool.beq_eq_decide_eq,
    BitVec.sub_eq_iff_eq_add]
  simp

/-- Whether two integers compare as a condition says. -/
def compares (left right : Int32) : Condition → Bool
  | .e => left = right
  | .ne => left ≠ right
  | .l => left < right
  | .le => left ≤ right
  | .g => right < left
  | .ge => right ≤ left

/-- After a comparison, the conditions that hold are those that compare the two
integers with sign. -/
theorem satisfy_ofDifference (left right : Int32) (condition : Condition) :
    (Flags.ofDifference left.toBitVec right.toBitVec).satisfy condition =
      compares left right condition := by
  have hless : (Flags.ofDifference left.toBitVec right.toBitVec).satisfy .l =
      decide (left.toInt < right.toInt) := satisfy_less _ _
  have hequal : (Flags.ofDifference left.toBitVec right.toBitVec).satisfy .e =
      decide (left.toInt = right.toInt) := by
    simp only [satisfy_equal, ← Int32.eq_iff_toBitVec_eq, ← Int32.toInt_inj]
  simp only [Flags.satisfy] at hless hequal
  cases condition <;>
    simp only [Flags.satisfy, compares, hless, hequal, Int32.lt_iff_toInt_lt,
      Int32.le_iff_toInt_le, ← Int32.toInt_inj, ne_eq] <;>
    grind

/-! ## Division -/

/-- What `cdq` leaves in `edx` extends `eax` to 64 bits. -/
theorem toInt_extend (word : Word) :
    ((if word.msb then BitVec.allOnes 32 else 0) ++ word : BitVec 64).toInt = word.toInt := by
  have hextend : ((if word.msb then BitVec.allOnes 32 else 0) ++ word : BitVec 64) =
      word.signExtend 64 := by
    apply BitVec.eq_of_getLsbD_eq
    intro bit hbit
    rw [BitVec.getLsbD_append, BitVec.getLsbD_signExtend]
    by_cases hlow : bit < 32
    · simp [hlow, hbit]
    · have hhigh : bit - 32 < 32 := by omega
      cases word.msb <;> simp [hlow, hbit, hhigh, -BitVec.reduceAllOnes]
  rw [hextend, BitVec.toInt_signExtend_of_le (by decide)]

/-- Only the least integer divided by minus one has a quotient out of range. -/
theorem tdiv_range {dividend divisor : Int} (hleast : -2147483648 ≤ dividend)
    (hgreatest : dividend < 2147483648) (hdivisor : divisor ≠ 0) :
    (-2147483648 ≤ dividend.tdiv divisor ∧ dividend.tdiv divisor < 2147483648) ↔
      ¬ (dividend = -2147483648 ∧ divisor = -1) := by
  have habs : (dividend.tdiv divisor).natAbs ≤ dividend.natAbs := by
    rw [Int.natAbs_tdiv]
    exact Nat.div_le_self _ _
  constructor
  · rintro ⟨-, hlt⟩ ⟨rfl, rfl⟩
    exact absurd hlt (by decide)
  · intro h
    by_cases hleast : dividend = -2147483648
    · subst hleast
      -- a quotient by anything but one is smaller than the dividend
      by_cases hone : divisor = 1
      · subst hone
        decide
      · have hlt : (Int.tdiv (-2147483648) divisor).natAbs < 2147483648 := by
          rw [Int.natAbs_tdiv]
          exact Nat.div_lt_self (by decide) (by omega)
        omega
    · omega

/-- The operands of a division that has a quotient. -/
theorem value?_div (left right : Int32) :
    BinaryOp.div.value? left right =
      if right.toInt = 0 ∨ (left.toInt = -2147483648 ∧ right.toInt = -1) then none
      else some (left / right) := by
  have hzero : right = 0 ↔ right.toInt = 0 := Int32.toInt_inj.symm
  have hleast : left = Int32.minValue ↔ left.toInt = -2147483648 := Int32.toInt_inj.symm
  have hminus : right = -1 ↔ right.toInt = -1 := Int32.toInt_inj.symm
  simp only [BinaryOp.value?, hzero, hleast, hminus]

/-! ## Operators -/

/-- Only registers and flags other than those that address the stack differ. -/
structure Quiet (before after : State) : Prop where
  ebp_eq : after.ebp = before.ebp
  esp_eq : after.esp = before.esp
  memory_eq : after.memory = before.memory
  calls_eq : after.calls = before.calls

theorem Quiet.trans {before middle after : State} (quiet : Quiet before middle)
    (hmore : Quiet middle after) : Quiet before after :=
  ⟨hmore.ebp_eq.trans quiet.ebp_eq, hmore.esp_eq.trans quiet.esp_eq,
    hmore.memory_eq.trans quiet.memory_eq, hmore.calls_eq.trans quiet.calls_eq⟩

theorem divide_of_extended {state : State} {left right : Int32} (heax : state.eax = left.toBitVec)
    (hedx : state.edx = if state.eax.msb then BitVec.allOnes 32 else 0) :
    Agrees (fun value after => after.eax = value.toBitVec ∧ Quiet state after)
      (BinaryOp.div.value? left right) (divide state right.toBitVec) := by
  have hdividend : (state.edx ++ state.eax : BitVec 64).toInt = left.toInt := by
    rw [hedx, toInt_extend, heax]
    rfl
  have hdivisor : right.toBitVec.toInt = right.toInt := rfl
  have hzero : right.toBitVec = 0 ↔ right.toInt = 0 := by
    rw [← BitVec.toInt_inj]
    rfl
  rw [value?_div]
  simp only [Agrees, divide, hdividend, hdivisor, hzero]
  have hrange (h : right.toInt ≠ 0) :=
    tdiv_range left.le_toInt left.toInt_lt h
  split
  next _ h =>
    split at h
    · rw [if_pos (by grind)]
    · cases h
  next _ h =>
    split at h
    · cases h
    · cases h
      refine ⟨_, if_neg (by grind), ?_, rfl, rfl, rfl, rfl⟩
      apply BitVec.eq_of_toInt_eq
      rw [Int32.toBitVec_div, BitVec.toInt_sdiv, BitVec.toInt_ofInt]
      rfl

variable {linkage : Linkage} {state : State}

theorem executeAll_compare (condition : Condition) {left right : Int32}
    (hleft : state.ebx = left.toBitVec) (hright : state.eax = right.toBitVec) :
    Agrees (fun value after => after.eax = value.toBitVec ∧ Quiet state after)
      (some (truthValue (compares left right condition)))
      (executeAll linkage (Codegen.compare condition) state) := by
  have hsatisfy : (Flags.ofDifference state.ebx state.eax).satisfy condition =
      compares left right condition := by
    rw [hleft, hright, satisfy_ofDifference]
  refine .of_ok rfl ⟨?_, rfl, rfl, rfl, rfl⟩
  -- the low byte replaces the rest of the register
  show ((state.eax.extractLsb' 8 24 ++
    (if (Flags.ofDifference state.ebx state.eax).satisfy condition then 1 else 0 : BitVec 8) :
      Word).setWidth 8).setWidth 32 = _
  rw [BitVec.setWidth_append_eq_right, hsatisfy]
  cases compares left right condition <;> rfl

/-- The operands of an operator whose order matters. -/
theorem executeAll_exchange (linkage : Linkage) {left right : Int32}
    (hleft : state.ebx = left.toBitVec)
    (hright : state.eax = right.toBitVec) :
    ∃ after, executeAll linkage Codegen.exchange state = .ok after ∧
      after.eax = left.toBitVec ∧ after.ecx = right.toBitVec ∧ Quiet state after :=
  ⟨_, rfl, hleft, hright, rfl, rfl, rfl, rfl⟩

/-- The instructions of an operator between two operands compute its value, or
trap where it has none. -/
theorem executeAll_binarySequence (op : BinaryOp) {left right : Int32}
    (hleft : state.ebx = left.toBitVec) (hright : state.eax = right.toBitVec) :
    Agrees (fun value after => after.eax = value.toBitVec ∧ Quiet state after)
      (op.value? left right) (executeAll linkage (binarySequence op) state) := by
  obtain ⟨exchanged, hexchange, heax, hecx, hquiet⟩ := executeAll_exchange linkage hleft hright
  cases op with
  | add =>
      refine .of_ok rfl ⟨?_, rfl, rfl, rfl, rfl⟩
      simp [hleft, hright, BitVec.add_comm]
  | sub =>
      refine .of_ok (executeAll_append_of_ok rfl hexchange) ⟨?_, hquiet.trans ⟨rfl, rfl, rfl, rfl⟩⟩
      simp [heax, hecx]
  | mul =>
      refine .of_ok (executeAll_append_of_ok rfl hexchange) ⟨?_, hquiet.trans ⟨rfl, rfl, rfl, rfl⟩⟩
      simp [heax, hecx]
  | div =>
      -- `cdq` comes after the exchange, so that it extends the left operand
      obtain ⟨extended, hextended, hedx⟩ : ∃ extended : State, extended = { exchanged with
          edx := if exchanged.eax.msb then BitVec.allOnes 32 else 0 } ∧
            extended.edx = if extended.eax.msb then BitVec.allOnes 32 else 0 := ⟨_, rfl, rfl⟩
      have hcode : executeAll linkage (binarySequence .div) state =
          divide extended right.toBitVec := by
        rw [binarySequence, executeAll_append_of_ok rfl hexchange, hextended, ← hecx]
        exact bind_pure (m := Except Trap) _
      have heax : extended.eax = left.toBitVec := by rw [hextended, heax]
      have hquiet : Quiet state extended := by
        subst hextended
        exact hquiet.trans ⟨rfl, rfl, rfl, rfl⟩
      rw [hcode]
      exact (divide_of_extended heax hedx).mono fun value after ⟨heax, hquotient⟩ =>
        ⟨heax, hquiet.trans hquotient⟩
  | less => exact executeAll_compare .l hleft hright
  | lessEqual => exact executeAll_compare .le hleft hright
  | greater => exact executeAll_compare .g hleft hright
  | greaterEqual => exact executeAll_compare .ge hleft hright
  | equal => exact executeAll_compare .e hleft hright
  | notEqual => exact executeAll_compare .ne hleft hright
  | logicalAnd =>
      refine .of_ok rfl ⟨?_, rfl, rfl, rfl, rfl⟩
      simp [hleft, hright, BitVec.and_comm]
  | logicalOr =>
      refine .of_ok rfl ⟨?_, rfl, rfl, rfl, rfl⟩
      simp [hleft, hright, BitVec.or_comm]

theorem executeAll_unarySequence (op : UnaryOp) {operand : Int32}
    (heax : state.eax = operand.toBitVec) :
    ∃ after, executeAll linkage (unarySequence op) state = .ok after ∧
      after.eax = (op.value operand).toBitVec ∧ Quiet state after := by
  cases op with
  | plus => exact ⟨state, rfl, heax, rfl, rfl, rfl, rfl⟩
  | minus =>
      refine ⟨_, rfl, ?_, rfl, rfl, rfl, rfl⟩
      simp [heax, UnaryOp.value]
  | logicalNot =>
      refine ⟨_, rfl, ?_, rfl, rfl, rfl, rfl⟩
      simp [heax, UnaryOp.value]

end MiniC.Machine
