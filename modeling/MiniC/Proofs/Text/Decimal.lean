import MiniC.Text.Decimal

/-!
# Decimal texts

An integer is written as a sign, if it is negative, and the digits of its size
(`toList_toString_of_neg`, `toList_toString_of_nonneg`), and what is written so is read
back (`natural?_toDigits`, `int32?_of_toInt`).  No zero stands before other digits
(`eq_zero_of_toDigits`).

`Denotes` says which texts write an integer at all: those with a sign or none and any digits after
it, leading zeros included (`integer?_eq_some_iff`).
-/

namespace MiniC.Text

theorem toList_toString_of_nonneg {value : Int} (h : 0 ≤ value) :
    (toString value).toList = Nat.toDigits 10 value.natAbs := by
  obtain ⟨n, rfl⟩ := Int.eq_ofNat_of_zero_le h
  exact Nat.toList_repr

theorem toList_toString_of_neg {value : Int} (h : value < 0) :
    (toString value).toList = '-' :: Nat.toDigits 10 value.natAbs := by
  obtain ⟨n, rfl⟩ := Int.eq_negSucc_of_lt_zero h
  calc (toString (Int.negSucc n)).toList
      = ("-" ++ Nat.repr (n + 1)).toList := rfl
    _ = '-' :: Nat.toDigits 10 (n + 1) := by simp [Nat.toList_repr]

theorem natural?_toDigits (n : Nat) : natural? (Nat.toDigits 10 n) = some n := by
  have hdigits : (Nat.toDigits 10 n).all Char.isDigit = true :=
    List.all_eq_true.mpr fun c hc => Nat.isDigit_of_mem_toDigits (by decide) (by decide) hc
  rw [natural?, if_pos (by simp [hdigits, Nat.toDigits_ne_nil])]
  exact congrArg some Nat.ofDigitChars_ten_toDigits

/-- A text that starts with a digit has no sign. -/
theorem integer?_of_digits {text : String} {n : Nat} (h : text.toList = Nat.toDigits 10 n) :
    integer? text = some (n : Int) := by
  have hdigit : ∀ c ∈ text.toList, c.isDigit = true := fun c hc =>
    Nat.isDigit_of_mem_toDigits (b := 10) (n := n) (by decide) (by decide) (h ▸ hc)
  unfold integer?
  split
  · next hlist => exact absurd (hdigit '+' (by simp [hlist])) (by decide)
  · next hlist => exact absurd (hdigit '-' (by simp [hlist])) (by decide)
  · rw [h, natural?_toDigits]
    rfl

theorem integer?_of_plus {text : String} {n : Nat} (h : text.toList = '+' :: Nat.toDigits 10 n) :
    integer? text = some (n : Int) := by
  simp [integer?, h, natural?_toDigits]

theorem integer?_of_minus {text : String} {n : Nat} (h : text.toList = '-' :: Nat.toDigits 10 n) :
    integer? text = some (-(n : Int)) := by
  simp [integer?, h, natural?_toDigits]

theorem int32?_of_toInt {text : String} {value : Int32}
    (h : integer? text = some value.toInt) : int32? text = some value := by
  have hlow := value.le_toInt
  have hhigh := value.toInt_lt
  simp only [int32?, h, Option.bind_eq_bind, Option.bind_some]
  rw [if_pos (by omega), Int32.ofInt_toInt]

theorem isDigit_head_of_digits {c : Char} {rest : List Char} {n : Nat}
    (h : Nat.toDigits 10 n = c :: rest) : c.isDigit = true :=
  Nat.isDigit_of_mem_toDigits (b := 10) (n := n) (by decide) (by decide)
    (h ▸ List.mem_cons_self)

/-- Only the digits of zero start with a zero. -/
theorem eq_zero_of_toDigits {n : Nat} {rest : List Char} (h : Nat.toDigits 10 n = '0' :: rest) :
    n = 0 := by
  have hdigit : ∀ n < 10, Nat.digitChar n = '0' → n = 0 := by decide
  induction n using Nat.strongRecOn generalizing rest with
  | _ n ih =>
      rw [Nat.toDigits_eq_if (by decide)] at h
      split at h
      next hsmall => exact hdigit n hsmall (List.cons.inj h).1
      next hlarge =>
        obtain ⟨c, others, hcons⟩ := List.exists_cons_of_ne_nil
          (Nat.toDigits_ne_nil (n := n / 10) (b := 10))
        rw [hcons] at h
        obtain ⟨rfl, -⟩ := List.cons.inj h
        have hzero : n / 10 = 0 := ih (n / 10) (by omega) hcons
        omega

/-! ## Texts that write integers -/

/-- Characters that are a number in decimal, with any number of leading zeros. -/
structure IsDecimal (digits : List Char) : Prop where
  ne_nil : digits ≠ []
  isDigit : ∀ c ∈ digits, c.isDigit

/-- A text writes an integer: an optional sign, and then a number in decimal. -/
inductive Denotes (text : String) : Int → Prop where
  | unsigned {digits : List Char} (h : text.toList = digits) (hdigits : IsDecimal digits) :
      Denotes text (Nat.ofDigitChars 10 digits 0)
  | positive {digits : List Char} (h : text.toList = '+' :: digits) (hdigits : IsDecimal digits) :
      Denotes text (Nat.ofDigitChars 10 digits 0)
  | negative {digits : List Char} (h : text.toList = '-' :: digits) (hdigits : IsDecimal digits) :
      Denotes text (-(Nat.ofDigitChars 10 digits 0 : Int))

theorem natural?_of_isDecimal {digits : List Char} (h : IsDecimal digits) :
    natural? digits = some (Nat.ofDigitChars 10 digits 0) := by
  have hall : (!digits.isEmpty && digits.all Char.isDigit) = true := by
    rw [List.all_eq_true.mpr h.isDigit, Bool.and_true]
    simpa using h.ne_nil
  rw [natural?, if_pos hall]
  rfl

theorem isDecimal_of_natural? {digits : List Char} {n : Nat} (h : natural? digits = some n) :
    IsDecimal digits ∧ n = Nat.ofDigitChars 10 digits 0 := by
  rw [natural?] at h
  split at h
  next hdigits =>
    obtain ⟨hne, hall⟩ := (Bool.and_eq_true _ _).mp hdigits
    exact ⟨⟨by simpa using hne, List.all_eq_true.mp hall⟩, (Option.some.inj h).symm⟩
  next => cases h

/-- The texts of integers are those that write one. -/
theorem integer?_eq_some_iff {text : String} {value : Int} :
    integer? text = some value ↔ Denotes text value := by
  constructor
  · intro h
    rw [integer?] at h
    split at h
    next digits hlist =>
      obtain ⟨n, hn, rfl⟩ := Option.map_eq_some_iff.mp h
      obtain ⟨hdigits, rfl⟩ := isDecimal_of_natural? hn
      exact .positive hlist hdigits
    next digits hlist =>
      obtain ⟨magnitude, hmagnitude, rfl⟩ := Option.map_eq_some_iff.mp h
      obtain ⟨n, hn, hcast⟩ := Option.bind_eq_some_iff.mp hmagnitude
      cases hcast
      obtain ⟨hdigits, rfl⟩ := isDecimal_of_natural? hn
      exact .negative hlist hdigits
    next =>
      obtain ⟨n, hn, rfl⟩ := Option.map_eq_some_iff.mp h
      obtain ⟨hdigits, rfl⟩ := isDecimal_of_natural? hn
      exact .unsigned rfl hdigits
  · intro h
    cases h with
    | unsigned hlist hdigits =>
        subst hlist
        rw [integer?]
        -- a digit is no sign
        split
        next hlist => exact absurd (hdigits.isDigit '+' (by simp [hlist])) (by decide)
        next hlist => exact absurd (hdigits.isDigit '-' (by simp [hlist])) (by decide)
        next =>
          rw [natural?_of_isDecimal hdigits]
          rfl
    | positive hlist hdigits =>
        simp [integer?, hlist, natural?_of_isDecimal hdigits]
    | negative hlist hdigits =>
        simp [integer?, hlist, natural?_of_isDecimal hdigits]

/-- A text writes one integer only. -/
theorem Denotes.unique {text : String} {value other : Int} (h : Denotes text value)
    (hother : Denotes text other) : other = value := by
  rw [← integer?_eq_some_iff] at h hother
  exact Option.some.inj (hother.symm.trans h)

end MiniC.Text
