import MiniC.Json.Printer
import MiniC.Json.Reader
import MiniC.Proofs.Text.Decimal
import Mathlib.Data.List.DropRight
import Mathlib.Data.List.TakeDrop

/-!
# Strings and numbers read back

What stands between quotes is read back character by character, since each escape names
the character that it stands for (`readItems_escape`).  A string that denotes no text is
written as half of a surrogate pair and reads as such (`readString_printString`).

The end of a number is not marked.  It is read back where nothing follows that could belong
to it (`EndsNumber`, `readNumber_printNumber`).
-/

namespace MiniC.Json

open Text (eq_zero_of_toDigits toList_toString_of_neg toList_toString_of_nonneg)

/-! ## Blanks -/

theorem skipSpace_skipSpace (chars : List Char) : skipSpace (skipSpace chars) = skipSpace chars :=
  List.dropWhile_idempotent isSpace chars

theorem skipSpace_of_not_isSpace {c : Char} (h : isSpace c = false) (rest : List Char) :
    skipSpace (c :: rest) = c :: rest :=
  List.dropWhile_cons_of_neg (by simp [h])

theorem skipSpace_newLine (level : Nat) (chars : List Char) :
    skipSpace ((newLine level).toList ++ chars) = skipSpace chars := by
  apply List.dropWhile_append_of_pos
  intro c hc
  rw [newLine, String.toList_append, String.toList_ofList, List.mem_append] at hc
  rcases hc with hc | hc
  · obtain rfl : c = '\n' := by simpa using hc
    rfl
  · rw [String.toList_ofList] at hc
    obtain rfl := List.eq_of_mem_replicate hc
    rfl

/-! ## Strings -/

theorem hexDigit?_hexDigit : ∀ n < 16, hexDigit? (hexDigit n) = some n := by decide

theorem unitItem?_control {n : Nat} (h : n < 32) :
    unitItem? '0' '0' (hexDigit (n / 16)) (hexDigit (n % 16)) = some (.char (Char.ofNat n)) := by
  have hzero : hexDigit? '0' = some 0 := rfl
  simp only [unitItem?, hzero, hexDigit?_hexDigit (n / 16) (by omega),
    hexDigit?_hexDigit (n % 16) (by omega), Option.bind_eq_bind, Option.bind_some]
  rw [if_neg (by omega)]
  congr 3
  omega

theorem readItems_quote (rest : List Char) (items : List StringItem) :
    readItems ('"' :: rest) items = some (items.reverse, rest) := by
  rw [readItems.eq_def]
  simp

theorem readItems_plain {c : Char} (hquote : c ≠ '"') (hbackslash : c ≠ '\\') (hplain : ¬ c < ' ')
    (rest : List Char) (items : List StringItem) :
    readItems (c :: rest) items = readItems rest (.char c :: items) := by
  rw [readItems.eq_def]
  simp [hquote, hbackslash, hplain]

/-- An escaped character is read as that character. -/
theorem readItems_escape (c : Char) (rest : List Char) (items : List StringItem) :
    readItems (escape c ++ rest) items = readItems rest (.char c :: items) := by
  -- the short escapes, the numbered one for control characters, and characters as they are
  unfold escape
  split_ifs with hquote hbackslash hback hfeed hline hreturn htab hcontrol
  · subst hquote
    simp [readItems, escaped?]
  · subst hbackslash
    simp [readItems, escaped?]
  · subst hback
    simp [readItems, escaped?]
  · subst hfeed
    simp [readItems, escaped?]
  · subst hline
    simp [readItems, escaped?]
  · subst hreturn
    simp [readItems, escaped?]
  · subst htab
    simp [readItems, escaped?]
  · have hsmall : c.toNat < 32 := hcontrol
    simp [readItems, unitItem?_control hsmall, Char.ofNat_toNat]
  · exact readItems_plain hquote hbackslash hcontrol rest items

theorem readItems_quoted (chars rest : List Char) (items : List StringItem) :
    readItems (chars.flatMap escape ++ '"' :: rest) items =
      some (items.reverse ++ chars.map .char, rest) := by
  induction chars generalizing items with
  | nil => simp [readItems_quote]
  | cons c chars ih =>
      rw [List.flatMap_cons, List.append_assoc, readItems_escape, ih]
      simp

theorem charsOfItems?_map_char (chars : List Char) :
    charsOfItems? (chars.map .char) = some chars := by
  induction chars with
  | nil => rfl
  | cons c chars ih => simp [charsOfItems?, ih]

/-- A string is read back from its characters after the opening quote. -/
theorem readString_printString (text : Option String) :
    ∃ body, (printString text).toList = '"' :: body ∧
      ∀ rest, readString (body ++ rest) = some (text, rest) := by
  cases text with
  -- half of a surrogate pair denotes no text
  | none => exact ⟨['\\', 'u', 'd', '8', '0', '0', '"'], by simp [printString], fun rest => by
      simp [readString, readItems, readItems_quote, unitItem?, hexDigit?, charsOfItems?]⟩
  | some text =>
      refine ⟨text.toList.flatMap escape ++ ['"'], by simp [printString, quote], ?_⟩
      intro rest
      rw [List.append_assoc, List.singleton_append, readString, readItems_quoted]
      simp [charsOfItems?_map_char]

/-! ## Numbers -/

/-- Nothing that could belong to a number before it starts a text. -/
def EndsNumber (rest : List Char) : Prop :=
  ∀ c ∈ rest.head?, c.isDigit = false ∧ c ≠ '.' ∧ c ≠ 'e' ∧ c ≠ 'E'

theorem endsNumber_nil : EndsNumber [] := by simp [EndsNumber]

theorem endsNumber_cons {c : Char} {rest : List Char}
    (h : c.isDigit = false ∧ c ≠ '.' ∧ c ≠ 'e' ∧ c ≠ 'E') : EndsNumber (c :: rest) := by
  simpa [EndsNumber] using h

section Numbers

variable {rest : List Char} (hrest : EndsNumber rest)
include hrest

theorem readDigits_toDigits (n : Nat) :
    readDigits (Nat.toDigits 10 n ++ rest) = some (Nat.toDigits 10 n, rest) := by
  have hdigits : ∀ c ∈ Nat.toDigits 10 n, c.isDigit = true := fun c hc =>
    Nat.isDigit_of_mem_toDigits (by decide) (by decide) hc
  have htake : rest.takeWhile Char.isDigit = [] ∧ rest.dropWhile Char.isDigit = rest := by
    cases rest with
    | nil => exact ⟨rfl, rfl⟩
    | cons c rest =>
        obtain ⟨hc, -⟩ := hrest c rfl
        simp [hc]
  rw [readDigits, List.span_eq_takeWhile_dropWhile, List.takeWhile_append_of_pos hdigits,
    List.dropWhile_append_of_pos hdigits, htake.1, htake.2, List.append_nil]
  obtain ⟨c, others, hcons⟩ := List.exists_cons_of_ne_nil
    (Nat.toDigits_ne_nil (n := n) (b := 10))
  rw [hcons]

theorem readWhole_toDigits (n : Nat) :
    readWhole (Nat.toDigits 10 n ++ rest) = some (Nat.toDigits 10 n, rest) := by
  rw [readWhole, readDigits_toDigits hrest, Option.bind_eq_bind, Option.bind_some]
  -- only the number 0 starts with a 0, and it has no further digits
  apply if_neg
  rintro ⟨hhead, hlength⟩
  obtain ⟨others, hcons⟩ := List.head?_eq_some_iff.mp hhead
  obtain rfl := eq_zero_of_toDigits hcons
  exact hlength rfl

theorem skipFraction_of_ends : skipFraction rest = some (false, rest) := by
  cases rest with
  | nil => rfl
  | cons c rest =>
      obtain ⟨-, hpoint, -⟩ := hrest c rfl
      unfold skipFraction
      split
      next heq => exact absurd (List.cons.inj heq).1 hpoint
      next => rfl

theorem skipExponent_of_ends : skipExponent rest = some (false, rest) := by
  cases rest with
  | nil => rfl
  | cons c rest =>
      obtain ⟨-, -, hlower, hupper⟩ := hrest c rfl
      simp [skipExponent, hlower, hupper]

/-- A number is read back where it ends. -/
theorem readNumber_printNumber (whole : Option Int) :
    readNumber ((printNumber whole).toList ++ rest) = some (.number whole, rest) := by
  have hsize (n : Nat) : Text.valueOfDigits (Nat.toDigits 10 n) = n :=
    Nat.ofDigitChars_ten_toDigits
  have hfraction := skipFraction_of_ends hrest
  have hexponent := skipExponent_of_ends hrest
  cases whole with
  -- a number that is not whole is printed as `-0`, which denotes no integer
  | none =>
      have hwhole : readWhole ('0' :: rest) = some (['0'], rest) := readWhole_toDigits hrest 0
      simp [printNumber, readNumber, hwhole, hfraction, hexponent, Text.valueOfDigits]
  | some value =>
      have hwhole := readWhole_toDigits hrest value.natAbs
      rw [printNumber]
      rcases Int.lt_or_le value 0 with hneg | hpos
      · have hne : value.natAbs ≠ 0 := by omega
        have hvalue : -(value.natAbs : Int) = value := by omega
        rw [toList_toString_of_neg hneg]
        generalize value.natAbs = size at hne hvalue hwhole ⊢
        simp [readNumber, hwhole, hfraction, hexponent, hsize, hne, hvalue]
      · have hvalue : (value.natAbs : Int) = value := by omega
        -- digits come first, so the minus sign that the reader looks for is not there
        have hsign (tail : List Char) : Nat.toDigits 10 value.natAbs ++ rest ≠ '-' :: tail := by
          obtain ⟨c, others, hcons⟩ := List.exists_cons_of_ne_nil
            (Nat.toDigits_ne_nil (n := value.natAbs) (b := 10))
          rw [hcons, List.cons_append]
          rintro heq
          obtain ⟨rfl, -⟩ := List.cons.inj heq
          exact absurd (Text.isDigit_head_of_digits hcons) (by decide)
        rw [toList_toString_of_nonneg hpos]
        simp [readNumber, hwhole, hfraction, hexponent, hsize, hvalue]

end Numbers

end MiniC.Json
