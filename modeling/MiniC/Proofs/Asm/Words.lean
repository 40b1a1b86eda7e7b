import MiniC.Proofs.Asm.Buffer
import MiniC.Proofs.Text.Decimal

/-!
# Words and identifiers

The text of an instruction is made of words with gaps between them: a mnemonic and
operands, and the operands are identifiers and numbers.  The words can be cut out
again (`words_binary`), and an identifier is not the start of a number
(`isIdentifier_of_isDigit`).  A text that starts with an identifier is a line as it is
(`isLine_append`).
-/

namespace MiniC

namespace Text

/-- Whether a text is an identifier: a letter or an underscore, and then letters,
digits and underscores. -/
def isIdentifier (text : String) : Bool :=
  match text.toList with
  | [] => false
  | c :: rest => (c.isAlpha || c == '_') && rest.all fun c => c.isAlphanum || c == '_'

/-- Whether a character stands between the words of an instruction. -/
def isGap (c : Char) : Bool := c == ' ' || c == ','

/-- The stretches of a text between its gaps. -/
def words (text : String) : List (List Char) := split isGap text.toList

/-- Whether no gap is in a text. -/
def IsWord (text : String) : Prop := ∀ c ∈ text.toList, isGap c = false

instance (text : String) : Decidable (IsWord text) :=
  List.decidableBAll (fun c => isGap c = false) text.toList

theorem words_of_isWord {text : String} (h : IsWord text) : words text = [text.toList] :=
  split_of_unbroken h

theorem words_unary {front mnemonic operand : String} (hfront : front = mnemonic ++ " ")
    (hmnemonic : IsWord mnemonic) (hoperand : IsWord operand) :
    words (front ++ operand) = [mnemonic.toList, operand.toList] := by
  have hsplit := split_append_cons (show isGap ' ' = true by decide)
    mnemonic.toList operand.toList
  rw [split_of_unbroken hmnemonic, split_of_unbroken hoperand] at hsplit
  simpa [words, hfront] using hsplit

theorem words_binary {front mnemonic left right : String} (hfront : front = mnemonic ++ " ")
    (hmnemonic : IsWord mnemonic) (hleft : IsWord left) (hright : IsWord right) :
    words (front ++ left ++ ", " ++ right) = [mnemonic.toList, left.toList, [], right.toList] := by
  -- between the comma and the blank after it stands an empty word
  have hrest : split isGap (left.toList ++ ',' :: ' ' :: right.toList) =
      [left.toList, [], right.toList] := by
    rw [split_append_cons (by decide), split_of_unbroken hleft,
      show ' ' :: right.toList = [] ++ ' ' :: right.toList from rfl,
      split_append_cons (by decide), split_of_unbroken hright]
    rfl
  have hsplit := split_append_cons (show isGap ' ' = true by decide)
    mnemonic.toList (left.toList ++ ',' :: ' ' :: right.toList)
  rw [split_of_unbroken hmnemonic, hrest] at hsplit
  simpa [words, hfront] using hsplit

/-! ## Identifiers -/

theorem isGap_of_isIdentifierPart {c : Char} (h : (c.isAlphanum || c == '_') = true) :
    isGap c = false := by
  cases hgap : isGap c with
  | false => rfl
  | true =>
      rw [isGap, Bool.or_eq_true, beq_iff_eq, beq_iff_eq] at hgap
      rcases hgap with rfl | rfl <;> exact absurd h (by decide)

theorem exists_cons_of_isIdentifier {text : String} (h : isIdentifier text = true) :
    ∃ c rest, text.toList = c :: rest ∧ (c.isAlpha || c == '_') = true ∧
      ∀ d ∈ rest, (d.isAlphanum || d == '_') = true := by
  unfold isIdentifier at h
  split at h
  · cases h
  · rename_i c rest hlist
    rw [Bool.and_eq_true, List.all_eq_true] at h
    exact ⟨c, rest, hlist, h.1, h.2⟩

theorem isWord_of_isIdentifier {text : String} (h : isIdentifier text = true) : IsWord text := by
  obtain ⟨c, rest, hlist, hhead, hrest⟩ := exists_cons_of_isIdentifier h
  intro d hd
  rw [hlist, List.mem_cons] at hd
  rcases hd with rfl | hd
  · apply isGap_of_isIdentifierPart
    rw [Char.isAlphanum, Bool.or_assoc, Bool.or_comm d.isDigit, ← Bool.or_assoc, hhead,
      Bool.true_or]
  · exact isGap_of_isIdentifierPart (hrest d hd)

/-! ## Identifiers and digits -/

/-- The numbers of the letters. -/
theorem toNat_of_isAlpha {c : Char} (h : c.isAlpha = true) : 65 ≤ c.toNat ∧ c.toNat ≤ 122 := by
  rcases (Bool.or_eq_true c.isUpper c.isLower).mp h with hupper | hlower
  · obtain ⟨hlow, hhigh⟩ := of_decide_eq_true hupper
    exact ⟨UInt32.le_iff_toNat_le.mp hlow,
      Nat.le_trans (UInt32.le_iff_toNat_le.mp hhigh) (by decide)⟩
  · obtain ⟨hlow, hhigh⟩ := (Bool.and_eq_true _ _).mp hlower
    have hlow : 'a'.val ≤ c.val := of_decide_eq_true hlow
    have hhigh : c.val ≤ 'z'.val := of_decide_eq_true hhigh
    exact ⟨Nat.le_trans (by decide) (UInt32.le_iff_toNat_le.mp hlow),
      UInt32.le_iff_toNat_le.mp hhigh⟩

theorem isDigit_eq_false_of_head {c : Char} (h : (c.isAlpha || c == '_') = true) :
    c.isDigit = false := by
  cases hdigit : c.isDigit with
  | false => rfl
  | true =>
      have hletter : c.isAlpha = true := by
        rcases (Bool.or_eq_true _ _).mp h with h | h
        · exact h
        · obtain rfl := beq_iff_eq.mp h
          exact absurd hdigit (by decide)
      have hnumber : c.toNat ≤ 57 := (Char.isDigit_iff_toNat.mp hdigit).2
      -- the letters have larger numbers than the digits
      have hlarge : 65 ≤ c.toNat := (toNat_of_isAlpha hletter).1
      omega

/-- A text that starts with a digit is not an identifier. -/
theorem isIdentifier_of_isDigit {text : String} {c : Char} {rest : List Char}
    (hlist : text.toList = c :: rest) (hdigit : c.isDigit = true) : isIdentifier text = false := by
  cases h : isIdentifier text with
  | false => rfl
  | true =>
      obtain ⟨d, others, hcons, hhead, -⟩ := exists_cons_of_isIdentifier h
      obtain ⟨rfl, -⟩ := List.cons.inj (hlist.symm.trans hcons)
      exact absurd (isDigit_eq_false_of_head hhead) (by simp [hdigit])

/-! ## Lines that start with an identifier -/

/-- A line is the only content of its text. -/
theorem contents_of_isLine {content : String} (h : IsLine content) :
    contents content = [content] := by
  obtain ⟨c, rest, hchars, hc⟩ := h.head
  have htrim : trimStart content.toList = c :: rest := by
    rw [hchars, trimStart, List.dropWhile_cons_of_neg (by simp [hc])]
  rw [contents_eq, split_of_unbroken h.unbroken, List.filterMap_cons, contentOf?, htrim]
  show String.ofList (c :: rest) :: _ = _
  rw [← hchars, String.ofList_toList]
  rfl

/-- The blanks come before or after the letters, the digits and the underscore. -/
theorem isBlank_of_isIdentifierPart {c : Char} (h : (c.isAlphanum || c == '_') = true) :
    isBlank c = false := by
  have hrange : 48 ≤ c.toNat ∧ c.toNat ≤ 122 := by
    rcases (Bool.or_eq_true _ _).mp h with h | h
    · rcases (Bool.or_eq_true c.isAlpha c.isDigit).mp h with hletter | hdigit
      · have := toNat_of_isAlpha hletter
        omega
      · have hnumber : 48 ≤ c.toNat ∧ c.toNat ≤ 57 := Char.isDigit_iff_toNat.mp hdigit
        omega
    · obtain rfl := beq_iff_eq.mp h
      decide
  cases hblank : isBlank c with
  | false => rfl
  | true =>
      simp [isBlank, UInt32.le_iff_toNat_le, ← UInt32.toNat_inj] at hblank
      omega

theorem isBreak_of_isBlank {c : Char} (h : isBlank c = false) : isBreak c = false := by
  cases hbreak : isBreak c with
  | false => rfl
  | true =>
      rw [isBreak, Bool.or_eq_true, beq_iff_eq, beq_iff_eq] at hbreak
      rcases hbreak with rfl | rfl <;> cases h

/-- A text without line breaks. -/
def Unbroken (text : String) : Prop := ∀ c ∈ text.toList, isBreak c = false

instance (text : String) : Decidable (Unbroken text) :=
  List.decidableBAll (fun c => isBreak c = false) text.toList

theorem Unbroken.append {first second : String} (hfirst : Unbroken first)
    (hsecond : Unbroken second) : Unbroken (first ++ second) := by
  intro c hc
  rw [String.toList_append, List.mem_append] at hc
  exact hc.elim (hfirst c) (hsecond c)

theorem unbroken_toString (value : Int) : Unbroken (toString value) := by
  have hdigits : ∀ c ∈ Nat.toDigits 10 value.natAbs, isBreak c = false := by
    intro c hc
    have hdigit : c.isDigit = true := Nat.isDigit_of_mem_toDigits (by decide) (by decide) hc
    exact isBreak_of_isBlank (isBlank_of_isIdentifierPart (by simp [Char.isAlphanum, hdigit]))
  intro c hc
  rcases Int.lt_or_le value 0 with hneg | hnonneg
  · rw [toList_toString_of_neg hneg, List.mem_cons] at hc
    rcases hc with rfl | hc
    · decide
    · exact hdigits c hc
  · rw [toList_toString_of_nonneg hnonneg] at hc
    exact hdigits c hc

theorem unbroken_intercalate {separator text : String} (hseparator : Unbroken separator)
    (htext : Unbroken text) (count : Nat) :
    Unbroken (separator.intercalate (List.replicate count text)) := by
  induction count with
  | zero => simp [Unbroken]
  | succ count ih =>
      cases count with
      | zero => simpa using htext
      | succ count =>
          have hmore : separator.intercalate (List.replicate (count + 2) text) =
              text ++ separator ++ separator.intercalate (List.replicate (count + 1) text) := by
            rw [← String.toList_inj]
            simp [String.toList_intercalate, List.replicate_succ]
          rw [hmore]
          exact (htext.append hseparator).append ih

/-- A text that starts with an identifier is a line, if the rest of it is not broken. -/
theorem isLine_append {name rest : String} (hname : isIdentifier name = true)
    (hrest : Unbroken rest) : IsLine (name ++ rest) := by
  obtain ⟨c, others, hlist, hhead, hothers⟩ := exists_cons_of_isIdentifier hname
  -- the first character is a letter or an underscore, so no blanks are in front
  have hpart : (c.isAlphanum || c == '_') = true := by
    rw [Char.isAlphanum, Bool.or_right_comm, hhead, Bool.true_or]
  refine ⟨⟨c, others ++ rest.toList, ?_, isBlank_of_isIdentifierPart hpart⟩, fun d hd => ?_⟩
  · rw [String.toList_append, hlist, List.cons_append]
  · rw [String.toList_append, hlist, List.mem_append, List.mem_cons] at hd
    rcases hd with (rfl | hd) | hd
    · exact isBreak_of_isBlank (isBlank_of_isIdentifierPart hpart)
    · exact isBreak_of_isBlank (isBlank_of_isIdentifierPart (hothers d hd))
    · exact hrest d hd

/-- A text that starts with an identifier does not start with a dot. -/
theorem append_ne_of_isIdentifier {name rest other : String} (hname : isIdentifier name = true)
    (hother : other.toList.head? = some '.') : name ++ rest ≠ other := by
  obtain ⟨c, others, hlist, hhead, -⟩ := exists_cons_of_isIdentifier hname
  rintro rfl
  rw [String.toList_append, hlist, List.cons_append, List.head?_cons] at hother
  obtain rfl := Option.some.inj hother
  cases hhead

end Text

end MiniC
