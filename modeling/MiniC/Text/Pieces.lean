import MiniC.Text.Blank

/-!
# Pieces of a text

Code is added to a buffer one line at a time, whatever breaks the lines of the
text it comes in.  `split` cuts a text at separators; `contents` cuts it at line
breaks and keeps the pieces that hold more than blanks, without the blanks they
start with.

A text is split on both sides of every separator in it (`split_append_cons`), and
no piece holds one (`isSeparator_of_mem_split`).
-/

namespace MiniC.Text

/-- The stretches of a text between its separators, one more than it has
separators. -/
def split (isSeparator : Char → Bool) : List Char → List (List Char)
  | [] => [[]]
  | c :: rest =>
      if isSeparator c then [] :: split isSeparator rest
      else
        match split isSeparator rest with
        | [] => [[c]]
        | piece :: others => (c :: piece) :: others

/-- Whether a character ends a line: line feed or carriage return. -/
def isBreak (c : Char) : Bool := c == '\n' || c == '\r'

/-- The trimmed pieces of a text between line breaks that are not blank
throughout. -/
def contents (text : String) : List String :=
  (split isBreak text.toList).filterMap fun piece =>
    match trimStart piece with
    | [] => none
    | content => some (String.ofList content)

/-! ## Pieces -/

theorem split_ne_nil (isSeparator : Char → Bool) (chars : List Char) :
    split isSeparator chars ≠ [] := by
  cases chars with
  | nil => simp [split]
  | cons c rest =>
      unfold split
      split
      · simp
      · split <;> simp

/-- A text is split on both sides of a separator in it. -/
theorem split_append_cons {isSeparator : Char → Bool} {c : Char} (h : isSeparator c = true)
    (front rest : List Char) :
    split isSeparator (front ++ c :: rest) = split isSeparator front ++ split isSeparator rest := by
  induction front with
  | nil => simp [split, h]
  | cons d front ih =>
      by_cases hd : isSeparator d = true
      · simp [split, hd, ih]
      · obtain ⟨piece, others, heq⟩ := List.exists_cons_of_ne_nil (split_ne_nil isSeparator front)
        simp [split, hd, ih, heq]

/-- The stretches are those that the library splits a list into. -/
theorem split_eq_splitOnP (isSeparator : Char → Bool) (chars : List Char) :
    split isSeparator chars = chars.splitOnP isSeparator := by
  induction chars with
  | nil => rfl
  | cons c rest ih =>
      obtain ⟨piece, others, hcons⟩ :=
        List.exists_cons_of_ne_nil (List.splitOnP_ne_nil isSeparator rest)
      rw [List.splitOnP_cons_eq_if_modifyHead, split, ih, hcons]
      rfl

/-- No piece holds a separator. -/
theorem isSeparator_of_mem_split {isSeparator : Char → Bool} {chars piece : List Char}
    (h : piece ∈ split isSeparator chars) : ∀ c ∈ piece, isSeparator c = false := by
  induction chars generalizing piece with
  | nil => simp_all [split]
  | cons d rest ih =>
      by_cases hd : isSeparator d = true
      · simp only [split, hd, if_true, List.mem_cons] at h
        rcases h with rfl | h
        · simp
        · exact ih h
      · obtain ⟨first, others, heq⟩ := List.exists_cons_of_ne_nil (split_ne_nil isSeparator rest)
        rw [heq] at ih
        simp only [split, hd, heq, Bool.false_eq_true, if_false, List.mem_cons] at h
        rcases h with rfl | h
        · intro c hc
          rcases List.mem_cons.mp hc with rfl | hc
          · simpa using hd
          · exact ih List.mem_cons_self c hc
        · exact ih (List.mem_cons_of_mem first h)

end MiniC.Text
