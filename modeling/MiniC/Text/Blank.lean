/-!
# Blank characters

The characters that Unicode gives the property `White_Space`, and the removal
of blanks from the ends of a text.
-/

namespace MiniC.Text

/-- Whether a character has the property `White_Space`. -/
def isBlank (c : Char) : Bool :=
  let code := c.val
  (9 ≤ code && code ≤ 13) || code == 0x20 || code == 0x85 || code == 0xA0 || code == 0x1680 ||
    (0x2000 ≤ code && code ≤ 0x200A) || code == 0x2028 || code == 0x2029 || code == 0x202F ||
    code == 0x205F || code == 0x3000

/-- A text without the blanks at its start. -/
def trimStart (chars : List Char) : List Char := chars.dropWhile isBlank

/-- A text without the blanks at its end. -/
def trimEnd (chars : List Char) : List Char := (chars.reverse.dropWhile isBlank).reverse

/-- A text without the blanks at either end. -/
def trim (chars : List Char) : List Char := trimEnd (trimStart chars)

/-- What is left after trimming does not start with a blank. -/
theorem isBlank_head_trimStart {chars rest : List Char} {c : Char}
    (h : trimStart chars = c :: rest) : isBlank c = false := by
  have := List.head?_dropWhile_not isBlank chars
  rw [show chars.dropWhile isBlank = c :: rest from h] at this
  simpa using this

end MiniC.Text
