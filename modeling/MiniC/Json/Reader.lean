import MiniC.Json.Value
import MiniC.Text.Decimal

/-!
# Reading JSON texts

`Value.read?` reads a text by the strict grammar: one value between blanks,
with no comments, no comma before a closing bracket, no leading zeros and no
control characters in strings.

Characters are consumed from a list.  The recursion over nested values counts
down from a number of steps that no text of its length can use up, because
every second step consumes a character.
-/

namespace MiniC.Json

/-! ## Blanks -/

/-- Whether a character may stand between the tokens of a text. -/
def isSpace (c : Char) : Bool := c == ' ' || c == '\t' || c == '\n' || c == '\r'

/-- The rest of a text after the blanks at its start. -/
def skipSpace (chars : List Char) : List Char := chars.dropWhile isSpace

/-! ## Strings -/

/-- One item of a string: a character, or a code unit of UTF-16 that is half
of a surrogate pair. -/
inductive StringItem where
  | char (c : Char)
  | half (unit : Nat)

/-- The value of a hexadecimal digit. -/
def hexDigit? (c : Char) : Option Nat :=
  if '0' ≤ c ∧ c ≤ '9' then some (c.toNat - '0'.toNat)
  else if 'a' ≤ c ∧ c ≤ 'f' then some (c.toNat - 'a'.toNat + 10)
  else if 'A' ≤ c ∧ c ≤ 'F' then some (c.toNat - 'A'.toNat + 10)
  else none

/-- The item named by the four hexadecimal digits of a `u` escape. -/
def unitItem? (a b c d : Char) : Option StringItem := do
  let unit := 4096 * (← hexDigit? a) + 256 * (← hexDigit? b) + 16 * (← hexDigit? c) +
    (← hexDigit? d)
  if 0xD800 ≤ unit ∧ unit ≤ 0xDFFF then some (.half unit) else some (.char (Char.ofNat unit))

/-- The character named by the escape of one letter. -/
def escaped? (c : Char) : Option Char :=
  match c with
  | '"' => some '"'
  | '\\' => some '\\'
  | '/' => some '/'
  | 'b' => some '\x08'
  | 'f' => some '\x0c'
  | 'n' => some '\n'
  | 'r' => some '\r'
  | 't' => some '\t'
  | _ => none

/-- The items of a string up to its closing quote, after those already read,
and the rest of the text. -/
def readItems : List Char → List StringItem → Option (List StringItem × List Char)
  | [], _ => none
  | c :: rest, items =>
      if c = '"' then some (items.reverse, rest)
      else if c = '\\' then
        match rest with
        | 'u' :: h₁ :: h₂ :: h₃ :: h₄ :: rest =>
            match unitItem? h₁ h₂ h₃ h₄ with
            | some item => readItems rest (item :: items)
            | none => none
        | letter :: rest =>
            match escaped? letter with
            | some c => readItems rest (.char c :: items)
            | none => none
        | [] => none
      else if c < ' ' then none
      else readItems rest (.char c :: items)

/-- The characters that the items of a string denote.  A leading half must be
followed by a trailing half. -/
def charsOfItems? : List StringItem → Option (List Char)
  | [] => some []
  | .char c :: items => (charsOfItems? items).map (c :: ·)
  | .half high :: .half low :: items =>
      if high < 0xDC00 ∧ 0xDC00 ≤ low then
        (charsOfItems? items).map
          (Char.ofNat (0x10000 + 1024 * (high - 0xD800) + (low - 0xDC00)) :: ·)
      else none
  | .half _ :: _ => none

/-- A string after its opening quote, and the rest of the text. -/
def readString (chars : List Char) : Option (Option String × List Char) :=
  (readItems chars []).map fun (items, rest) => ((charsOfItems? items).map String.ofList, rest)

/-! ## Numbers -/

/-- The digits at the start of a text, of which there is at least one. -/
def readDigits (chars : List Char) : Option (List Char × List Char) :=
  match chars.span Char.isDigit with
  | ([], _) => none
  | (digits, rest) => some (digits, rest)

/-- The digits of an integer: a zero has no digit after it. -/
def readWhole (chars : List Char) : Option (List Char × List Char) := do
  let (digits, rest) ← readDigits chars
  if digits.head? = some '0' ∧ digits.length ≠ 1 then none else some (digits, rest)

/-- The rest of a text after a fraction, if it starts with one, and whether it
did. -/
def skipFraction : List Char → Option (Bool × List Char)
  | '.' :: rest => (readDigits rest).map fun (_, rest) => (true, rest)
  | chars => some (false, chars)

/-- The rest of a text after an exponent, if it starts with one, and whether
it did. -/
def skipExponent : List Char → Option (Bool × List Char)
  | c :: rest =>
      if c = 'e' ∨ c = 'E' then
        let unsigned :=
          match rest with
          | '+' :: rest => rest
          | '-' :: rest => rest
          | _ => rest
        (readDigits unsigned).map fun (_, rest) => (true, rest)
      else some (false, c :: rest)
  | [] => some (false, [])

/-- A number, and the rest of the text. -/
def readNumber (chars : List Char) : Option (Value × List Char) := do
  let (negative, unsigned) :=
    match chars with
    | '-' :: rest => (true, rest)
    | _ => (false, chars)
  let (digits, rest) ← readWhole unsigned
  let (fraction, rest) ← skipFraction rest
  let (exponent, rest) ← skipExponent rest
  let size := Text.valueOfDigits digits
  -- minus zero is a number, but no integer
  let whole : Option Int :=
    if fraction || exponent || (negative && size == 0) then none
    else if negative then some (-(size : Int))
    else some size
  some (.number whole, rest)

/-! ## Values -/

mutual

/-- A value after any blanks, and the rest of the text. -/
def readValue : Nat → List Char → Option (Value × List Char)
  | 0, _ => none
  | steps + 1, chars =>
      match skipSpace chars with
      | '\x7b' :: rest =>
          match skipSpace rest with
          | '\x7d' :: rest => some (.object [], rest)
          | rest => readMembers steps rest []
      | '[' :: rest =>
          match skipSpace rest with
          | ']' :: rest => some (.array [], rest)
          | rest => readArray steps rest []
      | '"' :: rest => (readString rest).map fun (text, rest) => (.string text, rest)
      | 't' :: 'r' :: 'u' :: 'e' :: rest => some (.bool true, rest)
      | 'f' :: 'a' :: 'l' :: 's' :: 'e' :: rest => some (.bool false, rest)
      | 'n' :: 'u' :: 'l' :: 'l' :: rest => some (.null, rest)
      | rest => readNumber rest

/-- The items of an array from one of them to its closing bracket, after those
already read, and the rest of the text. -/
def readArray : Nat → List Char → List Value → Option (Value × List Char)
  | 0, _, _ => none
  | steps + 1, chars, items =>
      match readValue steps chars with
      | none => none
      | some (item, rest) =>
          match skipSpace rest with
          | ',' :: rest => readArray steps rest (item :: items)
          | ']' :: rest => some (.array (item :: items).reverse, rest)
          | _ => none

/-- The members of an object from one of them to its closing brace, after
those already read, and the rest of the text. -/
def readMembers : Nat → List Char → List (Option String × Value) → Option (Value × List Char)
  | 0, _, _ => none
  | steps + 1, chars, members =>
      match skipSpace chars with
      | '"' :: rest =>
          match readString rest with
          | none => none
          | some (key, rest) =>
              match skipSpace rest with
              | ':' :: rest =>
                  match readValue steps rest with
                  | none => none
                  | some (value, rest) =>
                      match skipSpace rest with
                      | ',' :: rest => readMembers steps rest ((key, value) :: members)
                      | '\x7d' :: rest =>
                          some (.object ((key, value) :: members).reverse, rest)
                      | _ => none
              | _ => none
      | _ => none

end

/-- The value of a text, if the text is one value and nothing else. -/
def Value.read? (text : String) : Option Value :=
  let chars := text.toList
  match readValue (2 * chars.length + 2) chars with
  | some (value, rest) => if (skipSpace rest).isEmpty then some value else none
  | none => none

end MiniC.Json
