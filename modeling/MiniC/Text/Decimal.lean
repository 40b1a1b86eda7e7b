/-!
# Decimal integers

The integer that a text of decimal digits denotes: an optional sign, then at
least one digit, with any number of leading zeros and nothing else.
-/

namespace MiniC.Text

/-- The number that decimal digits write. -/
def valueOfDigits (digits : List Char) : Nat :=
  digits.foldl (fun value c => 10 * value + (c.toNat - '0'.toNat)) 0

/-- The number written by a text, `none` for an empty text or one that holds
anything but digits. -/
def natural? (chars : List Char) : Option Nat :=
  if !chars.isEmpty && chars.all Char.isDigit then some (valueOfDigits chars) else none

/-- The integer written by a text. -/
def integer? (text : String) : Option Int :=
  match text.toList with
  | '+' :: digits => (natural? digits).map Int.ofNat
  | '-' :: digits => (natural? digits).map fun n => -(n : Int)
  | digits => (natural? digits).map Int.ofNat

/-- The integer written by a text, where it fits in 32 bits with sign: from -2³¹ up
to but not including 2³¹. -/
def int32? (text : String) : Option Int32 := do
  let value ← integer? text
  if -2147483648 ≤ value ∧ value < 2147483648 then some (Int32.ofInt value) else none

end MiniC.Text
