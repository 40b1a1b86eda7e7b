import MiniC.Json.Value

/-!
# Printing JSON values

`Value.pretty` writes a value over several lines, two blanks for each level:
one item or member a line, and an empty container on one line.  What denotes
no integer or no text is written so that it reads back as such: such a number
as `-0`, such a string as a single half of a surrogate pair.
-/

namespace MiniC.Json

/-- A hexadecimal digit in lower case. -/
def hexDigit (n : Nat) : Char :=
  if n < 10 then Char.ofNat ('0'.toNat + n) else Char.ofNat ('a'.toNat + (n - 10))

/-- A character as it stands in a string: the two delimiters and the control
characters are escaped, all else stands for itself. -/
def escape (c : Char) : List Char :=
  if c = '"' then ['\\', '"']
  else if c = '\\' then ['\\', '\\']
  else if c = '\x08' then ['\\', 'b']
  else if c = '\x0c' then ['\\', 'f']
  else if c = '\n' then ['\\', 'n']
  else if c = '\r' then ['\\', 'r']
  else if c = '\t' then ['\\', 't']
  else if c < ' ' then
    ['\\', 'u', '0', '0', hexDigit (c.toNat / 16), hexDigit (c.toNat % 16)]
  else [c]

/-- A text between quotes. -/
def quote (text : String) : String :=
  "\"" ++ String.ofList (text.toList.flatMap escape) ++ "\""

/-- A string or key, with a lone half of a surrogate pair for one that denotes
no text. -/
def printString : Option String → String
  | some text => quote text
  | none => "\"\\ud800\""

/-- A number, with minus zero for one that denotes no integer. -/
def printNumber : Option Int → String
  | some value => toString value
  | none => "-0"

/-- A new line with the indentation of a level. -/
def newLine (level : Nat) : String := "\n" ++ String.ofList (List.replicate (2 * level) ' ')

namespace Value

mutual

/-- The text of a value whose first line is indented already, at a level. -/
def print (level : Nat) : Value → String
  | null => "null"
  | bool true => "true"
  | bool false => "false"
  | number whole => printNumber whole
  | string text => printString text
  | array [] => "[]"
  | array (item :: items) =>
      "[" ++ newLine (level + 1) ++ item.print (level + 1) ++ printItems (level + 1) items ++
        newLine level ++ "]"
  | object [] => "\x7b\x7d"
  | object ((key, value) :: members) =>
      "\x7b" ++ newLine (level + 1) ++ printString key ++ ": " ++ value.print (level + 1) ++
        printMembers (level + 1) members ++ newLine level ++ "\x7d"

/-- The items of an array after the first. -/
def printItems (level : Nat) : List Value → String
  | [] => ""
  | item :: items => "," ++ newLine level ++ item.print level ++ printItems level items

/-- The members of an object after the first. -/
def printMembers (level : Nat) : List (Option String × Value) → String
  | [] => ""
  | (key, value) :: members =>
      "," ++ newLine level ++ printString key ++ ": " ++ value.print level ++
        printMembers level members

end

/-- The text of a value over several lines. -/
def pretty (value : Value) : String := value.print 0

end Value

end MiniC.Json
