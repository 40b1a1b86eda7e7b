/-!
# JSON values

The values that a JSON text denotes, and the pieces from which readers of
records and of alternatives are made.

A reader takes a budget, the number of containers that it may still enter: a
record, a list and an alternative with a value each spend one.  Values that a
reader skips are never entered.  A text is read with the budget
`Value.nestingLimit`; a value that is already at hand is read with its own
`Value.depth`, which is never too small.
-/

namespace MiniC.Json

/-- A JSON value.

A number is kept as the integer it is written as.  It is `none` when it has a
fraction or an exponent, and for minus zero, none of which denotes an integer.
A string, or the key of a member, is `none` when an escape in it is half of a
surrogate pair without the other half: such a string denotes no text. -/
inductive Value where
  | null
  | bool (value : Bool)
  | number (whole : Option Int)
  | string (text : Option String)
  | array (items : List Value)
  | object (members : List (Option String × Value))
deriving Inhabited

namespace Value

mutual

/-- How deep the containers of a value are nested. -/
def depth : Value → Nat
  | array items => 1 + depthOfItems items
  | object members => 1 + depthOfMembers members
  | _ => 0

/-- The greatest depth of the items of an array. -/
def depthOfItems : List Value → Nat
  | [] => 0
  | item :: items => max item.depth (depthOfItems items)

/-- The greatest depth of the members of an object. -/
def depthOfMembers : List (Option String × Value) → Nat
  | [] => 0
  | (_, value) :: members => max value.depth (depthOfMembers members)

end

/-- The number of nested containers that a reader of texts may enter. -/
def nestingLimit : Nat := 127

/-- A string, as a value. -/
def ofText (text : String) : Value := string (some text)

/-- An integer, as a value. -/
def ofInt (value : Int) : Value := number (some value)

/-- An object with the given keys, as a value. -/
def ofFields (fields : List (String × Value)) : Value :=
  object (fields.map fun field => (some field.1, field.2))

/-- A value or, for nothing, `null`. -/
def ofOption (value : Option Value) : Value := value.getD null

/-! ## Reading -/

/-- The text of a string. -/
def text? : Value → Option String
  | string text => text
  | _ => none

/-- The integer of a number, if it lies from `low` up to but not including
`high`. -/
def intFrom? (low high : Int) : Value → Option Int
  | number (some value) => if low ≤ value ∧ value < high then some value else none
  | _ => none

/-- An unsigned number of 32 bits. -/
def uint32? (value : Value) : Option UInt32 :=
  (value.intFrom? 0 4294967296).map fun n => UInt32.ofNat n.toNat

/-- An unsigned number of 64 bits. -/
def natural64? (value : Value) : Option Nat :=
  (value.intFrom? 0 18446744073709551616).map Int.toNat

/-- A signed number of 32 bits. -/
def int32? (value : Value) : Option Int32 :=
  (value.intFrom? (-2147483648) 2147483648).map Int32.ofInt

/-- The values of the named members of an object, in the order of `names`,
absent ones as `none`.  Keys that are not among the names are skipped; a name
may occur once. -/
def members? (names : List String) : Value → Option (List (Option Value))
  | object members =>
      if members.all (·.1.isSome) && names.all fun name => members.countP (·.1 == some name) ≤ 1
      then some (names.map fun name => members.lookup (some name))
      else none
  | _ => none

/-- The values of the fields of a record, in the order of `names`, absent ones
as `none`.  A record is an object, or the array of its first fields. -/
def fields? (names : List String) : Value → Option (List (Option Value))
  | array items =>
      if items.length ≤ names.length then
        some ((List.range names.length).map fun i => items[i]?)
      else none
  | value => value.members? names

/-- The name of an alternative that carries no value: a string, or the only
key of an object whose value is `null`. -/
def plain? (budget : Nat) : Value → Option String
  | string text => text
  | object [(some name, null)] => if budget = 0 then none else some name
  | _ => none

/-- The name and the value of an alternative that carries one: the only member
of an object. -/
def tagged? : Value → Option (String × Value)
  | object [(some name, value)] => some (name, value)
  | _ => none

end Value

end MiniC.Json
