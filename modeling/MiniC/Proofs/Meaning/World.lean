import MiniC.Symbols.Frame

/-!
# What a program works on

A `World` has a value for each `Place` where a name can live, and the calls that
have been made so far.  What a called function does is up to an `Oracle`, which
may go by all that a function outside of the program could know: the calls
before, the call itself and the values of the variables of the file.
-/

namespace MiniC

/-- A call of a function with the values of its arguments. -/
structure Call where
  name : String
  arguments : List Int32
deriving DecidableEq, Repr

/-- The values of all places, and the calls made so far. -/
structure World where
  values : Place → Int32
  calls : List Call

/-- What called functions do: from the calls before, the call and the values of the
variables of the file, the result and the new values of the variables. -/
abbrev Oracle := List Call → Call → (String → Int32) → Int32 × (String → Int32)

namespace World

/-- The values of the variables of the file. -/
def globals (world : World) (name : String) : Int32 := world.values (.global name)

/-- The world with another value in a place. -/
def set (world : World) (place : Place) (value : Int32) : World :=
  { world with values := fun other => if other = place then value else world.values other }

/-- The world with other values of the variables of the file. -/
def setGlobals (world : World) (globals : String → Int32) : World :=
  { world with values := fun place =>
      match place with
      | .global name => globals name
      | .localSlot _ | .parameterSlot _ => world.values place }

/-- The result of a call. -/
def result (oracle : Oracle) (world : World) (call : Call) : Int32 :=
  (oracle world.calls call world.globals).1

/-- The world after a call. -/
def after (oracle : Oracle) (world : World) (call : Call) : World :=
  { world.setGlobals (oracle world.calls call world.globals).2 with
    calls := world.calls ++ [call] }

variable {world : World} {place other : Place} {value : Int32}

@[simp] theorem values_set_self : (world.set place value).values place = value := if_pos rfl

theorem values_set_of_ne (h : other ≠ place) :
    (world.set place value).values other = world.values other := if_neg h

end World

end MiniC
