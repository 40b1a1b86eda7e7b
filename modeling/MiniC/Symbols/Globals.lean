/-!
# The names of a file

The names that a file has declared so far, variables and functions apart.  The
first declaration of a name counts and later ones change nothing.
-/

namespace MiniC

/-- The names declared in a file. -/
structure Globals where
  variableNames : List String := []
  functionNames : List String := []
deriving DecidableEq, Repr

namespace Globals

/-- Whether a variable is declared. -/
def hasVariable (globals : Globals) (name : String) : Bool := globals.variableNames.contains name

/-- Whether a function is declared. -/
def hasFunction (globals : Globals) (name : String) : Bool := globals.functionNames.contains name

/-- Declares a variable. -/
def addVariable (globals : Globals) (name : String) : Globals :=
  if globals.hasVariable name then globals
  else { globals with variableNames := name :: globals.variableNames }

/-- Declares a function. -/
def addFunction (globals : Globals) (name : String) : Globals :=
  if globals.hasFunction name then globals
  else { globals with functionNames := name :: globals.functionNames }

@[simp] theorem hasVariable_addVariable (globals : Globals) (name other : String) :
    (globals.addVariable name).hasVariable other =
      (globals.hasVariable other || other == name) := by
  unfold addVariable
  split
  · by_cases hother : other = name
    · simp_all
    · simp [hother]
  · by_cases hother : other = name <;> simp [hasVariable, hother]

@[simp] theorem hasFunction_addFunction (globals : Globals) (name other : String) :
    (globals.addFunction name).hasFunction other =
      (globals.hasFunction other || other == name) := by
  unfold addFunction
  split
  · by_cases hother : other = name
    · simp_all
    · simp [hother]
  · by_cases hother : other = name <;> simp [hasFunction, hother]

end Globals

end MiniC
