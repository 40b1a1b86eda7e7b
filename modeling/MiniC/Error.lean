import MiniC.Location

/-!
# Errors

The failures of the compiler, one constructor for each kind.  The first failure
ends a compilation.  `Error.message` is the only place that words them;
what the `reason` of an error may be is decided by the module that raises it.
-/

namespace MiniC

/-- Why a compilation stopped. -/
inductive Error where
  /-- A node cannot take another node into one of its slots. -/
  | structural (node : String) (slot : Nat) (location : Location) (reason : String)
  /-- A parse tree does not have the shape of the grammar. -/
  | malformed (construct : String) (location : Location) (reason : String)
  /-- A scope was left more often than it was entered. -/
  | unbalanced (scope : String)
  /-- A syntax tree for which there is no code. -/
  | codegen (location : Location) (reason : String)
  /-- A file could not be read or written. -/
  | io (reason : String)
  /-- A part of the compiler was used against its rules. -/
  | internal (reason : String)
deriving DecidableEq, Repr

namespace Error

/-- The location of the construct at fault, for the errors that are about one. -/
def location? : Error → Option Location
  | structural _ _ location _ | malformed _ location _ | codegen location _ => some location
  | unbalanced _ | io _ | internal _ => none

/-- The text that reports an error. -/
def message : Error → String
  | structural node slot location reason =>
      "Structural error at " ++ location.text ++ ": cannot attach to " ++ node ++ " slot " ++
        toString slot ++ ": " ++ reason
  | malformed construct location reason =>
      "Malformed input at " ++ location.text ++ ": " ++ construct ++ ": " ++ reason
  | unbalanced scope =>
      "Nesting imbalance in " ++ scope ++ ": leave_scope called at nesting level 0"
  | codegen location reason => "Code generation error at " ++ location.text ++ ": " ++ reason
  | io reason => "IO error: " ++ reason
  | internal reason => "Internal compiler error: " ++ reason

end Error

/-- An outcome that is no error is a value. -/
theorem exists_eq_ok_of_isOk {ε α : Type} {outcome : Except ε α} (h : outcome.isOk = true) :
    ∃ value, outcome = .ok value := by
  cases outcome with
  | error error => cases h
  | ok value => exact ⟨value, rfl⟩

end MiniC
