/-!
# Source locations

A `Location` names a place in a source text.  Every syntax tree node carries
one, and every error that is about a construct of the input reports one.
-/

namespace MiniC

/-- A place in a named source text.  Lines count from one and columns from
zero, as the parser delivers them. -/
structure Location where
  /-- The name of the source text. -/
  file : String
  line : UInt32
  column : UInt32
deriving DecidableEq, Repr

namespace Location

/-- The location of a construct that no source text holds. -/
def unknown : Location := ⟨"<unknown>", 0, 0⟩

/-- A place in an input that has no name. -/
def ofInput (line column : UInt32) : Location := ⟨"<input>", line, column⟩

instance : Inhabited Location := ⟨unknown⟩

/-- The written form `file:line:column`. -/
def text (location : Location) : String :=
  location.file ++ ":" ++ toString location.line.toNat ++ ":" ++ toString location.column.toNat

@[simp] theorem text_unknown : unknown.text = "<unknown>:0:0" := rfl

end Location

end MiniC
