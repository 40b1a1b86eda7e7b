import MiniC.Asm.Instruction

/-!
# Stack frames

Where the parameters and locals of a function live, as distances in bytes from
`ebp`.  The saved `ebp` and the return address take the eight bytes from zero
on.  Parameters lie above them and locals below zero, one slot for each name in
the order of first declaration.
-/

namespace MiniC

/-- The bytes of one stack slot. -/
def slotSize : Int32 := 4

/-- The offset of the first parameter. -/
def firstParameterOffset : Int32 := 8

/-- Where the value of a name is kept. -/
inductive Place where
  | localSlot (offset : Int32)
  | parameterSlot (offset : Int32)
  | global (name : String)
deriving DecidableEq

namespace Place

/-- The operand that reads or writes a place. -/
def operand : Place → Asm.Operand
  | .localSlot offset => .frame offset
  | .parameterSlot offset => .frame offset
  | .global name => .global name

end Place

/-- The names of a function, in the order of their first declaration. -/
structure Frame where
  /-- The function itself. -/
  name : String
  parameters : List String := []
  locals : List String := []
deriving DecidableEq, Repr

namespace Frame

/-- The offset of the parameter at a position. -/
def parameterOffsetAt (position : Nat) : Int32 :=
  firstParameterOffset + Int32.ofNat position * slotSize

/-- The offset of the local at a position. -/
def localOffsetAt (position : Nat) : Int32 := -(Int32.ofNat position + 1) * slotSize

/-- The offset of a parameter. -/
def parameterOffset? (frame : Frame) (name : String) : Option Int32 :=
  (frame.parameters.idxOf? name).map parameterOffsetAt

/-- The offset of a local. -/
def localOffset? (frame : Frame) (name : String) : Option Int32 :=
  (frame.locals.idxOf? name).map localOffsetAt

/-- Declares a parameter: its offset, whether it is new, and the frame with it. -/
def addParameter (frame : Frame) (name : String) : Int32 × Bool × Frame :=
  match frame.parameterOffset? name with
  | some offset => (offset, false, frame)
  | none =>
      (parameterOffsetAt frame.parameters.length, true,
        { frame with parameters := frame.parameters ++ [name] })

/-- Declares a local: its offset, whether it is new, and the frame with it. -/
def addLocal (frame : Frame) (name : String) : Int32 × Bool × Frame :=
  match frame.localOffset? name with
  | some offset => (offset, false, frame)
  | none =>
      (localOffsetAt frame.locals.length, true, { frame with locals := frame.locals ++ [name] })

/-- Where a name lives: locals hide parameters, and parameters hide globals. -/
def resolve (frame : Frame) (name : String) : Place :=
  match frame.localOffset? name with
  | some offset => .localSlot offset
  | none =>
      match frame.parameterOffset? name with
      | some offset => .parameterSlot offset
      | none => .global name

/-- The bytes that the locals take. -/
def localBytes (frame : Frame) : Int32 := Int32.ofNat frame.locals.length * slotSize

/-- The label before the end of the function, where its `return`s jump to. -/
def exitLabel (frame : Frame) : String := frame.name ++ "_exit"

end Frame

end MiniC
