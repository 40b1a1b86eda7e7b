import MiniC.Asm.Instruction
import MiniC.Asm.Options
import MiniC.Error
import MiniC.Text.Pieces

/-!
# Buffers

A `Buffer` collects the instructions of a piece of code, each with the nesting
level at which it was added.  Its `lines` are the pieces of the texts of the
instructions that are not blank: most instructions make one line, but a text
with line breaks makes several, and a blank one makes none.  Only `Buffer.text`
decides, with a `Style`, how a level and the end of a line are written.
-/

namespace MiniC.Asm

/-- A line of code. -/
structure Line where
  /-- The nesting level of the line. -/
  level : Nat
  /-- What the line says, without indentation or line ending. -/
  content : String
deriving DecidableEq, Repr

namespace Line

/-- A line as it is written in a style. -/
def text (style : Style) (line : Line) : String :=
  style.indent.text line.level ++ line.content ++ style.ending.text

end Line

/-- An instruction at a nesting level. -/
structure Entry where
  level : Nat
  instruction : Instruction
deriving DecidableEq

namespace Entry

/-- The lines of an instruction. -/
def lines (entry : Entry) : List Line :=
  (Text.contents entry.instruction.text).map (Line.mk entry.level)

end Entry

/-- Instructions, and the nesting level of the next one. -/
structure Buffer where
  entries : Array Entry
  nesting : Nat
deriving DecidableEq

namespace Buffer

/-- A buffer without instructions. -/
def empty (nesting : Nat) : Buffer := ⟨#[], nesting⟩

/-- Adds an instruction at the nesting level of the buffer. -/
def add (buffer : Buffer) (instruction : Instruction) : Buffer :=
  { buffer with entries := buffer.entries.push ⟨buffer.nesting, instruction⟩ }

/-- Adds instructions in order. -/
def addAll (buffer : Buffer) (instructions : List Instruction) : Buffer :=
  instructions.foldl add buffer

/-- Adds code that is given as a text. -/
def addCode (buffer : Buffer) (code : String) : Buffer := buffer.add (.directive code)

/-- Adds the instructions of another buffer as they are, levels included. -/
def append (buffer other : Buffer) : Buffer :=
  { buffer with entries := buffer.entries ++ other.entries }

/-- Adds the instructions of another buffer at the nesting level of this one. -/
def absorb (buffer other : Buffer) : Buffer :=
  other.entries.foldl (fun buffer entry => buffer.add entry.instruction) buffer

/-- One nesting level deeper. -/
def enter (buffer : Buffer) : Buffer := { buffer with nesting := buffer.nesting + 1 }

/-- One nesting level further out; `scope` names the owner if there is no
level to leave. -/
def leave (buffer : Buffer) (scope : String) : Except Error Buffer :=
  match buffer.nesting with
  | 0 => .error (.unbalanced scope)
  | nesting + 1 => .ok { buffer with nesting }

/-- The instructions of a buffer, in order. -/
def instructions (buffer : Buffer) : List Instruction := buffer.entries.toList.map (·.instruction)

/-- The lines of a buffer, in order. -/
def lines (buffer : Buffer) : List Line := buffer.entries.toList.flatMap Entry.lines

/-- Whether a buffer has no lines. -/
def isEmpty (buffer : Buffer) : Bool := buffer.lines.isEmpty

/-- The text of a buffer in a style. -/
def text (style : Style) (buffer : Buffer) : String :=
  buffer.lines.foldl (fun text line => text ++ line.text style) ""

/-- What the lines say, without the blanks at their ends. -/
def contents (buffer : Buffer) : List String :=
  buffer.lines.map fun line => String.ofList (Text.trim line.content.toList)

/-! ## What the operations do to the entries -/

@[simp] theorem entries_empty (nesting : Nat) : (empty nesting).entries.toList = [] := rfl

@[simp] theorem entries_add (buffer : Buffer) (instruction : Instruction) :
    (buffer.add instruction).entries.toList =
      buffer.entries.toList ++ [⟨buffer.nesting, instruction⟩] := by
  simp [add]

@[simp] theorem nesting_add (buffer : Buffer) (instruction : Instruction) :
    (buffer.add instruction).nesting = buffer.nesting := rfl

@[simp] theorem nesting_addAll (buffer : Buffer) (instructions : List Instruction) :
    (buffer.addAll instructions).nesting = buffer.nesting := by
  unfold addAll
  induction instructions generalizing buffer with
  | nil => rfl
  | cons instruction instructions ih => simpa using ih (buffer.add instruction)

@[simp] theorem entries_addAll (buffer : Buffer) (instructions : List Instruction) :
    (buffer.addAll instructions).entries.toList =
      buffer.entries.toList ++ instructions.map (Entry.mk buffer.nesting) := by
  unfold addAll
  induction instructions generalizing buffer with
  | nil => simp
  | cons instruction instructions ih => simp [ih]

@[simp] theorem entries_append (buffer other : Buffer) :
    (buffer.append other).entries.toList = buffer.entries.toList ++ other.entries.toList := by
  simp [append]

@[simp] theorem nesting_append (buffer other : Buffer) :
    (buffer.append other).nesting = buffer.nesting := rfl

theorem absorb_eq_addAll (buffer other : Buffer) :
    buffer.absorb other = buffer.addAll other.instructions := by
  simp [absorb, addAll, instructions, ← Array.foldl_toList, List.foldl_map]

@[simp] theorem entries_absorb (buffer other : Buffer) :
    (buffer.absorb other).entries.toList =
      buffer.entries.toList ++ other.instructions.map (Entry.mk buffer.nesting) := by
  rw [absorb_eq_addAll, entries_addAll]

@[simp] theorem nesting_absorb (buffer other : Buffer) :
    (buffer.absorb other).nesting = buffer.nesting := by
  rw [absorb_eq_addAll, nesting_addAll]

end Buffer

end MiniC.Asm
