import MiniC.Json.Reader

/-!
# Options

The parts of a generated file that its user chooses: what its fixed directives
say, and the `Style` in which its lines are written.  Options have a JSON form,
a record in which every field may be left out.
-/

namespace MiniC.Asm

/-- What a line is indented by, once for each level. -/
inductive Indent where
  | tabs
  | spaces (count : Nat)
deriving DecidableEq, Repr

namespace Indent

/-- The text at the start of a line at a level. -/
def text (level : Nat) : Indent → String
  | tabs => String.ofList (List.replicate level '\t')
  | spaces count => String.ofList (List.replicate (level * count) ' ')

/-- The text of one level. -/
def unit (indent : Indent) : String := indent.text 1

end Indent

/-- What a line is ended by. -/
inductive LineEnding where
  | lf | crlf
deriving DecidableEq, Repr

namespace LineEnding

/-- The characters that end a line. -/
def text : LineEnding → String
  | lf => "\n"
  | crlf => "\r\n"

end LineEnding

/-- How lines are written. -/
structure Style where
  indent : Indent := .tabs
  ending : LineEnding := .lf
deriving DecidableEq, Repr

/-- What the user of the compiler chooses. -/
structure Options where
  /-- The processor directive. -/
  processor : String := ".386"
  /-- The operand of the `.model` directive. -/
  memoryModel : String := "flat, stdcall"
  /-- The operand of the `.stack` directive. -/
  stackSize : UInt32 := 4096
  /-- The procedure named by the last line. -/
  entryPoint : String := "main"
  style : Style := {}
deriving DecidableEq, Repr

namespace Options

open MiniC.Json

/-! ## The JSON form -/

/-- An indentation, as a JSON value. -/
def indentToJson : Indent → Value
  | .tabs => .ofText "tabs"
  | .spaces count => .ofFields [("spaces", .ofInt count)]

/-- A line ending, as a JSON value. -/
def endingToJson : LineEnding → Value
  | .lf => .ofText "lf"
  | .crlf => .ofText "cr_lf"

/-- Options, as a JSON value. -/
def toJson (options : Options) : Value :=
  .ofFields
    [("processor", .ofText options.processor), ("memory_model", .ofText options.memoryModel),
      ("stack_size", .ofInt options.stackSize.toNat), ("entry_point", .ofText options.entryPoint),
      ("indent", indentToJson options.style.indent),
      ("line_ending", endingToJson options.style.ending)]

/-- An indentation in its JSON form. -/
def indentOfJson? (budget : Nat) (value : Value) : Option Indent :=
  match value.plain? budget with
  | some "tabs" => some .tabs
  | _ =>
      match value.tagged? with
      | some ("spaces", count) => if budget = 0 then none else count.natural64?.map .spaces
      | _ => none

/-- A line ending in its JSON form. -/
def endingOfJson? (budget : Nat) (value : Value) : Option LineEnding :=
  match value.plain? budget with
  | some "lf" => some .lf
  | some "cr_lf" => some .crlf
  | _ => none

/-- The value of a field, or its default where the field is left out. -/
def field? {α : Type} (default : α) (read : Value → Option α) : Option Value → Option α
  | none => some default
  | some value => read value

/-- Options in their JSON form. -/
def ofJson? : Nat → Value → Option Options
  | 0, _ => none
  | budget + 1, value => do
      let absent : Options := {}
      let names :=
        ["processor", "memory_model", "stack_size", "entry_point", "indent", "line_ending"]
      match ← value.fields? names with
      | [processor, memoryModel, stackSize, entryPoint, indent, ending] =>
          some
            { processor := ← field? absent.processor Value.text? processor
              memoryModel := ← field? absent.memoryModel Value.text? memoryModel
              stackSize := ← field? absent.stackSize Value.uint32? stackSize
              entryPoint := ← field? absent.entryPoint Value.text? entryPoint
              style :=
                { indent := ← field? absent.style.indent (indentOfJson? budget) indent
                  ending := ← field? absent.style.ending (endingOfJson? budget) ending } }
      | _ => none

/-- The options that a JSON value describes. -/
def ofValue? (value : Value) : Option Options := ofJson? value.depth value

/-- The options that a JSON text describes. -/
def read? (text : String) : Option Options := Value.read? text >>= ofJson? Value.nestingLimit

end Options

end MiniC.Asm
