import MiniC.Program.Tree
import MiniC.Proofs.Translation.Statement

/-!
# The text of a file

`CompileUnit.assembly` translates a file in one pass over its items: the
directives, a line for each new variable and each new external function, the
functions in their order and the last line.  It makes the text straight from the
lines; there is nothing in between that could be filled in later.
-/

namespace MiniC

open Asm (Entry Instruction Line Style)
open Emission (fileHead)

/-- The value of the initializer of a variable of the file, if it has one. -/
def Expr.constant? : Expr → Option Int32
  | .number _ value => some value
  | .unary _ .minus (.number _ value) => some (-value)
  | .unary _ .plus (.number _ value) => some value
  | _ => none

/-- Where a translation has got to in a file. -/
structure FileCursor where
  /-- The number of emission nodes made so far. -/
  serial : Nat
  /-- The names declared so far. -/
  globals : Globals

/-- The number of parameters of a function that is defined elsewhere. -/
def FunctionDeclaration.arity (declaration : FunctionDeclaration) : Nat :=
  (declaration.parameters.map (·.parameters.length)).getD 0

/-- The line of a variable or of an external function, unless its name was
declared before. -/
def Item.dataLines (globals : Globals) : Item → List Instruction
  | .function _ => []
  | .external declared =>
      if globals.hasFunction declared.name then [] else [.proto declared.name declared.arity]
  | .global declared =>
      if globals.hasVariable declared.name then []
      else [.dword declared.name (declared.initializer.bind Expr.constant?)]

/-- The cursor after an item.  The node of a variable or of an external function is a
blank leaf, apart from the leaf of the line. -/
def Item.next (item : Item) (cursor : FileCursor) : FileCursor :=
  match item with
  | .function definition =>
      ⟨definition.nextSerial cursor.serial, cursor.globals.addFunction definition.name⟩
  | .external declared =>
      ⟨cursor.serial + (item.dataLines cursor.globals).length + 1,
        cursor.globals.addFunction declared.name⟩
  | .global declared =>
      ⟨cursor.serial + (item.dataLines cursor.globals).length + 1,
        cursor.globals.addVariable declared.name⟩

/-- The cursor after items. -/
def FileCursor.after (items : List Item) (cursor : FileCursor) : FileCursor :=
  items.foldl (fun cursor item => item.next cursor) cursor

/-- The data section of items. -/
def dataSection : List Item → FileCursor → List Instruction
  | [], _ => []
  | item :: items, cursor => item.dataLines cursor.globals ++ dataSection items (item.next cursor)

/-- The function that an item defines, with the number of its node. -/
def Item.placed? (cursor : FileCursor) : Item → Option (FunctionDefinition × Nat)
  | .function definition => some (definition, cursor.serial)
  | .external _ | .global _ => none

/-- The functions that items define, each with the number of its node. -/
def placedFunctions : List Item → FileCursor → List (FunctionDefinition × Nat)
  | [], _ => []
  | item :: items, cursor =>
      (item.placed? cursor).toList ++ placedFunctions items (item.next cursor)

namespace CompileUnit

/-- The start of a file, where there is only the node of the file. -/
def start : FileCursor := ⟨1, {}⟩

/-- The end of a file, where all of its nodes have been made. -/
def finish (unit : CompileUnit) : FileCursor := start.after unit.items

/-- The data section of a file. -/
def dataLines (unit : CompileUnit) : List Instruction := dataSection unit.items start

/-- The functions of a file, each with the number of its node. -/
def functions (unit : CompileUnit) : List (FunctionDefinition × Nat) :=
  placedFunctions unit.items start

/-- The lines of a file. -/
def translate (options : Asm.Options) (unit : CompileUnit) : List Entry :=
  lay 0 (fileHead options ++ unit.dataLines ++ [.directive ".code"]) ++
    unit.functions.flatMap (fun (definition, serial) => definition.translate serial) ++
    lay 0 [.fileEnd options.entryPoint]

/-- The text of a file. -/
def assembly (options : Asm.Options) (unit : CompileUnit) : String :=
  String.join (((unit.translate options).flatMap Entry.lines).map (Line.text options.style))

end CompileUnit

end MiniC
