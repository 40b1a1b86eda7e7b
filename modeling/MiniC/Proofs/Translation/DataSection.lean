import MiniC.Proofs.Asm.Words
import MiniC.Proofs.Translation.File

/-!
# The data section of a file

A translation knows in its cursor which names are declared so far, and gives an item a line
if its name is new.  What that comes to can be said without a cursor: an item has a line if
no item before it declares the same name in the same way, as a variable or as a function
(`dataLines_eq_firstLines`).

Where the names are identifiers, each instruction of the section makes one line, which says
what the instruction says (`lines_firstLines`), and no such line is a directive
(`text_ne_directive`).
-/

namespace MiniC

open Asm (Entry Instruction Line)

namespace Item

/-- The name that an item declares. -/
def name : Item → String
  | .function definition => definition.name
  | .external declared => declared.name
  | .global declared => declared.name

/-- Whether an item declares a variable with a name. -/
def declaresVariable (name : String) : Item → Bool
  | .global declared => declared.name == name
  | .function _ | .external _ => false

/-- Whether an item declares or defines a function with a name. -/
def declaresFunction (name : String) : Item → Bool
  | .function definition => definition.name == name
  | .external declared => declared.name == name
  | .global _ => false

/-- The line of an item after other items: a variable has one if no variable before it has
its name, and a function that is defined elsewhere if no function before it has. -/
def lineAfter? (earlier : List Item) : Item → Option Instruction
  | .function _ => none
  | .external declared =>
      if earlier.any (declaresFunction declared.name) then none
      else some (.proto declared.name declared.arity)
  | .global declared =>
      if earlier.any (declaresVariable declared.name) then none
      else some (.dword declared.name (declared.initializer.bind Expr.constant?))

end Item

/-- The lines of items that are the first with their names, in the order of the items. -/
def firstLines (items : List Item) : List Instruction :=
  items.zipIdx.filterMap fun (item, index) => item.lineAfter? (items.take index)

/-! ## The names declared so far -/

/-- The names that are declared are those of items. -/
structure Globals.NamesOf (globals : Globals) (items : List Item) : Prop where
  hasVariable_eq : ∀ name, globals.hasVariable name = items.any (Item.declaresVariable name)
  hasFunction_eq : ∀ name, globals.hasFunction name = items.any (Item.declaresFunction name)

namespace Globals.NamesOf

variable {globals : Globals} {cursor : FileCursor} {earlier : List Item}

theorem empty : Globals.NamesOf {} [] := ⟨fun _ => rfl, fun _ => rfl⟩

theorem addVariable (h : globals.NamesOf earlier) (declared : Declaration) :
    (globals.addVariable declared.name).NamesOf (earlier ++ [.global declared]) where
  hasVariable_eq name := by
    rw [Globals.hasVariable_addVariable, h.hasVariable_eq, List.any_append]
    simp [Item.declaresVariable, BEq.comm]
  hasFunction_eq name := by
    have hsame : (globals.addVariable declared.name).hasFunction name =
        globals.hasFunction name := by
      unfold Globals.addVariable
      split <;> rfl
    rw [hsame, h.hasFunction_eq, List.any_append]
    simp [Item.declaresFunction]

theorem addFunction (h : globals.NamesOf earlier) (item : Item)
    (hvariable : ∀ name, item.declaresVariable name = false)
    (hfunction : ∀ name, item.declaresFunction name = (item.name == name)) :
    (globals.addFunction item.name).NamesOf (earlier ++ [item]) where
  hasVariable_eq name := by
    have hsame : (globals.addFunction item.name).hasVariable name =
        globals.hasVariable name := by
      unfold Globals.addFunction
      split <;> rfl
    rw [hsame, h.hasVariable_eq, List.any_append]
    simp [hvariable]
  hasFunction_eq name := by
    rw [Globals.hasFunction_addFunction, h.hasFunction_eq, List.any_append]
    simp [hfunction, BEq.comm]

/-- An item adds its name. -/
theorem next (h : cursor.globals.NamesOf earlier) (item : Item) :
    (item.next cursor).globals.NamesOf (earlier ++ [item]) := by
  cases item with
  | function definition => exact h.addFunction (.function definition) (fun _ => rfl) fun _ => rfl
  | external declared => exact h.addFunction (.external declared) (fun _ => rfl) fun _ => rfl
  | global declared => exact h.addVariable declared

theorem dataLines_eq (h : globals.NamesOf earlier) (item : Item) :
    item.dataLines globals = (item.lineAfter? earlier).toList := by
  cases item with
  | function definition => rfl
  | external declared =>
      rw [Item.dataLines, Item.lineAfter?, h.hasFunction_eq]
      split <;> rfl
  | global declared =>
      rw [Item.dataLines, Item.lineAfter?, h.hasVariable_eq]
      split <;> rfl

/-- The data section of the items after the first ones. -/
theorem dataSection_eq {items all : List Item} (h : cursor.globals.NamesOf earlier)
    (hall : earlier ++ items = all) :
    dataSection items cursor = (items.zipIdx earlier.length).filterMap fun (item, index) =>
      item.lineAfter? (all.take index) := by
  -- induction on the items still to come; those before them are the front of `all`
  induction items generalizing cursor earlier with
  | nil => rfl
  | cons item items ih =>
      have hlength : earlier.length + 1 = (earlier ++ [item]).length := by simp
      have hearlier : all.take earlier.length = earlier := by
        rw [← hall]
        exact List.take_left
      rw [dataSection, h.dataLines_eq, List.zipIdx_cons, List.filterMap_cons, hlength,
        ih (h.next item) (by simp [← hall])]
      simp only [hearlier]
      cases item.lineAfter? earlier <;> rfl

end Globals.NamesOf

/-- The data section of a file is made of the lines of the items that are the first with
their names. -/
theorem CompileUnit.dataLines_eq_firstLines (unit : CompileUnit) :
    unit.dataLines = firstLines unit.items := by
  have hnames : start.globals.NamesOf [] := .empty
  exact hnames.dataSection_eq rfl

/-! ## Lines -/

/-- What an instruction of the data section says: the name, and the rest of one line. -/
theorem Item.text_of_lineAfter? {item : Item} {earlier : List Item} {instruction : Instruction}
    (h : item.lineAfter? earlier = some instruction) :
    ∃ rest, instruction.text = item.name ++ rest ∧ Text.Unbroken rest := by
  cases item with
  | function definition => cases h
  | external declared =>
      obtain ⟨-, hproto⟩ := Option.ite_none_left_eq_some.mp h
      obtain rfl := Option.some.inj hproto
      cases declared.arity with
      | zero => exact ⟨" PROTO", rfl, by decide⟩
      | succ count =>
          refine ⟨_, String.append_assoc, Text.Unbroken.append (by decide) ?_⟩
          exact Text.unbroken_intercalate (by decide) (by decide) (count + 1)
  | global declared =>
      obtain ⟨-, hdword⟩ := Option.ite_none_left_eq_some.mp h
      obtain rfl := Option.some.inj hdword
      cases declared.initializer.bind Expr.constant? with
      | none => exact ⟨" DWORD ?", rfl, by decide⟩
      | some value =>
          refine ⟨_, String.append_assoc, Text.Unbroken.append (by decide) ?_⟩
          exact Text.unbroken_toString value.toInt

section Lines

variable {items : List Item} {instruction : Instruction}

/-- An instruction of the data section is a name and the rest of one line. -/
theorem text_of_mem_firstLines (h : instruction ∈ firstLines items)
    (hnames : ∀ item ∈ items, Text.isIdentifier item.name = true) :
    ∃ name rest, instruction.text = name ++ rest ∧ Text.isIdentifier name = true ∧
      Text.Unbroken rest := by
  obtain ⟨⟨item, index⟩, hitem, hline⟩ := List.mem_filterMap.mp h
  obtain ⟨rest, htext, hrest⟩ := Item.text_of_lineAfter? hline
  exact ⟨item.name, rest, htext, hnames item (List.fst_mem_of_mem_zipIdx hitem), hrest⟩

/-- Each instruction of the data section makes one line. -/
theorem lines_firstLines (hnames : ∀ item ∈ items, Text.isIdentifier item.name = true) :
    (lay 0 (firstLines items)).flatMap Entry.lines =
      (firstLines items).map fun instruction => ⟨0, instruction.text⟩ := by
  have hone : ∀ instruction ∈ firstLines items,
      Entry.lines ⟨0, instruction⟩ = [⟨0, instruction.text⟩] := by
    intro instruction hmem
    obtain ⟨name, rest, htext, hname, hrest⟩ := text_of_mem_firstLines hmem hnames
    have hline : Text.IsLine instruction.text := htext ▸ Text.isLine_append hname hrest
    rw [Entry.lines, Text.contents_of_isLine hline, List.map_singleton]
  rw [lay, List.flatMap_map, List.flatMap_def, List.map_congr_left hone, ← List.flatMap_def,
    ← List.map_eq_flatMap]

/-- No line of the data section is a directive. -/
theorem text_ne_directive (h : instruction ∈ firstLines items)
    (hnames : ∀ item ∈ items, Text.isIdentifier item.name = true) {directive : String}
    (hdirective : directive.toList.head? = some '.') : instruction.text ≠ directive := by
  obtain ⟨name, rest, htext, hname, -⟩ := text_of_mem_firstLines h hnames
  rw [htext]
  exact Text.append_ne_of_isIdentifier hname hdirective

end Lines

end MiniC
