import MiniC.Proofs.Asm.Buffer
import MiniC.Proofs.Codegen.Options

/-!
# Styles

The style of a file decides how its lines are written and nothing else.  Two runs of the
compiler on one syntax tree that differ in the style alone fail with the same error, or
write the same lines (`assembly_of_styles`).

Code generation does not read the options at all, and assembling reads only those that
directives are made of (`assembleTo_style`).  What is left is how lines are written.
Nothing in a line depends on the style, since no line holds a line break or starts with
a blank, whatever names and directives hold; and code that is passed on as text is split
into the same lines, in whatever style it is written.
-/

namespace MiniC

namespace Asm

/-! ## Carriage returns -/

/-- A text with a carriage return before every line feed. -/
def withCarriageReturns (text : String) : String :=
  String.ofList (text.toList.flatMap fun c => if c = '\n' then ['\r', '\n'] else [c])

theorem withCarriageReturns_append (first second : String) :
    withCarriageReturns (first ++ second) =
      withCarriageReturns first ++ withCarriageReturns second := by
  simp [withCarriageReturns, String.ofList_append]

/-- Without line breaks there is nothing to change. -/
theorem withCarriageReturns_of_unbroken {text : String}
    (h : ∀ c ∈ text.toList, Text.isBreak c = false) : withCarriageReturns text = text := by
  have hsame : ∀ chars : List Char, (∀ c ∈ chars, Text.isBreak c = false) →
      (chars.flatMap fun c => if c = '\n' then ['\r', '\n'] else [c]) = chars := by
    intro chars hchars
    induction chars with
    | nil => rfl
    | cons c chars ih =>
        have hne : c ≠ '\n' := by
          rintro rfl
          cases hchars '\n' List.mem_cons_self
        rw [List.flatMap_cons, if_neg hne, ih fun d hd => hchars d (List.mem_cons_of_mem c hd)]
        rfl
  rw [withCarriageReturns, hsame text.toList h, String.ofList_toList]

theorem written_crlf (indent : Indent) {lines : List Line}
    (h : ∀ line ∈ lines, Text.IsLine line.content) :
    written ⟨indent, .crlf⟩ lines = withCarriageReturns (written ⟨indent, .lf⟩ lines) := by
  induction lines with
  | nil => rfl
  | cons line lines ih =>
      have hindent : ∀ c ∈ (String.join (List.replicate line.level indent.unit)).toList,
          Text.isBreak c = false := by
        intro c hc
        rw [← Indent.text_eq_units] at hc
        exact (isBlank_of_mem_indent hc).2
      have hcontent := (h line List.mem_cons_self).unbroken
      have hmore := ih fun other hother => h other (List.mem_cons_of_mem line hother)
      unfold written at hmore ⊢
      simp only [List.map_cons, String.join_cons, withCarriageReturns_append, hmore,
        withCarriageReturns_of_unbroken hindent, withCarriageReturns_of_unbroken hcontent]
      rfl

end Asm

open Asm (Buffer Indent Line Options Style)
open Ast (Arena)
open Codegen (assembly emissionOfArena)

/-! ## The lines of a file -/

/-- Assembling does not read the style. -/
theorem Emission.assembleTo_style (emission : Emission) (options : Options) (style : Style)
    (depth : Nat) (id : Emission.Id) :
    (emission.setOptions { options with style }).assembleTo depth id =
      (emission.setOptions options).assembleTo depth id := by
  induction depth generalizing id with
  | zero => rfl
  | succ depth ih =>
      have hchildren : (emission.setOptions { options with style }).assembleTo depth =
          (emission.setOptions options).assembleTo depth := funext ih
      unfold Emission.assembleTo
      rw [hchildren]
      rfl

/-- The text of a file is its lines, as they are written in the style. -/
theorem Emission.text_style (emission : Emission) (options : Options) (style : Style) :
    (emission.setOptions { options with style }).text =
      ((emission.setOptions options).assemble fileId).map fun buffer =>
        Asm.written style buffer.lines := by
  have hassemble : (emission.setOptions { options with style }).assemble fileId =
      (emission.setOptions options).assemble fileId :=
    emission.assembleTo_style options style emission.nodes.size fileId
  unfold Emission.text
  rw [hassemble]
  cases (emission.setOptions options).assemble fileId with
  | error error => rfl
  | ok buffer => exact congrArg Except.ok (buffer.text_eq_written style)

/-- The lines of the file of an arena. -/
def fileLines (options : Options) (arena : Arena) : Except Error (List Line) :=
  emissionOfArena options arena >>= fun emission =>
    (emission.assemble Emission.fileId).map Buffer.lines

theorem assembly_eq_written (options : Options) (arena : Arena) (style : Style) :
    assembly { options with style } arena = (fileLines options arena).map (Asm.written style) := by
  unfold assembly fileLines
  rw [Codegen.emissionOfArena_setOptions { options with style } {},
    Codegen.emissionOfArena_setOptions options {}]
  cases emissionOfArena {} arena with
  | error error => rfl
  | ok emission =>
      show (emission.setOptions { options with style }).text =
        (((emission.setOptions options).assemble Emission.fileId).map Buffer.lines).map _
      rw [Emission.text_style]
      cases (emission.setOptions options).assemble Emission.fileId <;> rfl

theorem isLine_of_fileLines {options : Options} {arena : Arena} {lines : List Line}
    (h : fileLines options arena = .ok lines) : ∀ line ∈ lines, Text.IsLine line.content := by
  unfold fileLines at h
  cases hemission : emissionOfArena options arena with
  | error error =>
      rw [hemission] at h
      cases h
  | ok emission =>
      rw [hemission] at h
      change (emission.assemble Emission.fileId).map Buffer.lines = .ok lines at h
      cases hbuffer : emission.assemble Emission.fileId with
      | error error =>
          rw [hbuffer] at h
          cases h
      | ok buffer =>
          rw [hbuffer] at h
          cases h
          intro line hline
          exact buffer.isLine_of_mem_lines hline

/-- **Style independence.**  Two runs of the compiler that differ in the style alone fail with
the same error or write the same lines, each in its style.  With the same indentation, CR LF
stands in the one file for each LF of the other.  Code that is passed on as text makes the same
lines in whatever style it is written. -/
theorem assembly_of_styles (options : Options) (arena : Arena) :
    (∀ first second : Style,
      (∃ error, assembly { options with style := first } arena = .error error ∧
        assembly { options with style := second } arena = .error error) ∨
      ∃ lines : List Line, (∀ line ∈ lines, Text.IsLine line.content) ∧
        assembly { options with style := first } arena = .ok (Asm.written first lines) ∧
        assembly { options with style := second } arena = .ok (Asm.written second lines)) ∧
    (∀ indent : Indent, assembly { options with style := ⟨indent, .crlf⟩ } arena =
      (assembly { options with style := ⟨indent, .lf⟩ } arena).map Asm.withCarriageReturns) ∧
    ∀ (style : Style) (buffer other : Buffer),
      (buffer.addCode (other.text style)).lines = (buffer.absorb other).lines := by
  refine ⟨?_, ?_, Buffer.lines_addCode_text⟩
  · intro first second
    rw [assembly_eq_written, assembly_eq_written]
    cases hlines : fileLines options arena with
    | error error => exact .inl ⟨error, rfl, rfl⟩
    | ok lines => exact .inr ⟨lines, isLine_of_fileLines hlines, rfl, rfl⟩
  · intro indent
    rw [assembly_eq_written, assembly_eq_written]
    cases hlines : fileLines options arena with
    | error error => rfl
    | ok lines => exact congrArg Except.ok (Asm.written_crlf indent (isLine_of_fileLines hlines))

end MiniC
