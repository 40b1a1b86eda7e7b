import MiniC.Proofs.Asm.Reader

/-!
# What the text of an instruction says

Names are written into a file as they are, with nothing that would keep them apart
from the names of registers.  So a global called `eax` is written like the register
(`text_global_eax`).  Nothing else is confused: instructions with one text are the
same but for globals that are called like a register (`eq_of_text_eq`).
-/

namespace MiniC

open Asm (Instruction Operand Register)
open Asm.Instruction (mov)
open Text (isIdentifier)

namespace Asm

/-- Loading a global called `eax` is written like loading the register. -/
theorem text_global_eax :
    (mov Register.eax (.global "eax")).IsPlain ∧ (mov Register.eax Register.eax).IsPlain ∧
      (mov Register.eax (.global "eax")).text = (mov Register.eax Register.eax).text ∧
      mov Register.eax (.global "eax") ≠ mov Register.eax Register.eax ∧
      isIdentifier "eax" = true ∧
      (({ name := "main" } : Frame).resolve "eax").operand.text = Register.eax.text :=
  ⟨⟨rfl, by decide⟩, ⟨rfl, by decide⟩, by decide, by decide, by decide, by decide⟩

theorem Register.ofText?_eq_none {name : String} (h : ∀ r : Register, r.text ≠ name) :
    Register.ofText? name = none := by
  cases hfound : Register.ofText? name with
  | none => rfl
  | some r => exact absurd (Register.text_of_ofText? hfound) (h r)

theorem Instruction.asRead_eq_self {instruction : Instruction}
    (h : ∀ name ∈ instruction.globals, ∀ r : Register, r.text ≠ name) :
    instruction.asRead = instruction := by
  have hnames : ∀ name ∈ instruction.globals, Register.ofText? name = none :=
    fun name hname => Register.ofText?_eq_none (h name hname)
  cases instruction with
  | mov left right | cmp left right =>
      have hleft : left.asRead = left := Operand.asRead_eq_self fun name hname =>
        hnames name (List.mem_append_left _ hname)
      have hright : right.asRead = right := Operand.asRead_eq_self fun name hname =>
        hnames name (List.mem_append_right _ hname)
      rw [asRead, hleft, hright]
  | push source | add _ source | sub _ source =>
      have hsource : source.asRead = source := Operand.asRead_eq_self hnames
      rw [asRead, hsource]
  | _ => rfl

/-- Plain instructions with one text read as the same instruction. -/
theorem Instruction.asRead_eq_of_text_eq {first second : Instruction} (hfirst : first.IsPlain)
    (hsecond : second.IsPlain) (h : first.text = second.text) : first.asRead = second.asRead := by
  apply Option.some.inj
  calc some first.asRead
      = ofText? first.text := (ofText?_text hfirst).symm
    _ = ofText? second.text := congrArg ofText? h
    _ = some second.asRead := ofText?_text hsecond

/-- An operand with the text of an identifier is the global of that name or a register
that is called so: it is no immediate and no slot. -/
theorem Operand.eq_of_text_isIdentifier {operand : Operand} {name : String}
    (hname : isIdentifier name = true) (h : operand.text = name) :
    operand = .global name ∨ ∃ r : Register, operand = r ∧ r.text = name := by
  cases operand with
  | register r => exact .inr ⟨r, rfl, h⟩
  | immediate value =>
      rw [← h, isIdentifier_text_immediate] at hname
      exact absurd hname Bool.false_ne_true
  | frame offset =>
      rw [← h, isIdentifier_text_frame] at hname
      exact absurd hname Bool.false_ne_true
  | global other => exact .inl (congrArg Operand.global h)

/-- The text of an executable instruction whose labels, callees and globals are
identifiers says which instruction it is: two with one text are the same up to the
globals that are called like a register, and so they are equal where there is none.
The operand of a global variable never reads as an immediate or as a slot, and as a
register only if the variable is called like that register. -/
theorem eq_of_text_eq :
    (∀ first second : Instruction, first.IsPlain → second.IsPlain → first.text = second.text →
      first.asRead = second.asRead ∧
        ((∀ name ∈ first.globals ++ second.globals, ∀ r : Register, r.text ≠ name) →
          first = second)) ∧
    ∀ (frame : Frame) (name : String), isIdentifier name = true →
      frame.resolve name = .global name →
      ∀ operand : Operand, operand.text = (frame.resolve name).operand.text →
        operand = .global name ∨ ∃ r : Register, operand = r ∧ r.text = name := by
  constructor
  · intro first second hfirst hsecond htext
    have hread := Instruction.asRead_eq_of_text_eq hfirst hsecond htext
    refine ⟨hread, ?_⟩
    intro hglobals
    calc first
        = first.asRead := (Instruction.asRead_eq_self fun name hname =>
            hglobals name (List.mem_append_left _ hname)).symm
      _ = second.asRead := hread
      _ = second := Instruction.asRead_eq_self fun name hname =>
            hglobals name (List.mem_append_right _ hname)
  · intro frame name hname hresolve operand htext
    rw [hresolve] at htext
    exact Operand.eq_of_text_isIdentifier hname htext

theorem eq_of_text_eq_sample :
    (mov Register.eax (.global "eax")).asRead = mov Register.eax Register.eax ∧
      ∀ operand : Operand,
        operand.text = (({ name := "main" } : Frame).resolve "total").operand.text →
        operand = .global "total" ∨ ∃ r : Register, operand = r ∧ r.text = "total" :=
  ⟨(eq_of_text_eq.1 _ (mov Register.eax Register.eax) ⟨rfl, by decide⟩ ⟨rfl, by decide⟩
      (by decide)).1,
    eq_of_text_eq.2 { name := "main" } "total" (by decide) rfl⟩

end Asm

end MiniC
