import MiniC.Proofs.Translation.Labels

/-!
# Renumbered code

Labels are numbered by the emission nodes made before.  Where a function is translated
after more nodes or after fewer, its code is the same but for the numbers in the labels
of its `if`s and `while`s, which are all shifted by the difference
(`FunctionDefinition.translate_renumber`).
-/

namespace MiniC

open Asm (Entry Instruction)
open Emission (epilogue jumpIfZero nameOf prologue)

/-! ## Labels, instructions and lines -/

/-- A label with the number of its `if` or `while` shifted.  Other labels stay as they
are. -/
def renumber (shift : Int) (label : String) : String :=
  match sections label with
  | [kind, digits, suffix] =>
      let serial := Nat.ofDigitChars 10 digits 0
      if label ∈ branchLabels serial then
        String.ofList kind ++ "_" ++ toString (serial + shift).toNat ++ "_" ++ String.ofList suffix
      else label
  | _ => label

/-- An instruction with the number of the label in it shifted. -/
def Asm.Instruction.renumber (shift : Int) : Instruction → Instruction
  | .label name => .label (MiniC.renumber shift name)
  | .jmp target => .jmp (MiniC.renumber shift target)
  | .jcc condition target => .jcc condition (MiniC.renumber shift target)
  | instruction => instruction

/-- A line with the number of the label in it shifted. -/
def Asm.Entry.renumber (shift : Int) (entry : Entry) : Entry :=
  { entry with instruction := entry.instruction.renumber shift }

variable {shift : Int}

theorem renumber_labelOf {kind : Emission.Kind} {suffix : String} {serial : Nat}
    (hsuffix : '_' ∉ suffix.toList)
    (hmem : labelOf kind serial suffix ∈ branchLabels serial) :
    renumber shift (labelOf kind serial suffix) = labelOf kind (serial + shift).toNat suffix := by
  rw [renumber, sections_labelOf_of_plain kind serial hsuffix]
  dsimp only
  rw [Nat.ofDigitChars_ten_toDigits, if_pos hmem, String.ofList_toList, String.ofList_toList]
  rfl

/-- The exit label of a function has no number, whatever the function is called. -/
theorem renumber_exitLabel (frame : Frame) : renumber shift frame.exitLabel = frame.exitLabel := by
  unfold renumber
  split
  · exact if_neg fun hmem => ne_exit_of_mem_branchLabels hmem frame.name rfl
  · rfl

/-- A cursor after a number of further nodes, or of fewer if it is negative. -/
structure Cursor.Shifted (shift : Int) (cursor other : Cursor) : Prop where
  frame_eq : other.frame = cursor.frame
  serial_eq : (other.serial : Int) = cursor.serial + shift

section Cursors

variable {cursor other : Cursor}

theorem Cursor.Shifted.toNat_eq (h : cursor.Shifted shift other) :
    (cursor.serial + shift).toNat = other.serial := by
  have := h.serial_eq
  omega

theorem Cursor.Shifted.skip (h : cursor.Shifted shift other) (count : Nat) :
    (cursor.skip count).Shifted shift (other.skip count) := by
  refine ⟨h.frame_eq, ?_⟩
  have := h.serial_eq
  rw [serial_skip, serial_skip]
  omega

theorem Cursor.Shifted.declareLocal (h : cursor.Shifted shift other) (name : String) :
    (cursor.declareLocal name).Shifted shift (other.declareLocal name) := by
  have hserial := h.serial_eq
  unfold Cursor.declareLocal
  rw [h.frame_eq]
  refine ⟨rfl, ?_⟩
  dsimp only
  omega

theorem Cursor.Shifted.declareParameter (h : cursor.Shifted shift other) (name : String) :
    (cursor.declareParameter name).Shifted shift (other.declareParameter name) := by
  have hserial := h.serial_eq
  unfold Cursor.declareParameter
  rw [h.frame_eq]
  refine ⟨rfl, ?_⟩
  dsimp only
  omega

/-- The labels of the node at a cursor are renumbered to those of the node at the other. -/
theorem Cursor.Shifted.renumber_labelOf (h : cursor.Shifted shift other) (kind : Emission.Kind)
    (suffix : String) (hmem : (kind, suffix) ∈ [(Emission.Kind.conditional, "else"),
      (.conditional, "endif"), (.loop, "loop"), (.loop, "end")]) :
    renumber shift (labelOf kind cursor.serial suffix) = labelOf kind other.serial suffix := by
  simp only [List.mem_cons, List.not_mem_nil, or_false, Prod.mk.injEq] at hmem
  rcases hmem with ⟨rfl, rfl⟩ | ⟨rfl, rfl⟩ | ⟨rfl, rfl⟩ | ⟨rfl, rfl⟩ <;>
    rw [MiniC.renumber_labelOf (by decide) (by simp [branchLabels]), h.toNat_eq]

end Cursors

/-! ## Code -/

/-- Code without labels and jumps has nothing to renumber. -/
theorem Plain.renumber_eq {code : List Instruction} (h : Plain code) :
    code.map (Instruction.renumber shift) = code := by
  conv => rhs; rw [← List.map_id code]
  apply List.map_congr_left
  intro instruction hmem
  obtain ⟨hlabel, htarget⟩ := h instruction hmem
  -- only labels and jumps hold numbers
  cases instruction with
  | label name => cases hlabel
  | jmp target | jcc condition target => cases htarget
  | _ => rfl

theorem renumber_lay (level : Nat) (code : List Instruction) :
    (lay level code).map (Entry.renumber shift) =
      lay level (code.map (Instruction.renumber shift)) := by
  rw [lay, lay, List.map_map, List.map_map]
  rfl

theorem renumber_lay_of_plain (level : Nat) {code : List Instruction} (h : Plain code) :
    (lay level code).map (Entry.renumber shift) = lay level code := by
  rw [renumber_lay, h.renumber_eq]

theorem renumber_jumpIfZero (label : String) :
    (jumpIfZero label).map (Instruction.renumber shift) = jumpIfZero (renumber shift label) := rfl

theorem renumber_returnCode (frame : Frame) (value : Option Expr) :
    (returnCode frame value).map (Instruction.renumber shift) = returnCode frame value := by
  have hvalue : Plain ((value.map (·.code frame)).getD []) := by
    cases value with
    | none => simp [Plain]
    | some value => exact value.plain frame
  rw [returnCode, List.map_append, hvalue.renumber_eq]
  simp only [List.map_cons, List.map_nil, Instruction.renumber, renumber_exitLabel]

/-! ## Statements -/

/-- What a translation makes of a shifted cursor: renumbered lines, and a cursor that is
shifted as far. -/
def Renumbered (shift : Int) (result other : List Entry × Cursor) : Prop :=
  other.1 = result.1.map (Entry.renumber shift) ∧ result.2.Shifted shift other.2

theorem Declaration.translate_renumber (level : Nat) (declared : Declaration)
    {cursor other : Cursor} (h : cursor.Shifted shift other) :
    Renumbered shift (declared.translate level cursor) (declared.translate level other) := by
  unfold Declaration.translate
  rw [h.frame_eq]
  cases declared.initializer with
  | none => exact ⟨rfl, (h.declareLocal _).skip 1⟩
  | some value =>
      refine ⟨?_, ((h.skip _).declareLocal _).skip 1⟩
      exact (renumber_lay_of_plain level
        ((value.plain cursor.frame).append (plain_single rfl rfl))).symm

mutual

theorem Stmt.translate_renumber (level : Nat) (loopEnd : Option String) : (statement : Stmt) →
    (cursor other : Cursor) → cursor.Shifted shift other →
    Renumbered shift (statement.translate level loopEnd cursor)
      (statement.translate level (loopEnd.map (renumber shift)) other)
  | .expression value, cursor, other, h => by
      rw [Stmt.translate, Stmt.translate, h.frame_eq]
      exact ⟨(renumber_lay_of_plain level (value.plain cursor.frame)).symm, h.skip _⟩
  | .declaration declared, cursor, other, h => declared.translate_renumber level h
  | .block block, cursor, other, h => block.translate_renumber level loopEnd cursor other h
  | .ifElse _ condition thenBlock elseBlock, cursor, other, h => by
      obtain ⟨hthen, hnext⟩ := thenBlock.translate_renumber level loopEnd _ _
        (h.skip (1 + condition.size))
      have helse := h.renumber_labelOf .conditional "else" (by simp)
      have hend := h.renumber_labelOf .conditional "endif" (by simp)
      cases elseBlock with
      | none =>
          rw [Stmt.translate, Stmt.translate]
          refine ⟨?_, hnext⟩
          dsimp only
          rw [hthen, h.frame_eq]
          simp only [List.map_append, renumber_lay, (condition.plain cursor.frame).renumber_eq,
            renumber_jumpIfZero, List.map_cons, List.map_nil, Instruction.renumber, helse, hend]
      | some block =>
          obtain ⟨hother, hlast⟩ := block.translate_renumber level loopEnd _ _ hnext
          rw [Stmt.translate, Stmt.translate]
          refine ⟨?_, hlast⟩
          dsimp only
          rw [hthen, hother, h.frame_eq]
          simp only [List.map_append, renumber_lay, (condition.plain cursor.frame).renumber_eq,
            renumber_jumpIfZero, List.map_cons, List.map_nil, Instruction.renumber, helse, hend]
  | .whileLoop _ condition body, cursor, other, h => by
      have hloop := h.renumber_labelOf .loop "loop" (by simp)
      have hend := h.renumber_labelOf .loop "end" (by simp)
      -- the loop end handed to the body is renumbered as well, since it comes from the cursor
      obtain ⟨hbody, hnext⟩ := body.translate_renumber level
        (some (labelOf .loop cursor.serial "end")) _ _ (h.skip (1 + condition.size))
      rw [Option.map_some, hend] at hbody hnext
      rw [Stmt.translate, Stmt.translate]
      refine ⟨?_, hnext⟩
      dsimp only
      rw [hbody, h.frame_eq]
      simp only [List.map_append, renumber_lay, (condition.plain cursor.frame).renumber_eq,
        renumber_jumpIfZero, List.map_cons, List.map_nil, Instruction.renumber, hloop, hend]
  | .returnValue _ value, cursor, other, h => by
      rw [Stmt.translate, Stmt.translate, h.frame_eq]
      refine ⟨?_, h.skip _⟩
      rw [renumber_lay, renumber_returnCode]
  | .breakLoop _, _, _, h => by
      rw [Stmt.translate, Stmt.translate]
      refine ⟨?_, h.skip _⟩
      rw [renumber_lay]
      cases loopEnd <;> rfl

theorem Block.translate_renumber (level : Nat) (loopEnd : Option String) : (block : Block) →
    (cursor other : Cursor) → cursor.Shifted shift other →
    Renumbered shift (block.translate level loopEnd cursor)
      (block.translate level (loopEnd.map (renumber shift)) other)
  | ⟨_, statements⟩, _, _, h =>
      translateAll_renumber (level + 1) loopEnd statements _ _ (h.skip 1)

theorem translateAll_renumber (level : Nat) (loopEnd : Option String) : (statements : List Stmt) →
    (cursor other : Cursor) → cursor.Shifted shift other →
    Renumbered shift (translateAll level loopEnd statements cursor)
      (translateAll level (loopEnd.map (renumber shift)) statements other)
  | [], _, _, h => ⟨rfl, h⟩
  | statement :: statements, cursor, other, h => by
      obtain ⟨hlines, hnext⟩ := statement.translate_renumber level loopEnd cursor other h
      obtain ⟨hmore, hlast⟩ := translateAll_renumber level loopEnd statements _ _ hnext
      rw [translateAll, translateAll]
      exact ⟨by dsimp only; rw [hlines, hmore, List.map_append], hlast⟩

end

/-! ## Functions -/

namespace FunctionDefinition

variable (definition : FunctionDefinition) {serial other : Nat}

theorem shifted_start (h : (other : Int) = serial + shift) :
    (definition.start serial).Shifted shift (definition.start other) := by
  have hfirst : Cursor.Shifted shift ⟨serial + 1, { name := definition.name }⟩
      ⟨other + 1, { name := definition.name }⟩ := by
    refine ⟨rfl, ?_⟩
    dsimp only
    omega
  unfold start declareParameterList
  cases definition.parameters with
  | none => exact hfirst
  | some list =>
      refine Cursor.Shifted.skip ?_ 1
      unfold declareParameters
      -- both cursors vary in the induction on the parameters
      generalize (⟨serial + 1, { name := definition.name }⟩ : Cursor) = cursor at hfirst
      generalize (⟨other + 1, { name := definition.name }⟩ : Cursor) = next at hfirst
      induction list.parameters generalizing cursor next with
      | nil => exact hfirst
      | cons parameter parameters ih => exact ih _ _ (hfirst.declareParameter parameter.name)

/-- **The nodes made before a function do not matter to it.**  At another number its lines are
the same, with the numbers in its labels shifted by the difference. -/
theorem translate_renumber (h : (other : Int) = serial + shift) :
    definition.translate other =
      (definition.translate serial).map (Entry.renumber shift) := by
  obtain ⟨hbody, hlast⟩ := definition.body.translate_renumber 1 none _ _
    (definition.shifted_start h)
  -- what stands around the body goes by the final frame, which holds no numbers
  have hframe : definition.finalFrame other = definition.finalFrame serial := hlast.frame_eq
  have hplain : Plain (prologue (definition.finalFrame serial) ++
      (definition.finalFrame serial).comments) :=
    (plain_prologue _).append (Frame.plain_comments _)
  have hepilogue : (epilogue (definition.finalFrame serial)).map (Instruction.renumber shift) =
      epilogue (definition.finalFrame serial) := by
    simp only [epilogue, List.map_cons, List.map_nil, Instruction.renumber, renumber_exitLabel]
  simp only [translate, hframe, List.map_append]
  rw [renumber_lay_of_plain 0 (plain_single rfl rfl), renumber_lay_of_plain 1 hplain,
    renumber_lay 1, hepilogue, renumber_lay_of_plain 0 (plain_single rfl rfl)]
  rw [translateBody, translateBody, ← hbody]
  rfl

end FunctionDefinition

end MiniC
