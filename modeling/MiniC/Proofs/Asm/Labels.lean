import MiniC.Asm.Instruction

/-!
# Labels and jumps

The labels that code defines, the targets of its jumps, and the code that a label
stands before.  Where no label is defined twice, a label that stands at a place is
found there (`codeAfter_of_nodup`).
-/

namespace MiniC.Asm

namespace Instruction

/-- The label that a line defines. -/
def label? : Instruction → Option String
  | label name => some name
  | _ => none

/-- The target of a jump. -/
def target? : Instruction → Option String
  | jmp target | jcc _ target => some target
  | _ => none

/-- The target of a jump without a condition. -/
def jump? : Instruction → Option String
  | jmp target => some target
  | _ => none

end Instruction

/-- The labels that code defines, in order. -/
def labels (code : List Instruction) : List String := code.filterMap Instruction.label?

/-- The targets of the jumps in code, in order. -/
def targets (code : List Instruction) : List String := code.filterMap Instruction.target?

/-- The targets of the jumps without a condition in code, in order. -/
def jumps (code : List Instruction) : List String := code.filterMap Instruction.jump?

variable (code more : List Instruction)

@[simp] theorem labels_nil : labels [] = [] := rfl

@[simp] theorem labels_cons (instruction : Instruction) :
    labels (instruction :: code) = instruction.label?.toList ++ labels code := by
  cases h : instruction.label? <;> simp [labels, h]

@[simp] theorem labels_append : labels (code ++ more) = labels code ++ labels more :=
  List.filterMap_append

@[simp] theorem targets_nil : targets [] = [] := rfl

@[simp] theorem targets_cons (instruction : Instruction) :
    targets (instruction :: code) = instruction.target?.toList ++ targets code := by
  cases h : instruction.target? <;> simp [targets, h]

@[simp] theorem targets_append : targets (code ++ more) = targets code ++ targets more :=
  List.filterMap_append

@[simp] theorem jumps_cons (instruction : Instruction) :
    jumps (instruction :: code) = instruction.jump?.toList ++ jumps code := by
  cases h : instruction.jump? <;> simp [jumps, h]

@[simp] theorem jumps_append : jumps (code ++ more) = jumps code ++ jumps more :=
  List.filterMap_append

/-- Jumps without a condition are jumps. -/
theorem mem_targets_of_mem_jumps {code : List Instruction} {target : String}
    (h : target ∈ jumps code) : target ∈ targets code := by
  obtain ⟨instruction, hmem, hjump⟩ := List.mem_filterMap.mp h
  refine List.mem_filterMap.mpr ⟨instruction, hmem, ?_⟩
  cases instruction with
  | jmp other => exact hjump
  | _ => cases hjump

/-- The code after the first line that defines a label. -/
def codeAfter (label : String) : List Instruction → Option (List Instruction)
  | [] => none
  | instruction :: code =>
      if instruction = .label label then some code else codeAfter label code

variable {code more}

theorem codeAfter_of_not_mem {label : String} (h : label ∉ labels code) :
    codeAfter label (code ++ .label label :: more) = some more := by
  induction code with
  | nil => exact if_pos rfl
  | cons instruction code ih =>
      rw [labels_cons, List.mem_append, not_or] at h
      -- the first line is passed over unless it defines the label, and then it would be in `code`
      have hother : instruction ≠ .label label := by
        rintro rfl
        exact h.1 (by simp [Instruction.label?])
      rw [List.cons_append, codeAfter, if_neg hother]
      exact ih h.2

/-- A label that is defined once is found where it stands. -/
theorem codeAfter_of_nodup {label : String}
    (h : (labels (code ++ .label label :: more)).Nodup) :
    codeAfter label (code ++ .label label :: more) = some more := by
  apply codeAfter_of_not_mem
  intro hmem
  rw [labels_append] at h
  exact (List.nodup_append.mp h).2.2 label hmem label (by simp [Instruction.label?]) rfl

end MiniC.Asm
