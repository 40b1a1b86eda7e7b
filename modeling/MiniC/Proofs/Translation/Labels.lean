import MiniC.Proofs.Asm.Buffer
import MiniC.Proofs.Asm.Labels
import MiniC.Proofs.Translation.Code

/-!
# The labels of translated code

A label of an `if` or a `while` is written with the number of its emission node
between two underscores, so that the number can be read off it (`eq_of_labelOf_eq`).
The nodes made for a statement have the numbers between the cursors before and after
it.  That is why no label is defined twice, and it is what `WellPlaced` says of code
with an interval of numbers.  Whatever a function is called, its exit label is none
of the others.
-/

namespace MiniC

open Asm (Instruction jumps labels targets)
open Emission (epilogue jumpIfZero nameOf prologue)

/-! ## Labels as texts -/

/-- The stretches of a label between its underscores. -/
def sections (label : String) : List (List Char) := Text.split (· == '_') label.toList

theorem sections_of_plain {text : String} (h : '_' ∉ text.toList) :
    sections text = [text.toList] :=
  Text.split_of_unbroken fun c hc => by
    rw [beq_eq_false_iff_ne]
    rintro rfl
    exact h hc

theorem sections_append (front rest : String) :
    sections (front ++ "_" ++ rest) = sections front ++ sections rest := by
  rw [sections, String.toList_append, String.toList_append, List.append_assoc]
  exact Text.split_append_cons (by rfl) _ _

/-- The word for a kind has no underscore. -/
theorem underscore_not_mem_label (kind : Emission.Kind) : '_' ∉ kind.label.toList := by
  cases kind with
  | leaf sort => cases sort <;> decide
  | file | function | conditional | loop | compound => decide

/-- The first two stretches of a label are the word for the kind and the number, whatever the
suffix is. -/
theorem sections_labelOf (kind : Emission.Kind) (serial : Nat) (suffix : String) :
    sections (labelOf kind serial suffix) =
      kind.label.toList :: Nat.toDigits 10 serial :: sections suffix := by
  have hdigits : (toString serial).toList = Nat.toDigits 10 serial := Nat.toList_repr
  have hserial : '_' ∉ (toString serial).toList := by
    rw [hdigits]
    exact Nat.underscore_not_in_toDigits
  unfold labelOf nameOf
  rw [sections_append, sections_append, sections_of_plain (underscore_not_mem_label kind),
    sections_of_plain hserial, hdigits]
  rfl

theorem sections_labelOf_of_plain (kind : Emission.Kind) (serial : Nat) {suffix : String}
    (h : '_' ∉ suffix.toList) :
    sections (labelOf kind serial suffix) =
      [kind.label.toList, Nat.toDigits 10 serial, suffix.toList] := by
  rw [sections_labelOf, sections_of_plain h]

/-- The number and the suffix of a label can be read off it.  The suffix may be any text: where
it starts is settled by what comes before. -/
theorem eq_of_labelOf_eq {kind other : Emission.Kind} {serial number : Nat} {suffix rest : String}
    (h : labelOf kind serial suffix = labelOf other number rest) :
    serial = number ∧ suffix = rest := by
  have hsections := congrArg sections h
  rw [sections_labelOf, sections_labelOf] at hsections
  obtain ⟨hword, hmore⟩ := List.cons.inj hsections
  obtain ⟨hdigits, -⟩ := List.cons.inj hmore
  have hserial : serial = number := by
    rw [← @Nat.ofDigitChars_ten_toDigits serial, hdigits, Nat.ofDigitChars_ten_toDigits]
  have hname : nameOf kind serial = nameOf other number := by
    unfold nameOf
    rw [String.toList_inj.mp hword, hserial]
  refine ⟨hserial, ?_⟩
  unfold labelOf at h
  rw [hname] at h
  exact (String.append_right_inj _).mp h

/-- The labels that the `if` or the `while` with a number may define. -/
def branchLabels (serial : Nat) : List String :=
  [labelOf .conditional serial "else", labelOf .conditional serial "endif",
    labelOf .loop serial "loop", labelOf .loop serial "end"]

theorem exists_of_mem_branchLabels {label : String} {serial : Nat}
    (h : label ∈ branchLabels serial) : ∃ (kind : Emission.Kind) (suffix : String),
      label = labelOf kind serial suffix ∧ suffix ∈ ["else", "endif", "loop", "end"] := by
  simp only [branchLabels, List.mem_cons, List.not_mem_nil, or_false] at h
  rcases h with rfl | rfl | rfl | rfl <;> exact ⟨_, _, rfl, by decide⟩

/-- The labels of one number are four. -/
theorem nodup_branchLabels (serial : Nat) : (branchLabels serial).Nodup := by
  have hne {kind other : Emission.Kind} {suffix rest : String} (h : suffix ≠ rest) :
      labelOf kind serial suffix ≠ labelOf other serial rest :=
    fun heq => h (eq_of_labelOf_eq heq).2
  simp [branchLabels, hne]

/-- The number of a label can be read off it. -/
theorem serial_eq_of_mem_branchLabels {label : String} {serial other : Nat}
    (h : label ∈ branchLabels serial) (hother : label ∈ branchLabels other) : serial = other := by
  obtain ⟨kind, suffix, rfl, -⟩ := exists_of_mem_branchLabels h
  obtain ⟨kind', suffix', heq, -⟩ := exists_of_mem_branchLabels hother
  exact (eq_of_labelOf_eq heq).1

theorem sections_exit (name : String) :
    sections (name ++ "_exit") = sections name ++ ["exit".toList] := by
  have h := sections_append name "exit"
  rwa [String.append_assoc] at h

/-- The label of an `if` or a `while` is not the exit label of a function, however
the function is called. -/
theorem ne_exit_of_mem_branchLabels {label : String} {serial : Nat}
    (h : label ∈ branchLabels serial) (name : String) : label ≠ name ++ "_exit" := by
  rintro rfl
  obtain ⟨kind, suffix, heq, hmem⟩ := exists_of_mem_branchLabels h
  -- a name may hold underscores, so the labels are told apart by their last sections
  have hsuffix : '_' ∉ suffix.toList ∧ suffix ≠ "exit" := by
    simp only [List.mem_cons, List.not_mem_nil, or_false] at hmem
    rcases hmem with rfl | rfl | rfl | rfl <;> decide
  have hlast := congrArg (fun label => (sections label).getLast?) heq
  simp only [sections_exit, sections_labelOf_of_plain kind serial hsuffix.1, List.getLast?_concat,
    List.getLast?_cons_cons, List.getLast?_singleton, Option.some.injEq] at hlast
  exact hsuffix.2 (String.toList_inj.mp hlast.symm)

/-! ## Code without labels and jumps -/

/-- Code that neither defines labels nor jumps. -/
def Plain (code : List Instruction) : Prop :=
  ∀ instruction ∈ code, instruction.label? = none ∧ instruction.target? = none

theorem Plain.append {code more : List Instruction} (h : Plain code) (hmore : Plain more) :
    Plain (code ++ more) := fun instruction hmem =>
  (List.mem_append.mp hmem).elim (h instruction) (hmore instruction)

theorem Plain.labels_eq {code : List Instruction} (h : Plain code) : labels code = [] :=
  List.filterMap_eq_nil_iff.mpr fun instruction hmem => (h instruction hmem).1

theorem Plain.targets_eq {code : List Instruction} (h : Plain code) : targets code = [] :=
  List.filterMap_eq_nil_iff.mpr fun instruction hmem => (h instruction hmem).2

theorem Plain.jumps_eq {code : List Instruction} (h : Plain code) : jumps code = [] :=
  List.eq_nil_iff_forall_not_mem.mpr fun target hmem => by
    have htarget := Asm.mem_targets_of_mem_jumps hmem
    rw [h.targets_eq] at htarget
    cases htarget

theorem plain_binarySequence (op : BinaryOp) : Plain (Codegen.binarySequence op) := by
  cases op <;> simp [Plain, Codegen.binarySequence, Codegen.exchange, Codegen.compare,
    Instruction.label?, Instruction.target?]

theorem plain_unarySequence (op : UnaryOp) : Plain (Codegen.unarySequence op) := by
  cases op <;> simp [Plain, Codegen.unarySequence, Instruction.label?, Instruction.target?]

theorem plain_dropArguments (count : Nat) : Plain (Codegen.dropArguments count) := by
  cases count <;> simp [Plain, Codegen.dropArguments, Instruction.label?, Instruction.target?]

theorem plain_single {instruction : Instruction} (hlabel : instruction.label? = none)
    (htarget : instruction.target? = none) : Plain [instruction] := by
  simpa [Plain] using ⟨hlabel, htarget⟩

mutual

theorem Expr.plain (frame : Frame) : (expr : Expr) → Plain (expr.code frame)
  | .number _ _ | .name _ _ => plain_single rfl rfl
  | .binary _ op left right =>
      ((((left.plain frame).append (plain_single rfl rfl)).append (right.plain frame)).append
        (plain_single rfl rfl)).append (plain_binarySequence op)
  | .unary _ op operand => (operand.plain frame).append (plain_unarySequence op)
  | .assign _ _ _ value => (value.plain frame).append (plain_single rfl rfl)
  | .call _ _ none => plain_single rfl rfl
  | .call _ _ (some list) =>
      ((list.plain frame).append (plain_single rfl rfl)).append (plain_dropArguments _)

theorem ArgumentList.plain (frame : Frame) : (list : ArgumentList) → Plain (list.code frame)
  | ⟨_, values⟩ => plain_argumentCode frame values

theorem plain_argumentCode (frame : Frame) :
    (values : List Expr) → Plain (argumentCode frame values)
  | [] => by simp [Plain, argumentCode]
  | value :: values =>
      (plain_argumentCode frame values).append ((value.plain frame).append (plain_single rfl rfl))

end

theorem Declaration.plain (declaration : Declaration) (frame : Frame) :
    Plain (declaration.code frame) := by
  unfold Declaration.code
  cases declaration.initializer with
  | none => simp [Plain]
  | some value => exact (value.plain frame).append (plain_single rfl rfl)

/-! ## Where labels and jumps are -/

/-- Labels have numbers of an interval. -/
def Numbered (low high : Nat) (names : List String) : Prop :=
  ∀ label ∈ names, ∃ serial, low ≤ serial ∧ serial < high ∧ label ∈ branchLabels serial

theorem Numbered.mono {low high first last : Nat} {names : List String}
    (h : Numbered first last names) (hlow : low ≤ first) (hhigh : last ≤ high) :
    Numbered low high names := fun label hlabel => by
  obtain ⟨serial, hfirst, hlast, hmem⟩ := h label hlabel
  exact ⟨serial, Nat.le_trans hlow hfirst, Nat.lt_of_lt_of_le hlast hhigh, hmem⟩

theorem Numbered.append {low high : Nat} {names more : List String} (h : Numbered low high names)
    (hmore : Numbered low high more) : Numbered low high (names ++ more) := fun label hlabel =>
  (List.mem_append.mp hlabel).elim (h label) (hmore label)

theorem numbered_own {serial : Nat} {names : List String}
    (h : ∀ label ∈ names, label ∈ branchLabels serial) : Numbered serial (serial + 1) names :=
  fun label hlabel => ⟨serial, Nat.le_refl _, Nat.lt_succ_self _, h label hlabel⟩

/-- Labels with numbers of different intervals are different. -/
theorem Numbered.ne {low middle high first : Nat} {names more : List String}
    (h : Numbered low middle names) (hmore : Numbered first high more) (hle : middle ≤ first)
    {label other : String} (hlabel : label ∈ names) (hother : other ∈ more) : label ≠ other := by
  rintro rfl
  obtain ⟨serial, -, hlt, hmem⟩ := h label hlabel
  obtain ⟨serial', hge, -, hmem'⟩ := hmore label hother
  have := serial_eq_of_mem_branchLabels hmem hmem'
  omega

/-- Code that defines labels with numbers of an interval, each of them once, and jumps
to these or to labels around it. -/
structure WellPlaced (low high : Nat) (outer : List String) (code : List Instruction) : Prop where
  nodup : (labels code).Nodup
  numbered : Numbered low high (labels code)
  targets_mem : ∀ target ∈ targets code, target ∈ labels code ∨ target ∈ outer

namespace WellPlaced

variable {low middle high : Nat} {outer : List String} {code more : List Instruction}

/-- Code that defines no labels may only jump outwards. -/
theorem of_labels_nil (hlabels : labels code = []) (h : ∀ target ∈ targets code, target ∈ outer) :
    WellPlaced low high outer code where
  nodup := by rw [hlabels]; exact List.nodup_nil
  numbered := by rw [hlabels]; exact fun _ => False.elim ∘ List.not_mem_nil
  targets_mem target htarget := .inr (h target htarget)

theorem of_plain (h : Plain code) : WellPlaced low high outer code :=
  of_labels_nil h.labels_eq (by simp [h.targets_eq])

theorem mono (h : WellPlaced middle high outer code) (hle : low ≤ middle) :
    WellPlaced low high outer code :=
  ⟨h.nodup, h.numbered.mono hle (Nat.le_refl _), h.targets_mem⟩

theorem outward {further : List String} (h : WellPlaced low high outer code)
    (hsub : ∀ label ∈ outer, label ∈ further) : WellPlaced low high further code :=
  ⟨h.nodup, h.numbered, fun target htarget => (h.targets_mem target htarget).imp id (hsub target)⟩

theorem append (h : WellPlaced low middle outer code) (hmore : WellPlaced middle high outer more)
    (hlow : low ≤ middle) (hhigh : middle ≤ high) : WellPlaced low high outer (code ++ more) where
  nodup := by
    rw [Asm.labels_append, List.nodup_append]
    exact ⟨h.nodup, hmore.nodup, fun label hlabel other hother =>
      h.numbered.ne hmore.numbered (Nat.le_refl _) hlabel hother⟩
  numbered := by
    rw [Asm.labels_append]
    exact (h.numbered.mono (Nat.le_refl _) hhigh).append (hmore.numbered.mono hlow (Nat.le_refl _))
  targets_mem target htarget := by
    rw [Asm.targets_append, List.mem_append] at htarget
    rw [Asm.labels_append, List.mem_append]
    rcases htarget with hfirst | hrest
    · exact (h.targets_mem target hfirst).imp .inl id
    · exact (hmore.targets_mem target hrest).imp .inr id

section Composites

variable {serial first : Nat} {inner : List String} {condition chosen other body : List Instruction}

/-- Code around other code, with labels of its own that have one number. -/
theorem enclose (own : List String) (h : WellPlaced first high inner body)
    (hserial : serial < first) (hfirst : first ≤ high)
    (hown : ∀ label ∈ own, label ∈ branchLabels serial) (hnodup : own.Nodup)
    (hlabels : (labels code).Perm (own ++ labels body))
    (hinner : ∀ label ∈ inner, label ∈ own ∨ label ∈ outer)
    (htargets : ∀ target ∈ targets code, target ∈ own ∨ target ∈ targets body) :
    WellPlaced serial high outer code where
  nodup := by
    refine hlabels.nodup_iff.mpr (List.nodup_append.mpr ⟨hnodup, h.nodup, ?_⟩)
    exact fun label hlabel name hname => (numbered_own hown).ne h.numbered hserial hlabel hname
  numbered label hlabel := by
    have hwhole : Numbered serial high (own ++ labels body) :=
      ((numbered_own hown).mono (Nat.le_refl _) (by omega)).append
        (h.numbered.mono (by omega) (Nat.le_refl _))
    exact hwhole label (hlabels.mem_iff.mp hlabel)
  targets_mem target htarget := by
    rw [hlabels.mem_iff, List.mem_append]
    rcases htargets target htarget with hmem | hbelow
    · exact .inl (.inl hmem)
    -- a jump out of the body goes to an own label, or further out
    · rcases h.targets_mem target hbelow with hmem | houter
      · exact .inl (.inr hmem)
      · exact (hinner target houter).imp .inl id

theorem conditional (hcondition : Plain condition) (hchosen : WellPlaced first middle outer chosen)
    (hother : WellPlaced middle high outer other) (hserial : serial < first)
    (hfirst : first ≤ middle) (hmiddle : middle ≤ high) :
    WellPlaced serial high outer
      (condition ++ jumpIfZero (labelOf .conditional serial "else") ++ chosen ++
        [.jmp (labelOf .conditional serial "endif"),
          .label (labelOf .conditional serial "else")] ++ other ++
        [.label (labelOf .conditional serial "endif")]) := by
  refine (hchosen.append hother hfirst hmiddle).enclose
    [labelOf .conditional serial "else", labelOf .conditional serial "endif"] hserial
    (Nat.le_trans hfirst hmiddle) ?_ ?_ ?_ (fun label hlabel => .inr hlabel)
    fun target htarget => ?_
  · simp [branchLabels]
  · exact (nodup_branchLabels serial).sublist (by simp [branchLabels])
  -- the own labels stand between the branches, so their order is not that of `own`
  · apply List.perm_iff_count.mpr
    intro label
    simp [hcondition.labels_eq, jumpIfZero, Instruction.label?, List.count_cons]
    omega
  · simp only [Asm.targets_append, Asm.targets_cons, jumpIfZero, hcondition.targets_eq] at htarget ⊢
    simp only [Instruction.target?, Option.toList, Asm.targets_nil, List.mem_append, List.mem_cons,
      List.not_mem_nil] at htarget ⊢
    grind

theorem loop (hcondition : Plain condition)
    (hbody : WellPlaced first high (labelOf .loop serial "end" :: outer) body)
    (hserial : serial < first) (hfirst : first ≤ high) :
    WellPlaced serial high outer
      ([.label (labelOf .loop serial "loop")] ++ condition ++
        jumpIfZero (labelOf .loop serial "end") ++ body ++
        [.jmp (labelOf .loop serial "loop"), .label (labelOf .loop serial "end")]) := by
  refine hbody.enclose [labelOf .loop serial "loop", labelOf .loop serial "end"] hserial hfirst
    ?_ ?_ ?_ (fun label hlabel => ?_) fun target htarget => ?_
  · simp [branchLabels]
  · exact (nodup_branchLabels serial).sublist (by simp [branchLabels])
  · apply List.perm_iff_count.mpr
    intro label
    simp [hcondition.labels_eq, jumpIfZero, Instruction.label?, List.count_cons]
  · rcases List.mem_cons.mp hlabel with rfl | houter
    · exact .inl (by simp)
    · exact .inr houter
  · simp only [Asm.targets_append, Asm.targets_cons, jumpIfZero, hcondition.targets_eq] at htarget ⊢
    simp only [Instruction.target?, Option.toList, Asm.targets_nil, List.mem_append, List.mem_cons,
      List.not_mem_nil] at htarget ⊢
    grind

end Composites

end WellPlaced

/-! ## Statements -/

theorem Cursor.Precedes.exitLabel_eq {cursor next : Cursor} (h : cursor.Precedes next) :
    next.frame.exitLabel = cursor.frame.exitLabel := by
  rw [Frame.exitLabel, h.name_eq]
  rfl

mutual

/-- The labels of a statement have the numbers of the nodes made for it.  It jumps to
them, to the end of the loop around it and to the end of the function. -/
theorem Stmt.wellPlaced {exit : String} (loopEnd : Option String) : (statement : Stmt) →
    (cursor : Cursor) → cursor.frame.exitLabel = exit →
    WellPlaced cursor.serial (statement.after cursor).serial (loopEnd.toList ++ [exit])
      (statement.code loopEnd cursor)
  | .expression value, cursor, _ => .of_plain (value.plain cursor.frame)
  | .declaration declared, cursor, _ => .of_plain (declared.plain cursor.frame)
  | .block block, cursor, hexit => block.wellPlaced loopEnd cursor hexit
  | .ifElse _ condition thenBlock none, cursor, hexit => by
      have hthen := thenBlock.wellPlaced loopEnd (cursor.skip (1 + condition.size)) hexit
      have hle := (thenBlock.precedes_after (cursor.skip (1 + condition.size))).serial_le
      rw [Cursor.serial_skip] at hthen hle
      have hnone : WellPlaced (thenBlock.after (cursor.skip (1 + condition.size))).serial
          (thenBlock.after (cursor.skip (1 + condition.size))).serial (loopEnd.toList ++ [exit])
          [] := .of_plain (by simp [Plain])
      exact .conditional (condition.plain cursor.frame) hthen hnone (by omega) hle (Nat.le_refl _)
  | .ifElse _ condition thenBlock (some elseBlock), cursor, hexit => by
      have hthen := thenBlock.wellPlaced loopEnd (cursor.skip (1 + condition.size)) hexit
      have hchosen := thenBlock.precedes_after (cursor.skip (1 + condition.size))
      have helse := elseBlock.wellPlaced loopEnd
        (thenBlock.after (cursor.skip (1 + condition.size))) (hchosen.exitLabel_eq.trans hexit)
      have hle := hchosen.serial_le
      have hlast :=
        (elseBlock.precedes_after (thenBlock.after (cursor.skip (1 + condition.size)))).serial_le
      rw [Cursor.serial_skip] at hthen hle
      exact .conditional (condition.plain cursor.frame) hthen helse (by omega) hle hlast
  | .whileLoop _ condition body, cursor, hexit => by
      -- the body may jump to the end of this loop, but no longer to the end of one around it
      have hbody := body.wellPlaced (some (labelOf .loop cursor.serial "end"))
        (cursor.skip (1 + condition.size)) hexit
      have hle := (body.precedes_after (cursor.skip (1 + condition.size))).serial_le
      rw [Cursor.serial_skip] at hbody hle
      refine .loop (condition.plain cursor.frame) (hbody.outward fun label hlabel => ?_)
        (by omega) hle
      simp only [Option.toList, List.cons_append, List.nil_append, List.mem_cons] at hlabel ⊢
      exact hlabel.imp id fun h => List.mem_append_right _ (List.mem_cons.mpr h)
  | .returnValue _ value, cursor, hexit => by
      have hvalue : Plain ((value.map (·.code cursor.frame)).getD []) := by
        cases value with
        | none => simp [Plain]
        | some value => exact value.plain cursor.frame
      refine .of_labels_nil ?_ fun target htarget => ?_
      · simp [Stmt.code, returnCode, hvalue.labels_eq, Instruction.label?]
      · simp only [Stmt.code, returnCode, Asm.targets_append, hvalue.targets_eq, hexit,
          Asm.targets_cons, Instruction.target?, Asm.targets_nil, Option.toList, List.append_nil,
          List.nil_append, List.mem_singleton] at htarget
        exact List.mem_append_right _ (List.mem_singleton.mpr htarget)
  | .breakLoop _, cursor, _ => by
      refine .of_labels_nil ?_ fun target htarget => ?_
      · cases loopEnd <;> rfl
      · cases loopEnd with
        | none => cases htarget
        | some label => exact List.mem_append_left _ htarget

theorem Block.wellPlaced {exit : String} (loopEnd : Option String) : (block : Block) →
    (cursor : Cursor) → cursor.frame.exitLabel = exit →
    WellPlaced cursor.serial (block.after cursor).serial (loopEnd.toList ++ [exit])
      (block.code loopEnd cursor)
  | ⟨_, statements⟩, cursor, hexit =>
      (wellPlaced_codeAll loopEnd statements (cursor.skip 1) hexit).mono (Nat.le_add_right _ _)

theorem wellPlaced_codeAll {exit : String} (loopEnd : Option String) : (statements : List Stmt) →
    (cursor : Cursor) → cursor.frame.exitLabel = exit →
    WellPlaced cursor.serial (afterAll statements cursor).serial (loopEnd.toList ++ [exit])
      (codeAll loopEnd statements cursor)
  | [], cursor, _ => .of_plain (by simp [Plain, codeAll])
  | statement :: statements, cursor, hexit => by
      have hnext := statement.precedes_after cursor
      have hlast := precedes_afterAll statements (statement.after cursor)
      exact (statement.wellPlaced loopEnd cursor hexit).append
        (wellPlaced_codeAll loopEnd statements (statement.after cursor)
          (hnext.exitLabel_eq.trans hexit))
        hnext.serial_le hlast.serial_le

end

/-! ## Functions -/

theorem le_serial_declareParameters (parameters : List Parameter) (cursor : Cursor) :
    cursor.serial ≤ (declareParameters parameters cursor).serial := by
  unfold declareParameters
  induction parameters generalizing cursor with
  | nil => exact Nat.le_refl _
  | cons parameter parameters ih =>
      refine Nat.le_trans ?_ (ih (cursor.declareParameter parameter.name))
      unfold Cursor.declareParameter
      exact Nat.le_trans (Nat.le_add_right _ _) (Nat.le_add_right _ _)

theorem Frame.plain_comments (frame : Frame) : Plain frame.comments := by
  intro instruction hmem
  rcases List.mem_append.mp hmem with hparameter | hlocal
  · obtain ⟨position, hposition, rfl⟩ := List.mem_mapIdx.mp hparameter
    exact ⟨rfl, rfl⟩
  · obtain ⟨position, hposition, rfl⟩ := List.mem_mapIdx.mp hlocal
    exact ⟨rfl, rfl⟩

theorem plain_prologue (frame : Frame) : Plain (prologue frame) := by
  unfold prologue
  split <;> simp [Plain, Instruction.label?, Instruction.target?]

/-- Code in which each label is defined once and each jump goes to one of them.  The
labels are those of `if`s and `while`s and one for the end. -/
structure WellLabelled (exit : String) (code : List Instruction) : Prop where
  nodup : (labels code).Nodup
  exit_mem : exit ∈ labels code
  label_cases : ∀ label ∈ labels code, label = exit ∨ ∃ serial, label ∈ branchLabels serial
  targets_mem : ∀ target ∈ targets code, target ∈ labels code

namespace FunctionDefinition

variable (definition : FunctionDefinition) (serial : Nat)

/-- The instructions of the body of a function. -/
def bodyCode : List Instruction := definition.body.code none (definition.start serial)

theorem lt_serial_start : serial < (definition.start serial).serial := by
  unfold start declareParameterList
  cases definition.parameters with
  | none => exact Nat.lt_succ_self _
  | some list =>
      have := le_serial_declareParameters list.parameters ⟨serial + 1, { name := definition.name }⟩
      exact Nat.lt_of_lt_of_le this (Nat.le_add_right _ _)

theorem exitLabel_finalFrame :
    (definition.finalFrame serial).exitLabel = definition.name ++ "_exit" := by
  rw [Frame.exitLabel, name_finalFrame]

theorem labels_code :
    labels (definition.code serial) =
      labels (definition.bodyCode serial) ++ [definition.name ++ "_exit"] := by
  simp [code, bodyCode, (plain_prologue _).labels_eq, (Frame.plain_comments _).labels_eq, epilogue,
    Instruction.label?, exitLabel_finalFrame]

theorem targets_code :
    targets (definition.code serial) = targets (definition.bodyCode serial) := by
  simp [code, bodyCode, (plain_prologue _).targets_eq, (Frame.plain_comments _).targets_eq,
    epilogue, Instruction.target?]

theorem serial_le_nextSerial : serial ≤ definition.nextSerial serial :=
  Nat.le_succ_of_le (Nat.le_trans (Nat.le_of_lt (definition.lt_serial_start serial))
    (definition.start_precedes serial).serial_le)

theorem wellPlaced_bodyCode :
    WellPlaced serial (definition.nextSerial serial) [definition.name ++ "_exit"]
      (definition.bodyCode serial) := by
  have hname : (definition.start serial).frame.exitLabel = definition.name ++ "_exit" := by
    rw [Frame.exitLabel, name_start]
  have hbody := definition.body.wellPlaced none (definition.start serial) hname
  have hlast : (definition.body.after (definition.start serial)).serial ≤
      definition.nextSerial serial := by
    rw [nextSerial, translateBody, (definition.body.translate_eq 1 none _).2]
    exact Nat.le_succ _
  exact ⟨hbody.nodup, hbody.numbered.mono (Nat.le_of_lt (definition.lt_serial_start serial)) hlast,
    hbody.targets_mem⟩

/-- The labels and jumps of a function are well formed. -/
theorem wellLabelled_code : WellLabelled (definition.name ++ "_exit") (definition.code serial) := by
  have hbody := definition.wellPlaced_bodyCode serial
  refine ⟨?_, ?_, fun label hlabel => ?_, fun target htarget => ?_⟩
  · rw [labels_code, List.nodup_append]
    refine ⟨hbody.nodup, by simp, ?_⟩
    -- whatever the function is called, the exit label ends differently
    intro label hlabel exit hexit
    obtain ⟨number, -, -, hmem⟩ := hbody.numbered label hlabel
    rw [List.mem_singleton.mp hexit]
    exact ne_exit_of_mem_branchLabels hmem definition.name
  · rw [labels_code]
    exact List.mem_append_right _ (List.mem_singleton_self _)
  · rw [labels_code, List.mem_append, List.mem_singleton] at hlabel
    apply hlabel.symm.imp id
    intro hmem
    obtain ⟨number, -, -, hnumber⟩ := hbody.numbered label hmem
    exact ⟨number, hnumber⟩
  · rw [targets_code] at htarget
    rw [labels_code, List.mem_append]
    exact hbody.targets_mem target htarget

end FunctionDefinition

end MiniC
