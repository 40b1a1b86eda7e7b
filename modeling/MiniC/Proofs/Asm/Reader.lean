import MiniC.Proofs.Asm.Words
import MiniC.Symbols.Frame

/-!
# Reading instructions back

`Instruction.ofText?` reads the text of an executable instruction.  Where the names
in the instruction are identifiers it finds the instruction again (`ofText?_text`),
but for one thing: names are written as they are, so a global that is called like a
register reads as the register (`Operand.asRead`).
-/

namespace MiniC.Asm

open Text (isIdentifier IsWord words toList_toString_of_neg toList_toString_of_nonneg)

/-! ## Registers and conditions -/

namespace Register

/-- The registers. -/
def all : List Register := [eax, ebx, ecx, edx, ebp, esp, al]

/-- The register with a name. -/
def ofText? (text : String) : Option Register := all.find? (·.text == text)

@[simp] theorem ofText?_text (register : Register) : ofText? register.text = some register := by
  cases register <;> decide

theorem text_of_ofText? {text : String} {register : Register} (h : ofText? text = some register) :
    register.text = text := by
  have hfound := List.find?_some h
  exact beq_iff_eq.mp hfound

theorem isIdentifier_text (register : Register) : isIdentifier register.text = true := by
  cases register <;> decide

theorem isWord_text (register : Register) : IsWord register.text :=
  Text.isWord_of_isIdentifier register.isIdentifier_text

end Register

namespace Condition

/-- The conditions. -/
def all : List Condition := [e, ne, l, le, g, ge]

/-- The condition with an ending. -/
def ofText? (text : String) : Option Condition := all.find? (·.text == text)

@[simp] theorem ofText?_text (condition : Condition) :
    ofText? condition.text = some condition := by
  cases condition <;> decide

end Condition

/-! ## Operands -/

namespace Operand

/-- The globals that an operand names. -/
def globals : Operand → List String
  | global name => [name]
  | _ => []

/-- What a name reads as: the register that is called so, or else the global. -/
def named (name : String) : Operand :=
  match Register.ofText? name with
  | some r => register r
  | none => global name

/-- What an operand reads as. -/
def asRead : Operand → Operand
  | global name => named name
  | operand => operand

/-- The operand with a text. -/
def ofText? (text : String) : Option Operand :=
  if isIdentifier text then some (named text)
  else
    match text.toList with
    | '[' :: 'e' :: 'b' :: 'p' :: offset =>
        (Text.int32? (String.ofList offset.dropLast)).map frame
    | _ => (Text.int32? text).map immediate

theorem named_of_ofText? {name : String} (h : Register.ofText? name = none) :
    named name = global name := by
  simp [named, h]

/-- An operand reads as itself where no global in it is called like a register. -/
theorem asRead_eq_self {operand : Operand}
    (h : ∀ name ∈ operand.globals, Register.ofText? name = none) : operand.asRead = operand := by
  cases operand with
  | global name => exact named_of_ofText? (h name List.mem_cons_self)
  | _ => rfl

/-! ### Numbers and slots -/

/-- The text of an immediate starts with a digit or a minus sign. -/
theorem head_text_immediate (value : Int32) :
    ∃ c rest, (immediate value).text.toList = c :: rest ∧ (c.isDigit = true ∨ c = '-') := by
  rcases Int.lt_or_le value.toInt 0 with hneg | hpos
  · exact ⟨_, _, toList_toString_of_neg hneg, .inr rfl⟩
  · obtain ⟨c, rest, hdigits⟩ := List.exists_cons_of_ne_nil
      (Nat.toDigits_ne_nil (n := value.toInt.natAbs) (b := 10))
    refine ⟨c, rest, ?_, .inl (Text.isDigit_head_of_digits hdigits)⟩
    rw [text, toList_toString_of_nonneg hpos, hdigits]

theorem isIdentifier_text_immediate (value : Int32) :
    isIdentifier (immediate value).text = false := by
  obtain ⟨c, rest, hlist, hdigit | rfl⟩ := head_text_immediate value
  · exact Text.isIdentifier_of_isDigit hlist hdigit
  · simp [isIdentifier, hlist]

theorem integer?_text_immediate (value : Int32) :
    Text.integer? (immediate value).text = some value.toInt := by
  rw [text]
  rcases Int.lt_or_le value.toInt 0 with hneg | hpos
  · rw [Text.integer?_of_minus (toList_toString_of_neg hneg)]
    congr 1
    omega
  · rw [Text.integer?_of_digits (toList_toString_of_nonneg hpos)]
    congr 1
    omega

theorem ofText?_immediate (value : Int32) :
    ofText? (immediate value).text = some (immediate value) := by
  have hread : Text.int32? (immediate value).text = some value :=
    Text.int32?_of_toInt (integer?_text_immediate value)
  obtain ⟨c, rest, hlist, hhead⟩ := head_text_immediate value
  -- the text starts with no bracket, so it is read as a number and not as a slot
  have hbracket : c ≠ '[' := by
    rintro rfl
    rcases hhead with h | h <;> exact absurd h (by decide)
  rw [ofText?, isIdentifier_text_immediate, if_neg Bool.false_ne_true]
  split
  · next h => exact absurd (List.cons.inj (hlist.symm.trans h)).1 hbracket
  · rw [hread]
    rfl

/-- The text of a slot, with the sign of its offset and the digits. -/
theorem toList_text_frame (offset : Int32) :
    ∃ sign : Char, (frame offset).text.toList =
        ['[', 'e', 'b', 'p', sign] ++ Nat.toDigits 10 offset.toInt.natAbs ++ [']'] ∧
      (sign = '-' ∧ offset.toInt < 0 ∨ sign = '+' ∧ 0 ≤ offset.toInt) := by
  rcases Int.lt_or_le offset.toInt 0 with hneg | hpos
  · refine ⟨'-', ?_, .inl ⟨rfl, hneg⟩⟩
    rw [text, if_pos hneg, String.toList_append, String.toList_append,
      show (toString offset.toInt.natAbs).toList = _ from Nat.toList_repr]
    rfl
  · refine ⟨'+', ?_, .inr ⟨rfl, hpos⟩⟩
    rw [text, if_neg (by omega), String.toList_append, String.toList_append,
      toList_toString_of_nonneg hpos]
    rfl

theorem isIdentifier_text_frame (offset : Int32) :
    isIdentifier (frame offset).text = false := by
  obtain ⟨sign, hlist, -⟩ := toList_text_frame offset
  rw [isIdentifier, hlist]
  rfl

theorem ofText?_frame (offset : Int32) :
    ofText? (frame offset).text = some (frame offset) := by
  obtain ⟨sign, hlist, hsign⟩ := toList_text_frame offset
  have hwritten : Text.integer?
      (String.ofList (sign :: Nat.toDigits 10 offset.toInt.natAbs)) = some offset.toInt := by
    rcases hsign with ⟨rfl, hneg⟩ | ⟨rfl, hpos⟩
    · rw [Text.integer?_of_minus String.toList_ofList]
      congr 1
      omega
    · rw [Text.integer?_of_plus String.toList_ofList]
      congr 1
      omega
  have hread := Text.int32?_of_toInt hwritten
  -- without the brackets and the register, the sign and the digits are left
  rw [ofText?, isIdentifier_text_frame, if_neg Bool.false_ne_true, hlist]
  simp only [List.cons_append, List.nil_append]
  rw [← List.cons_append, List.dropLast_concat, hread]
  rfl

/-- An operand whose globals are identifiers is read back. -/
theorem ofText?_text {operand : Operand}
    (h : ∀ name ∈ operand.globals, isIdentifier name = true) :
    ofText? operand.text = some operand.asRead := by
  cases operand with
  | register r =>
      rw [text, ofText?, if_pos r.isIdentifier_text, named, Register.ofText?_text]
      rfl
  | immediate value => exact ofText?_immediate value
  | frame offset => exact ofText?_frame offset
  | global name => exact if_pos (h name List.mem_cons_self)

theorem isGap_of_isDigit {c : Char} (h : c.isDigit = true) : Text.isGap c = false :=
  Text.isGap_of_isIdentifierPart (by simp [Char.isAlphanum, h])

theorem isGap_of_mem_toDigits {c : Char} {n : Nat} (h : c ∈ Nat.toDigits 10 n) :
    Text.isGap c = false :=
  isGap_of_isDigit (Nat.isDigit_of_mem_toDigits (by decide) (by decide) h)

/-- The text of an operand is one word. -/
theorem isWord_text {operand : Operand}
    (h : ∀ name ∈ operand.globals, isIdentifier name = true) : IsWord operand.text := by
  cases operand with
  | register r => exact r.isWord_text
  | immediate value =>
      intro c hc
      rw [text] at hc
      rcases Int.lt_or_le value.toInt 0 with hneg | hpos
      · rw [toList_toString_of_neg hneg, List.mem_cons] at hc
        rcases hc with rfl | hc
        · rfl
        · exact isGap_of_mem_toDigits hc
      · rw [toList_toString_of_nonneg hpos] at hc
        exact isGap_of_mem_toDigits hc
  | frame offset =>
      intro c hc
      obtain ⟨sign, hlist, hsign⟩ := toList_text_frame offset
      rw [hlist, List.mem_append, List.mem_append] at hc
      rcases hc with (hc | hc) | hc
      · simp only [List.mem_cons, List.not_mem_nil, or_false] at hc
        rcases hc with rfl | rfl | rfl | rfl | rfl
        any_goals rfl
        rcases hsign with ⟨rfl, -⟩ | ⟨rfl, -⟩ <;> rfl
      · exact isGap_of_mem_toDigits hc
      · rw [List.mem_singleton.mp hc]
        rfl
  | global name => exact Text.isWord_of_isIdentifier (h name List.mem_cons_self)

end Operand

/-! ## Instructions -/

namespace Instruction

/-- Whether an instruction is executed: it is no comment and no directive. -/
def isExecutable : Instruction → Bool
  | comment _ | proc _ | endp _ | dword _ _ | proto _ _ | directive _ | fileEnd _ => false
  | _ => true

/-- The globals among the operands of an instruction. -/
def globals : Instruction → List String
  | mov target source => target.globals ++ source.globals
  | cmp left right => left.globals ++ right.globals
  | push source | add _ source | sub _ source => source.globals
  | _ => []

/-- The label or the callee of an instruction. -/
def name? : Instruction → Option String
  | jmp name | jcc _ name | call name | label name => some name
  | _ => none

/-- An executable instruction whose labels, callees and globals are identifiers. -/
structure IsPlain (instruction : Instruction) : Prop where
  executable : instruction.isExecutable = true
  names : ∀ name ∈ instruction.globals ++ instruction.name?.toList, isIdentifier name = true

/-- What an instruction reads as. -/
def asRead : Instruction → Instruction
  | mov target source => mov target.asRead source.asRead
  | push source => push source.asRead
  | add target source => add target source.asRead
  | sub target source => sub target source.asRead
  | cmp left right => cmp left.asRead right.asRead
  | instruction => instruction

/-- The instruction of one word: a label, or one without operands. -/
def ofWord? (word : String) : Option Instruction :=
  match word with
  | "cdq" => some cdq
  | "ret" => some ret
  | word =>
      if word.toList.getLast? = some ':' then some (label (String.ofList word.toList.dropLast))
      else none

/-- The instruction with a mnemonic and an operand. -/
def unary? (mnemonic operand : String) : Option Instruction :=
  match mnemonic with
  | "push" => (Operand.ofText? operand).map push
  | "pop" => (Register.ofText? operand).map pop
  | "idiv" => (Register.ofText? operand).map idiv
  | "neg" => (Register.ofText? operand).map neg
  | "not" => (Register.ofText? operand).map not
  | "jmp" => some (jmp operand)
  | "call" => some (call operand)
  | mnemonic =>
      match mnemonic.toList with
      | 's' :: 'e' :: 't' :: condition => do
          return set (← Condition.ofText? (String.ofList condition)) (← Register.ofText? operand)
      | 'j' :: condition => do
          return jcc (← Condition.ofText? (String.ofList condition)) operand
      | _ => none

/-- The instruction with a mnemonic and two operands. -/
def binary? (mnemonic left right : String) : Option Instruction :=
  match mnemonic with
  | "mov" => do return mov (← Operand.ofText? left) (← Operand.ofText? right)
  | "movzx" => do return movzx (← Register.ofText? left) (← Register.ofText? right)
  | "add" => do return add (← Register.ofText? left) (← Operand.ofText? right)
  | "sub" => do return sub (← Register.ofText? left) (← Operand.ofText? right)
  | "imul" => do return imul (← Register.ofText? left) (← Register.ofText? right)
  | "and" => do return and (← Register.ofText? left) (← Register.ofText? right)
  | "or" => do return or (← Register.ofText? left) (← Register.ofText? right)
  | "cmp" => do return cmp (← Operand.ofText? left) (← Operand.ofText? right)
  | _ => none

/-- The executable instruction with a text. -/
def ofText? (text : String) : Option Instruction :=
  match words text with
  | [word] => ofWord? (String.ofList word)
  | [mnemonic, operand] => unary? (String.ofList mnemonic) (String.ofList operand)
  | [mnemonic, left, [], right] =>
      binary? (String.ofList mnemonic) (String.ofList left) (String.ofList right)
  | _ => none

theorem ofText?_of_isWord {text : String} (h : IsWord text) : ofText? text = ofWord? text := by
  rw [ofText?, Text.words_of_isWord h]
  exact congrArg ofWord? String.ofList_toList

theorem ofText?_unary (front mnemonic : String) {operand : String}
    (hfront : front = mnemonic ++ " ") (hmnemonic : IsWord mnemonic) (hoperand : IsWord operand) :
    ofText? (front ++ operand) = unary? mnemonic operand := by
  rw [ofText?, Text.words_unary hfront hmnemonic hoperand]
  simp only [String.ofList_toList]

theorem ofText?_binary (front mnemonic : String) {left right : String}
    (hfront : front = mnemonic ++ " ") (hmnemonic : IsWord mnemonic) (hleft : IsWord left)
    (hright : IsWord right) :
    ofText? (front ++ left ++ ", " ++ right) = binary? mnemonic left right := by
  rw [ofText?, Text.words_binary hfront hmnemonic hleft hright]
  simp only [String.ofList_toList]

theorem isWord_text_label {name : String} (h : isIdentifier name = true) :
    IsWord (label name).text := by
  intro c hc
  rw [text, String.toList_append, List.mem_append] at hc
  rcases hc with hc | hc
  · exact Text.isWord_of_isIdentifier h c hc
  · rw [List.mem_singleton.mp hc]
    rfl

/-- A label is read back, since a name with a colon is no mnemonic. -/
theorem ofText?_label {name : String} (h : isIdentifier name = true) :
    ofText? (label name).text = some (label name) := by
  have hlast : (label name).text.toList.getLast? = some ':' := by simp [text]
  have hmnemonic : (label name).text ≠ "cdq" ∧ (label name).text ≠ "ret" := by
    constructor <;> intro heq <;> rw [heq] at hlast <;> exact absurd hlast (by decide)
  rw [ofText?_of_isWord (isWord_text_label h)]
  unfold ofWord?
  split
  · next heq => exact absurd heq hmnemonic.1
  · next heq => exact absurd heq hmnemonic.2
  · rw [if_pos hlast]
    simp [text]

theorem unary?_set (condition : Condition) (target : Register) :
    unary? ("set" ++ condition.text) target.text = some (set condition target) := by
  cases condition <;> simp [unary?, Condition.text] <;> rfl

theorem unary?_jcc (condition : Condition) (operand : String) :
    unary? ("j" ++ condition.text) operand = some (jcc condition operand) := by
  cases condition <;> simp [unary?, Condition.text] <;> rfl

/-- A plain instruction is read back, but for the names that read as registers. -/
theorem ofText?_text {instruction : Instruction} (h : instruction.IsPlain) :
    ofText? instruction.text = some instruction.asRead := by
  have hglobals : ∀ name ∈ instruction.globals, isIdentifier name = true :=
    fun name hname => h.names name (List.mem_append_left _ hname)
  have hname : ∀ name ∈ instruction.name?, isIdentifier name = true :=
    fun name hsome => h.names name (List.mem_append_right _ (Option.mem_toList.mpr hsome))
  -- the names are those of variables in operands and the one an instruction holds itself;
  -- the instructions with two operands, with one and with a name are then read alike
  cases instruction with
  | mov left right =>
      have hleft : ∀ name ∈ left.globals, isIdentifier name = true := fun name hmem =>
        hglobals name (List.mem_append_left _ hmem)
      have hright : ∀ name ∈ right.globals, isIdentifier name = true := fun name hmem =>
        hglobals name (List.mem_append_right _ hmem)
      rw [text, ofText?_binary "mov " "mov" (by decide) (by decide) (Operand.isWord_text hleft)
        (Operand.isWord_text hright)]
      simp [binary?, Operand.ofText?_text hleft, Operand.ofText?_text hright, asRead]
  | cmp left right =>
      have hleft : ∀ name ∈ left.globals, isIdentifier name = true := fun name hmem =>
        hglobals name (List.mem_append_left _ hmem)
      have hright : ∀ name ∈ right.globals, isIdentifier name = true := fun name hmem =>
        hglobals name (List.mem_append_right _ hmem)
      rw [text, ofText?_binary "cmp " "cmp" (by decide) (by decide) (Operand.isWord_text hleft)
        (Operand.isWord_text hright)]
      simp [binary?, Operand.ofText?_text hleft, Operand.ofText?_text hright, asRead]
  | add target source =>
      have hsource : ∀ name ∈ source.globals, isIdentifier name = true := hglobals
      rw [text, ofText?_binary "add " "add" (by decide) (by decide) target.isWord_text
        (Operand.isWord_text hsource)]
      simp [binary?, Operand.ofText?_text hsource, asRead]
  | sub target source =>
      have hsource : ∀ name ∈ source.globals, isIdentifier name = true := hglobals
      rw [text, ofText?_binary "sub " "sub" (by decide) (by decide) target.isWord_text
        (Operand.isWord_text hsource)]
      simp [binary?, Operand.ofText?_text hsource, asRead]
  | push source =>
      have hsource : ∀ name ∈ source.globals, isIdentifier name = true := hglobals
      rw [text, ofText?_unary "push " "push" (by decide) (by decide) (Operand.isWord_text hsource)]
      simp [unary?, Operand.ofText?_text hsource, asRead]
  | movzx target source =>
      rw [text, ofText?_binary "movzx " "movzx" (by decide) (by decide) target.isWord_text
        source.isWord_text]
      simp [binary?, asRead]
  | imul target source =>
      rw [text, ofText?_binary "imul " "imul" (by decide) (by decide) target.isWord_text
        source.isWord_text]
      simp [binary?, asRead]
  | and target source =>
      rw [text, ofText?_binary "and " "and" (by decide) (by decide) target.isWord_text
        source.isWord_text]
      simp [binary?, asRead]
  | or target source =>
      rw [text, ofText?_binary "or " "or" (by decide) (by decide) target.isWord_text
        source.isWord_text]
      simp [binary?, asRead]
  | pop target =>
      rw [text, ofText?_unary "pop " "pop" (by decide) (by decide) target.isWord_text]
      simp [unary?, asRead]
  | idiv divisor =>
      rw [text, ofText?_unary "idiv " "idiv" (by decide) (by decide) divisor.isWord_text]
      simp [unary?, asRead]
  | neg target =>
      rw [text, ofText?_unary "neg " "neg" (by decide) (by decide) target.isWord_text]
      simp [unary?, asRead]
  | not target =>
      rw [text, ofText?_unary "not " "not" (by decide) (by decide) target.isWord_text]
      simp [unary?, asRead]
  | set condition target =>
      rw [text, ofText?_unary _ ("set" ++ condition.text) rfl (by cases condition <;> decide)
        target.isWord_text, unary?_set]
      rfl
  | jmp target =>
      rw [text, ofText?_unary "jmp " "jmp" (by decide) (by decide)
        (Text.isWord_of_isIdentifier (hname target rfl))]
      simp [unary?, asRead]
  | jcc condition target =>
      rw [text, ofText?_unary _ ("j" ++ condition.text) rfl (by cases condition <;> decide)
        (Text.isWord_of_isIdentifier (hname target rfl)), unary?_jcc]
      rfl
  | call callee =>
      rw [text, ofText?_unary "call " "call" (by decide) (by decide)
        (Text.isWord_of_isIdentifier (hname callee rfl))]
      simp [unary?, asRead]
  | label name => exact ofText?_label (hname name rfl)
  | cdq | ret => decide
  -- these are never run, so none of them is plain
  | comment _ | proc _ | endp _ | dword _ _ | proto _ _ | directive _ | fileEnd _ =>
      exact absurd h.executable Bool.false_ne_true

end Instruction

end MiniC.Asm
