/-!
# Instructions

The registers, operands, 32-bit x86 instructions and MASM directives that make
up a generated file, and the text of each.  Every line of a generated file is
the text of one `Instruction`.
-/

namespace MiniC.Asm

/-- The registers in use.  The value of every expression is left in `eax`;
`ebx` receives the left operand of an operator, `ecx` and `edx` serve division,
`ebp` and `esp` address the stack, and `al` is the low byte of `eax`. -/
inductive Register where
  | eax | ebx | ecx | edx | ebp | esp | al
deriving DecidableEq, Repr

namespace Register

/-- The name of a register. -/
def text : Register → String
  | eax => "eax"
  | ebx => "ebx"
  | ecx => "ecx"
  | edx => "edx"
  | ebp => "ebp"
  | esp => "esp"
  | al => "al"

end Register

/-- What an instruction reads or writes. -/
inductive Operand where
  | register (register : Register)
  | immediate (value : Int32)
  /-- The stack slot at a distance in bytes from `ebp`. -/
  | frame (offset : Int32)
  /-- The variable of the data section with a name. -/
  | global (name : String)
deriving DecidableEq

namespace Operand

instance : Coe Register Operand := ⟨register⟩

/-- The text of an operand. -/
def text : Operand → String
  | register r => r.text
  | immediate value => toString value.toInt
  | frame offset =>
      if offset.toInt < 0 then "[ebp-" ++ toString offset.toInt.natAbs ++ "]"
      else "[ebp+" ++ toString offset.toInt ++ "]"
  | global name => name

end Operand

/-- The outcome of a comparison that `set` and a conditional jump test. -/
inductive Condition where
  | e | ne | l | le | g | ge
deriving DecidableEq, Repr

namespace Condition

/-- The ending that a condition adds to a mnemonic. -/
def text : Condition → String
  | e => "e"
  | ne => "ne"
  | l => "l"
  | le => "le"
  | g => "g"
  | ge => "ge"

end Condition

/-- An instruction, a label, a comment or a directive. -/
inductive Instruction where
  | mov (target source : Operand)
  | movzx (target source : Register)
  | push (source : Operand)
  | pop (target : Register)
  | add (target : Register) (source : Operand)
  | sub (target : Register) (source : Operand)
  | imul (target source : Register)
  /-- Divides `edx:eax`; the quotient goes to `eax`. -/
  | idiv (divisor : Register)
  /-- Extends the sign of `eax` into `edx`. -/
  | cdq
  | neg (target : Register)
  | and (target source : Register)
  | or (target source : Register)
  | not (target : Register)
  | cmp (left right : Operand)
  /-- Sets a byte to one if a condition holds and to zero otherwise. -/
  | set (condition : Condition) (target : Register)
  | jmp (target : String)
  /-- Jumps if a condition holds. -/
  | jcc (condition : Condition) (target : String)
  | call (name : String)
  | ret
  | label (name : String)
  | comment (text : String)
  | proc (name : String)
  | endp (name : String)
  /-- A variable of the data section; without a value it is not initialised. -/
  | dword (name : String) (value : Option Int32)
  /-- The prototype of a function of so many words. -/
  | proto (name : String) (arity : Nat)
  /-- A directive, or any other text that stands in the file as it is. -/
  | directive (text : String)
  /-- The end of the file, which names the procedure to start with. -/
  | fileEnd (entry : String)
deriving DecidableEq

namespace Instruction

/-- The text of an instruction. -/
def text : Instruction → String
  | mov target source => "mov " ++ target.text ++ ", " ++ source.text
  | movzx target source => "movzx " ++ target.text ++ ", " ++ source.text
  | push source => "push " ++ source.text
  | pop target => "pop " ++ target.text
  | add target source => "add " ++ target.text ++ ", " ++ source.text
  | sub target source => "sub " ++ target.text ++ ", " ++ source.text
  | imul target source => "imul " ++ target.text ++ ", " ++ source.text
  | idiv divisor => "idiv " ++ divisor.text
  | cdq => "cdq"
  | neg target => "neg " ++ target.text
  | and target source => "and " ++ target.text ++ ", " ++ source.text
  | or target source => "or " ++ target.text ++ ", " ++ source.text
  | not target => "not " ++ target.text
  | cmp left right => "cmp " ++ left.text ++ ", " ++ right.text
  | set condition target => "set" ++ condition.text ++ " " ++ target.text
  | jmp target => "jmp " ++ target
  | jcc condition target => "j" ++ condition.text ++ " " ++ target
  | call name => "call " ++ name
  | ret => "ret"
  | label name => name ++ ":"
  | comment text => "; " ++ text
  | proc name => name ++ " PROC"
  | endp name => name ++ " ENDP"
  | dword name (some value) => name ++ " DWORD " ++ toString value.toInt
  | dword name none => name ++ " DWORD ?"
  | proto name 0 => name ++ " PROTO"
  | proto name arity => name ++ " PROTO " ++ ", ".intercalate (List.replicate arity ":DWORD")
  | directive text => text
  | fileEnd entry => "END " ++ entry

end Instruction

end MiniC.Asm
