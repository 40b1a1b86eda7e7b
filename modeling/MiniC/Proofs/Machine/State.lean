import MiniC.Asm.Instruction
import MiniC.Proofs.Machine.Memory
import MiniC.Proofs.Meaning.World

/-!
# The machine

What the instructions of generated code do on a 32-bit x86 processor: a state
has the registers, the flags and the memory, and `execute` carries out one
instruction.  Flags that the processor leaves undefined are `none`.

Everything outside of the code of a function is given by its `Linkage`: the
addresses of the variables of the data section, and what a called function does
to the machine until it has returned.  A `call` does not say how many arguments
there are; that shows in the instruction after it, with which the caller takes them
off the stack again (`takenOff`).

An instruction may trap: a division by zero, or one whose quotient does not fit
in 32 bits, does so, and so does everything that is no instruction of the
processor.
-/

namespace MiniC.Machine

open Asm (Condition Instruction Operand Register)

/-- The flags that conditions test. -/
structure Flags where
  zero : Bool
  sign : Bool
  overflow : Bool
deriving DecidableEq

namespace Flags

/-- The flags after a result that cannot overflow. -/
def ofResult (result : Word) : Flags :=
  { zero := result == 0, sign := result.msb, overflow := false }

/-- The flags after an addition. -/
def ofSum (left right : Word) : Flags :=
  { ofResult (left + right) with overflow := left.saddOverflow right }

/-- The flags after a subtraction or a comparison. -/
def ofDifference (left right : Word) : Flags :=
  { ofResult (left - right) with overflow := left.ssubOverflow right }

/-- Whether a condition holds. -/
def satisfy (flags : Flags) : Condition → Bool
  | .e => flags.zero
  | .ne => !flags.zero
  | .l => flags.sign != flags.overflow
  | .le => flags.zero || flags.sign != flags.overflow
  | .g => !flags.zero && flags.sign == flags.overflow
  | .ge => flags.sign == flags.overflow

end Flags

/-- The state of the machine. -/
structure State where
  eax : Word
  ebx : Word
  ecx : Word
  edx : Word
  ebp : Word
  esp : Word
  flags : Option Flags
  memory : Memory
  /-- The calls made so far. -/
  calls : List Call

/-- What surrounds the code of a function. -/
structure Linkage where
  /-- The address of a variable of the data section. -/
  address : String → Word
  /-- The state in which a called function leaves the machine, by its name and the number
  of its arguments. -/
  callee : String → Nat → State → State

/-- Why an instruction cannot be carried out. -/
inductive Trap where
  /-- A division by zero, or a quotient of more than 32 bits. -/
  | divide
  /-- There is no such instruction, or it depends on undefined flags. -/
  | invalid
deriving DecidableEq

/-! ## Registers and operands -/

namespace State

/-- The word in a register. -/
def get (state : State) : Register → Except Trap Word
  | .eax => .ok state.eax
  | .ebx => .ok state.ebx
  | .ecx => .ok state.ecx
  | .edx => .ok state.edx
  | .ebp => .ok state.ebp
  | .esp => .ok state.esp
  | .al => .error .invalid

/-- The state with another word in a register. -/
def set (state : State) (value : Word) : Register → Except Trap State
  | .eax => .ok { state with eax := value }
  | .ebx => .ok { state with ebx := value }
  | .ecx => .ok { state with ecx := value }
  | .edx => .ok { state with edx := value }
  | .ebp => .ok { state with ebp := value }
  | .esp => .ok { state with esp := value }
  | .al => .error .invalid

/-- The word that an operand stands for. -/
def read (linkage : Linkage) (state : State) : Operand → Except Trap Word
  | .register register => state.get register
  | .immediate value => .ok value.toBitVec
  | .frame offset => .ok (state.memory.load (state.ebp + offset.toBitVec))
  | .global name => .ok (state.memory.load (linkage.address name))

/-- The state with another word where an operand stands. -/
def write (linkage : Linkage) (state : State) (value : Word) : Operand → Except Trap State
  | .register register => state.set value register
  | .immediate _ => .error .invalid
  | .frame offset =>
      .ok { state with memory := state.memory.store (state.ebp + offset.toBitVec) value }
  | .global name =>
      .ok { state with memory := state.memory.store (linkage.address name) value }

/-- The state with another word on top of the stack. -/
def push (state : State) (value : Word) : State :=
  { state with esp := state.esp - 4, memory := state.memory.store (state.esp - 4) value }

end State

/-- Whether an operand stands for a word in memory.  No instruction has two of
them. -/
def isMemory : Operand → Bool
  | .frame _ | .global _ => true
  | .register _ | .immediate _ => false

/-! ## Instructions -/

/-- Divides the 64 bits in `edx` and `eax`, and leaves the quotient, rounded
towards zero, in `eax` and the remainder in `edx`. -/
def divide (state : State) (divisor : Word) : Except Trap State :=
  let dividend := (state.edx ++ state.eax : BitVec 64).toInt
  let quotient := dividend.tdiv divisor.toInt
  if divisor = 0 ∨ quotient < -2147483648 ∨ 2147483648 ≤ quotient then .error .divide
  else
    .ok
      { state with
        eax := BitVec.ofInt 32 quotient
        edx := BitVec.ofInt 32 (dividend.tmod divisor.toInt)
        flags := none }

/-- The words that code begins by taking off the stack: after a `call`, these are the
arguments. -/
def takenOff (code : List Instruction) : Nat :=
  match code.head? with
  | some (.add .esp (.immediate bytes)) => bytes.toBitVec.toNat / 4
  | _ => 0

/-- Carries out an instruction that the next one in the code follows, which takes a
number of words off the stack.  Jumps and returns are carried out by the program that
they are in. -/
def execute (linkage : Linkage) (taken : Nat) (instruction : Instruction) (state : State) :
    Except Trap State :=
  match instruction with
  | .mov target source =>
      if isMemory target && isMemory source then .error .invalid
      else do state.write linkage (← state.read linkage source) target
  | .movzx target .al => state.set ((state.eax.setWidth 8).setWidth 32) target
  | .movzx _ _ => .error .invalid
  | .push source => do return state.push (← state.read linkage source)
  | .pop target => { state with esp := state.esp + 4 }.set (state.memory.load state.esp) target
  | .add target source => do
      let left ← state.get target
      let right ← state.read linkage source
      { state with flags := some (.ofSum left right) }.set (left + right) target
  | .sub target source => do
      let left ← state.get target
      let right ← state.read linkage source
      { state with flags := some (.ofDifference left right) }.set (left - right) target
  | .imul target source => do
      let left ← state.get target
      let right ← state.get source
      { state with flags := none }.set (left * right) target
  | .idiv divisor => do divide state (← state.get divisor)
  | .cdq => return { state with edx := if state.eax.msb then BitVec.allOnes 32 else 0 }
  | .neg target => do
      let value ← state.get target
      { state with flags := some (.ofDifference 0 value) }.set (-value) target
  | .and target source => do
      let result := (← state.get target) &&& (← state.get source)
      { state with flags := some (.ofResult result) }.set result target
  | .or target source => do
      let result := (← state.get target) ||| (← state.get source)
      { state with flags := some (.ofResult result) }.set result target
  | .not target => do state.set (~~~(← state.get target)) target
  | .cmp (.immediate _) _ => .error .invalid
  | .cmp left right =>
      if isMemory left && isMemory right then .error .invalid
      else do
        let left ← state.read linkage left
        let right ← state.read linkage right
        return { state with flags := some (.ofDifference left right) }
  | .set condition .al =>
      match state.flags with
      | some flags =>
          let low : BitVec 8 := if flags.satisfy condition then 1 else 0
          .ok { state with eax := state.eax.extractLsb' 8 24 ++ low }
      | none => .error .invalid
  | .set _ _ => .error .invalid
  | .call name => return linkage.callee name taken state
  | .label _ | .comment _ | .proc _ | .endp _ => return state
  | .jmp _ | .jcc _ _ | .ret | .dword _ _ | .proto _ _ | .directive _ | .fileEnd _ =>
      .error .invalid

/-- Carries out instructions in order. -/
def executeAll (linkage : Linkage) : List Instruction → State → Except Trap State
  | [], state => .ok state
  | instruction :: rest, state =>
      execute linkage (takenOff rest) instruction state >>= executeAll linkage rest

/-! ## Code piece by piece -/

variable {linkage : Linkage} {state after : State} {code rest : List Instruction}

@[simp] theorem executeAll_nil : executeAll linkage [] state = .ok state := rfl

@[simp] theorem executeAll_cons (instruction : Instruction) :
    executeAll linkage (instruction :: code) state =
      execute linkage (takenOff code) instruction state >>= executeAll linkage code := rfl

theorem takenOff_append (h : takenOff rest = 0) : takenOff (code ++ rest) = takenOff code := by
  cases code with
  | nil => exact h
  | cons instruction code => rfl

theorem takenOff_append_eq_zero (hcode : takenOff code = 0) (hrest : takenOff rest = 0) :
    takenOff (code ++ rest) = 0 :=
  (takenOff_append hrest).trans hcode

/-- What follows must take nothing off the stack, as this would be arguments of a call
that the code ends with. -/
theorem executeAll_append (h : takenOff rest = 0) :
    executeAll linkage (code ++ rest) state =
      executeAll linkage code state >>= executeAll linkage rest := by
  induction code generalizing state with
  | nil => rfl
  | cons instruction code ih =>
      rw [List.cons_append, executeAll_cons, executeAll_cons, takenOff_append h, bind_assoc]
      exact bind_congr fun after => ih

theorem executeAll_append_of_ok (htaken : takenOff rest = 0)
    (h : executeAll linkage code state = .ok after) :
    executeAll linkage (code ++ rest) state = executeAll linkage rest after := by
  rw [executeAll_append htaken, h]
  rfl

/-- Code that should compute something agrees with what it should compute: where
there is nothing, it traps at a division, and otherwise the state after it is
as it should be. -/
def Agrees {α : Type} (holds : α → State → Prop) (outcome : Option α)
    (result : Except Trap State) : Prop :=
  match outcome with
  | none => result = .error .divide
  | some answer => ∃ after, result = .ok after ∧ holds answer after

namespace Agrees

variable {α β : Type} {holds : α → State → Prop} {outcome : Option α} {result : Except Trap State}

theorem of_ok {answer : α} (hresult : result = .ok after) (h : holds answer after) :
    Agrees holds (some answer) result :=
  ⟨after, hresult, h⟩

/-- One computation after another. -/
theorem bind {next : α → Option β} {run : State → Except Trap State} {last : β → State → Prop}
    (agrees : Agrees holds outcome result)
    (h : ∀ answer after, holds answer after → Agrees last (next answer) (run after)) :
    Agrees last (outcome >>= next) (result >>= run) := by
  cases outcome with
  | none =>
      have hresult : result = .error .divide := agrees
      rw [hresult]
      rfl
  | some answer =>
      obtain ⟨after, rfl, hafter⟩ := agrees
      exact h answer after hafter

/-- Code that comes first and cannot trap. -/
theorem after_ok (htaken : takenOff rest = 0) (h : executeAll linkage code state = .ok after)
    (agrees : Agrees holds outcome (executeAll linkage rest after)) :
    Agrees holds outcome (executeAll linkage (code ++ rest) state) := by
  rw [executeAll_append_of_ok htaken h]
  exact agrees

/-- An answer of which something else is made. -/
theorem map {make : α → β} {last : β → State → Prop} (agrees : Agrees holds outcome result)
    (h : ∀ answer after, holds answer after → last (make answer) after) :
    Agrees last (outcome >>= fun answer => some (make answer)) result := by
  cases outcome with
  | none => exact agrees
  | some answer =>
      obtain ⟨after, hresult, hafter⟩ := agrees
      exact ⟨after, hresult, h answer after hafter⟩

theorem mono {weaker : α → State → Prop} (agrees : Agrees holds outcome result)
    (h : ∀ answer after, holds answer after → weaker answer after) :
    Agrees weaker outcome result := by
  cases outcome with
  | none => exact agrees
  | some answer =>
      obtain ⟨after, hresult, hafter⟩ := agrees
      exact ⟨after, hresult, h answer after hafter⟩

end Agrees

end MiniC.Machine
