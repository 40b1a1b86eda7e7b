import MiniC.Proofs.Symbols.Slots
import MiniC.Proofs.Translation.Code

/-!
# Occurrences of names

What the body of a function does with names, in order: it reads variables, assigns to
them and declares locals (`Block.occurrences`).  The list is made from the program alone.
It is in the order of evaluation, which is the order of the source as far as
declarations go, since there are none inside of expressions.

`accesses` says what instruction each occurrence stands for.  It goes by the names of the
parameters and of the locals declared so far, and knows no frame.  The code of a body
holds these instructions and no others that address a variable
(`FunctionDefinition.variableCode_code`).
-/

namespace MiniC

open Asm (Instruction Operand Register)
open Codegen (binarySequence dropArguments unarySequence)
open Emission (epilogue jumpIfZero prologue)

/-! ## Instructions that address variables -/

namespace Asm

/-- Whether an operand is a slot of the stack or a variable of the file. -/
def Operand.isVariable : Operand → Bool
  | .frame _ | .global _ => true
  | .register _ | .immediate _ => false

/-- The operands of an instruction, apart from registers that it names on its own. -/
def Instruction.operands : Instruction → List Operand
  | .mov target source => [target, source]
  | .cmp left right => [left, right]
  | .push source | .add _ source | .sub _ source => [source]
  | _ => []

/-- Whether an instruction reads or writes a variable, or is a comment. -/
def Instruction.concernsVariables : Instruction → Bool
  | .comment _ => true
  | instruction => instruction.operands.any Operand.isVariable

end Asm

/-- The comments in code and the instructions that read or write variables. -/
def variableCode (code : List Instruction) : List Instruction :=
  code.filter Instruction.concernsVariables

@[simp] theorem variableCode_append (code more : List Instruction) :
    variableCode (code ++ more) = variableCode code ++ variableCode more :=
  List.filter_append code more

@[simp] theorem variableCode_binarySequence (op : BinaryOp) :
    variableCode (binarySequence op) = [] := by
  cases op <;> rfl

@[simp] theorem variableCode_unarySequence (op : UnaryOp) :
    variableCode (unarySequence op) = [] := by
  cases op <;> rfl

@[simp] theorem variableCode_dropArguments (count : Nat) :
    variableCode (dropArguments count) = [] := by
  cases count <;> rfl

@[simp] theorem variableCode_jumpIfZero (label : String) :
    variableCode (jumpIfZero label) = [] := rfl

/-! ## Occurrences -/

/-- What a function does with a name. -/
inductive Occurrence where
  | read (name : String)
  | assign (name : String)
  /-- A local is declared, maybe again. -/
  | declare (name : String)
  /-- The initial value is stored in the local that has been declared. -/
  | store (name : String)
deriving DecidableEq

mutual

/-- The occurrences of names in an expression. -/
def Expr.occurrences : Expr → List Occurrence
  | .number _ _ => []
  | .name _ name => [.read name]
  | .binary _ _ left right => left.occurrences ++ right.occurrences
  | .unary _ _ operand => operand.occurrences
  | .assign _ _ target value => value.occurrences ++ [.assign target]
  | .call _ _ none => []
  | .call _ _ (some list) => list.occurrences

/-- The occurrences of names in a list of arguments. -/
def ArgumentList.occurrences : ArgumentList → List Occurrence
  | ⟨_, values⟩ => argumentOccurrences values

/-- The occurrences of names in arguments, of which the last comes first. -/
def argumentOccurrences : List Expr → List Occurrence
  | [] => []
  | value :: values => argumentOccurrences values ++ value.occurrences

end

/-- The occurrences of names in a declaration. -/
def Declaration.occurrences (declaration : Declaration) : List Occurrence :=
  match declaration.initializer with
  | none => [.declare declaration.name]
  | some value =>
      value.occurrences ++ [.declare declaration.name, .store declaration.name]

mutual

/-- The occurrences of names in a statement. -/
def Stmt.occurrences : Stmt → List Occurrence
  | .expression value => value.occurrences
  | .declaration declared => declared.occurrences
  | .block block => block.occurrences
  | .ifElse _ condition thenBlock elseBlock =>
      condition.occurrences ++ thenBlock.occurrences ++
        match elseBlock with
        | none => []
        | some block => block.occurrences
  | .whileLoop _ condition body => condition.occurrences ++ body.occurrences
  | .returnValue _ none => []
  | .returnValue _ (some value) => value.occurrences
  | .breakLoop _ => []

/-- The occurrences of names in a block. -/
def Block.occurrences : Block → List Occurrence
  | ⟨_, statements⟩ => occurrencesIn statements

/-- The occurrences of names in statements. -/
def occurrencesIn : List Stmt → List Occurrence
  | [] => []
  | statement :: statements => statement.occurrences ++ occurrencesIn statements

end

/-- The local that an occurrence declares. -/
def Occurrence.declared? : Occurrence → Option String
  | .declare name => some name
  | .read _ | .assign _ | .store _ => none

/-- The names of the locals that are declared, in order and as often as they are. -/
def declaredIn (occurrences : List Occurrence) : List String :=
  occurrences.filterMap Occurrence.declared?

@[simp] theorem declaredIn_append (occurrences more : List Occurrence) :
    declaredIn (occurrences ++ more) = declaredIn occurrences ++ declaredIn more :=
  List.filterMap_append

/-! ## What occurrences stand for -/

/-- The operand of a name where some locals have been declared before: a local hides a
parameter, and a parameter hides a variable of the file. -/
def operandOf (parameters locals : List String) (name : String) : Operand :=
  if name ∈ locals then .frame (.ofInt (-4 * (position locals name + 1)))
  else if name ∈ parameters then .frame (.ofInt (8 + 4 * position parameters name))
  else .global name

theorem operandOf_local {parameters locals : List String} {name : String} (h : name ∈ locals) :
    operandOf parameters locals name = .frame (Frame.localOffsetAt (position locals name)) := by
  rw [operandOf, if_pos h, Frame.localOffsetAt_eq]

theorem operandOf_parameter {parameters locals : List String} {name : String} (h : name ∉ locals)
    (hname : name ∈ parameters) : operandOf parameters locals name =
      .frame (Frame.parameterOffsetAt (position parameters name)) := by
  rw [operandOf, if_neg h, if_pos hname, Frame.parameterOffsetAt_eq]

theorem operandOf_global {parameters locals : List String} {name : String} (h : name ∉ locals)
    (hname : name ∉ parameters) : operandOf parameters locals name = .global name := by
  rw [operandOf, if_neg h, if_neg hname]

/-- The instruction that an occurrence stands for where some locals have been declared
before. -/
def Occurrence.instruction? (parameters locals : List String) : Occurrence → Option Instruction
  | .read name => some (.mov Register.eax (operandOf parameters locals name))
  | .assign name => some (.mov (operandOf parameters locals name) Register.eax)
  | .declare _ => none
  | .store name =>
      some (.mov (.frame (.ofInt (-4 * (position locals name + 1)))) Register.eax)

/-- The instructions that occurrences stand for, in order.  Each goes by the locals that
have been declared before it. -/
def accesses (parameters : List String) : List String → List Occurrence → List Instruction
  | _, [] => []
  | locals, occurrence :: occurrences =>
      (occurrence.instruction? parameters locals).toList ++
        accesses parameters (locals ++ occurrence.declared?.toList) occurrences

theorem accesses_append (parameters locals : List String) (occurrences more : List Occurrence) :
    accesses parameters locals (occurrences ++ more) =
      accesses parameters locals occurrences ++
        accesses parameters (locals ++ declaredIn occurrences) more := by
  -- the locals grow by what the first occurrences declare
  induction occurrences generalizing locals with
  | nil => simp [accesses, declaredIn]
  | cons occurrence occurrences ih =>
      have hdeclared : locals ++ occurrence.declared?.toList ++ declaredIn occurrences =
          locals ++ declaredIn (occurrence :: occurrences) := by
        cases occurrence <;> simp [declaredIn, Occurrence.declared?, List.filterMap_cons]
      rw [List.cons_append, accesses, accesses, ih, hdeclared, List.append_assoc]

@[simp] theorem isVariable_operandOf (parameters locals : List String) (name : String) :
    (operandOf parameters locals name).isVariable = true := by
  unfold operandOf
  split
  · rfl
  · split <;> rfl

theorem Frame.Records.operand {frame : Frame} {parameters locals : List String}
    (records : frame.Records parameters locals) (name : String) :
    (frame.resolve name).operand = operandOf parameters locals name := by
  rw [records.resolve name]
  -- the frame looks among the locals first, then among the parameters, as `operandOf` does
  by_cases hlocal : name ∈ locals
  · rw [if_pos hlocal, operandOf_local hlocal]
    rfl
  · rw [if_neg hlocal]
    by_cases hparameter : name ∈ parameters
    · rw [if_pos hparameter, operandOf_parameter hlocal hparameter]
      rfl
    · rw [if_neg hparameter, operandOf_global hlocal hparameter]
      rfl

theorem Frame.Records.addLocal_operand {frame : Frame} {parameters locals : List String}
    (records : frame.Records parameters locals) (name : String) :
    (frame.addLocal name).1 = .ofInt (-4 * (position (locals ++ [name]) name + 1)) := by
  rw [records.addLocal_offset, Frame.localOffsetAt_eq]

/-! ## Expressions -/

mutual

/-- There are no declarations inside of expressions. -/
theorem Expr.declaredIn_occurrences : (expr : Expr) → declaredIn expr.occurrences = []
  | .number _ _ | .name _ _ | .call _ _ none => rfl
  | .binary _ _ left right => by
      rw [Expr.occurrences, declaredIn_append, left.declaredIn_occurrences,
        right.declaredIn_occurrences]
      rfl
  | .unary _ _ operand => operand.declaredIn_occurrences
  | .assign _ _ _ value => by
      rw [Expr.occurrences, declaredIn_append, value.declaredIn_occurrences]
      rfl
  | .call _ _ (some ⟨_, values⟩) => declaredIn_argumentOccurrences values

theorem declaredIn_argumentOccurrences :
    (values : List Expr) → declaredIn (argumentOccurrences values) = []
  | [] => rfl
  | value :: values => by
      rw [argumentOccurrences, declaredIn_append, declaredIn_argumentOccurrences values,
        value.declaredIn_occurrences]
      rfl

end

section Code

variable {frame : Frame} {parameters locals : List String}

/-- Occurrences after those in an expression go by the same locals. -/
theorem accesses_expression (expr : Expr) (more : List Occurrence) :
    accesses parameters locals (expr.occurrences ++ more) =
      accesses parameters locals expr.occurrences ++ accesses parameters locals more := by
  rw [accesses_append, expr.declaredIn_occurrences, List.append_nil]

/-- What reads a variable is kept. -/
theorem variableCode_read (name : String) :
    variableCode [.mov Register.eax (operandOf parameters locals name)] =
      accesses parameters locals [.read name] :=
  List.filter_cons_of_pos (by simp [Instruction.concernsVariables, Instruction.operands])

/-- What writes a variable is kept. -/
theorem variableCode_assign (name : String) :
    variableCode [.mov (operandOf parameters locals name) Register.eax] =
      accesses parameters locals [.assign name] :=
  List.filter_cons_of_pos (by simp [Instruction.concernsVariables, Instruction.operands])

mutual

/-- The code of an expression accesses the names that occur in it. -/
theorem Expr.variableCode_code (records : frame.Records parameters locals) : (expr : Expr) →
    variableCode (expr.code frame) = accesses parameters locals expr.occurrences
  | .number _ _ | .call _ _ none => rfl
  | .name _ name => by
      rw [Expr.code, records.operand]
      exact variableCode_read name
  | .binary _ op left right => by
      -- what moves intermediate values addresses registers and the stack only
      have hpush : variableCode [.push Register.eax] = [] := rfl
      have hpop : variableCode [.pop .ebx] = [] := rfl
      rw [Expr.occurrences, accesses_expression, ← left.variableCode_code records,
        ← right.variableCode_code records]
      simp only [Expr.code, variableCode_append, hpush, hpop, variableCode_binarySequence,
        List.append_nil]
  | .unary _ op operand => by
      rw [Expr.occurrences, ← operand.variableCode_code records]
      simp [Expr.code]
  | .assign _ _ target value => by
      rw [Expr.occurrences, accesses_expression, ← value.variableCode_code records,
        ← variableCode_assign, ← variableCode_append, ← records.operand]
      rfl
  | .call _ callee (some ⟨_, values⟩) => by
      have hcall : variableCode [.call callee] = [] := rfl
      rw [Expr.occurrences, ArgumentList.occurrences, ← variableCode_argumentCode records values]
      simp only [Expr.code, ArgumentList.code, variableCode_append, hcall,
        variableCode_dropArguments, List.append_nil]

theorem variableCode_argumentCode (records : frame.Records parameters locals) :
    (values : List Expr) →
    variableCode (argumentCode frame values) =
      accesses parameters locals (argumentOccurrences values)
  | [] => rfl
  | value :: values => by
      have hpush : variableCode [.push Register.eax] = [] := rfl
      rw [argumentOccurrences, accesses_append, declaredIn_argumentOccurrences, List.append_nil,
        ← variableCode_argumentCode records values, ← value.variableCode_code records]
      simp [argumentCode, hpush]

end

/-! ## Statements -/

/-- What the translation of a piece of a body comes to: the code accesses the names that occur
there, and the frame after it records what has been declared. -/
structure Addresses (parameters locals : List String) (occurrences : List Occurrence)
    (code : List Instruction) (after : Frame) : Prop where
  code_eq : variableCode code = accesses parameters locals occurrences
  records : after.Records parameters (locals ++ declaredIn occurrences)

namespace Addresses

variable {occurrences more : List Occurrence} {code other : List Instruction} {after later : Frame}

theorem nil (records : frame.Records parameters locals) :
    Addresses parameters locals [] [] frame where
  code_eq := rfl
  records := by
    rw [show declaredIn [] = [] from rfl, List.append_nil]
    exact records

theorem expression (records : frame.Records parameters locals) (expr : Expr) :
    Addresses parameters locals expr.occurrences (expr.code frame) frame where
  code_eq := expr.variableCode_code records
  records := by
    rw [expr.declaredIn_occurrences, List.append_nil]
    exact records

theorem append (h : Addresses parameters locals occurrences code after)
    (hmore : Addresses parameters (locals ++ declaredIn occurrences) more other later) :
    Addresses parameters locals (occurrences ++ more) (code ++ other) later where
  code_eq := by rw [accesses_append, variableCode_append, h.code_eq, hmore.code_eq]
  records := by
    rw [declaredIn_append, ← List.append_assoc]
    exact hmore.records

/-- What addresses no variables may follow. -/
theorem followedBy (h : Addresses parameters locals occurrences code after)
    (other : List Instruction) (hother : variableCode other = []) :
    Addresses parameters locals occurrences (code ++ other) after where
  code_eq := by rw [variableCode_append, hother, List.append_nil, h.code_eq]
  records := h.records

/-- What addresses no variables may stand before. -/
theorem precededBy (h : Addresses parameters locals occurrences code after)
    (other : List Instruction) (hother : variableCode other = []) :
    Addresses parameters locals occurrences (other ++ code) after where
  code_eq := by rw [variableCode_append, hother, List.nil_append, h.code_eq]
  records := h.records

end Addresses

theorem Declaration.addresses (declaration : Declaration) {cursor : Cursor}
    (records : cursor.frame.Records parameters locals) :
    Addresses parameters locals declaration.occurrences (declaration.code cursor.frame)
      (declaration.after cursor).frame := by
  have hrecords := records.addLocal declaration.name
  unfold Declaration.occurrences Declaration.code Declaration.after
  cases declaration.initializer with
  | none => exact ⟨rfl, hrecords⟩
  | some value =>
      -- the value is computed before the name is declared, and stored after
      have hstore : Addresses parameters (locals ++ declaredIn value.occurrences)
          [.declare declaration.name, .store declaration.name]
          [.mov (.frame (cursor.frame.addLocal declaration.name).1) Register.eax]
          (cursor.frame.addLocal declaration.name).2.2 := by
        rw [value.declaredIn_occurrences, List.append_nil, records.addLocal_operand]
        exact ⟨rfl, hrecords⟩
      exact (Addresses.expression records value).append hstore

mutual

/-- The code of a statement accesses the names that occur in it. -/
theorem Stmt.addresses (loopEnd : Option String) : (statement : Stmt) → {locals : List String} →
    {cursor : Cursor} → cursor.frame.Records parameters locals →
    Addresses parameters locals statement.occurrences (statement.code loopEnd cursor)
      (statement.after cursor).frame
  | .expression value, _, _, records => .expression records value
  | .declaration declared, _, _, records => declared.addresses records
  | .block block, _, _, records => block.addresses loopEnd records
  | .ifElse _ condition thenBlock elseBlock, locals, cursor, records => by
      let label := labelOf .conditional cursor.serial
      have hcondition := (Addresses.expression records condition).followedBy
        (jumpIfZero (label "else")) (variableCode_jumpIfZero _)
      have hinner : (cursor.skip (1 + condition.size)).frame.Records parameters
          (locals ++ declaredIn condition.occurrences) := hcondition.records
      -- each part starts from the names that the parts before it have declared
      have hthen := hcondition.append (thenBlock.addresses loopEnd hinner)
      have hjump := hthen.followedBy [.jmp (label "endif"), .label (label "else")] rfl
      cases elseBlock with
      | none => exact (hjump.append (.nil hthen.records)).followedBy [.label (label "endif")] rfl
      | some elseBlock =>
          have helse := elseBlock.addresses loopEnd hthen.records
          exact (hjump.append helse).followedBy [.label (label "endif")] rfl
  | .whileLoop _ condition body, locals, cursor, records => by
      let label := labelOf .loop cursor.serial
      have hcondition := ((Addresses.expression records condition).precededBy
        [.label (label "loop")] rfl).followedBy (jumpIfZero (label "end"))
          (variableCode_jumpIfZero _)
      have hinner : (cursor.skip (1 + condition.size)).frame.Records parameters
          (locals ++ declaredIn condition.occurrences) := hcondition.records
      have hbody := hcondition.append (body.addresses (some (label "end")) hinner)
      exact hbody.followedBy [.jmp (label "loop"), .label (label "end")] rfl
  | .returnValue _ none, _, _, records => (Addresses.nil records).followedBy _ rfl
  | .returnValue _ (some value), _, _, records =>
      (Addresses.expression records value).followedBy _ rfl
  | .breakLoop _, _, _, records => by
      have hjump : variableCode (loopEnd.map Instruction.jmp).toList = [] := by
        cases loopEnd <;> rfl
      exact (Addresses.nil records).followedBy _ hjump

/-- The code of a block accesses the names that occur in it. -/
theorem Block.addresses (loopEnd : Option String) : (block : Block) → {locals : List String} →
    {cursor : Cursor} → cursor.frame.Records parameters locals →
    Addresses parameters locals block.occurrences (block.code loopEnd cursor)
      (block.after cursor).frame
  | ⟨_, statements⟩, _, _, records => addresses_codeAll loopEnd statements records

theorem addresses_codeAll (loopEnd : Option String) : (statements : List Stmt) →
    {locals : List String} → {cursor : Cursor} → cursor.frame.Records parameters locals →
    Addresses parameters locals (occurrencesIn statements) (codeAll loopEnd statements cursor)
      (afterAll statements cursor).frame
  | [], _, _, records => .nil records
  | statement :: statements, _, _, records =>
      have hfirst := statement.addresses loopEnd records
      hfirst.append (addresses_codeAll loopEnd statements hfirst.records)

end

end Code

/-! ## Functions -/

namespace FunctionDefinition

variable (definition : FunctionDefinition) (serial : Nat)

/-- The names of the parameters of a function, repetitions included. -/
def parameterNames : List String :=
  ((definition.parameters.map (·.parameters)).getD []).map (·.name)

/-- The names of the locals of a function, as often as they are declared. -/
def localNames : List String := declaredIn definition.body.occurrences

/-- The different names of a function. -/
def names : Frame :=
  { name := definition.name
    parameters := definition.parameterNames.eraseDups
    locals := definition.localNames.eraseDups }

theorem records_declareParameters (parameters : List Parameter) {earlier : List String}
    {cursor : Cursor} (records : cursor.frame.Records earlier []) :
    (declareParameters parameters cursor).frame.Records
      (earlier ++ parameters.map (·.name)) [] := by
  induction parameters generalizing earlier cursor with
  | nil =>
      rw [List.map_nil, List.append_nil]
      exact records
  | cons parameter parameters ih =>
      have hmore : (cursor.declareParameter parameter.name).frame.Records
          (earlier ++ [parameter.name]) [] := records.addParameter parameter.name
      rw [List.map_cons, List.append_cons]
      exact ih hmore

theorem records_start : (definition.start serial).frame.Records definition.parameterNames [] := by
  have hempty : (Cursor.mk (serial + 1) { name := definition.name }).frame.Records [] [] :=
    Frame.records_empty definition.name
  unfold start declareParameterList parameterNames
  cases definition.parameters with
  | none => exact hempty
  | some list => exact records_declareParameters list.parameters hempty

theorem addresses_body : Addresses definition.parameterNames [] definition.body.occurrences
    (definition.body.code none (definition.start serial))
    (definition.body.after (definition.start serial)).frame :=
  definition.body.addresses none (definition.records_start serial)

/-- The frame of a function knows the different names of the function. -/
theorem finalFrame_eq_names : definition.finalFrame serial = definition.names := by
  have hname := definition.name_finalFrame serial
  have hrecords := (definition.addresses_body serial).records
  rw [← (definition.body.translate_eq 1 none (definition.start serial)).2, List.nil_append]
    at hrecords
  -- the frame after the body is the final one, which prologue and comments go by
  change (definition.finalFrame serial).Records definition.parameterNames definition.localNames
    at hrecords
  have hparameters := hrecords.parameters_eq
  have hlocals := hrecords.locals_eq
  cases hframe : definition.finalFrame serial with
  | mk name parameters locals =>
      rw [hframe] at hname hparameters hlocals
      unfold names
      rw [← hname, ← hparameters, ← hlocals]

theorem variableCode_prologue (frame : Frame) : variableCode (prologue frame) = [] := by
  unfold prologue
  split <;> rfl

theorem variableCode_comments (frame : Frame) : variableCode frame.comments = frame.comments := by
  unfold variableCode
  rw [List.filter_eq_self]
  intro instruction hinstruction
  rcases List.mem_append.mp hinstruction with hparameter | hlocal
  · obtain ⟨_, _, rfl⟩ := List.mem_mapIdx.mp hparameter
    rfl
  · obtain ⟨_, _, rfl⟩ := List.mem_mapIdx.mp hlocal
    rfl

/-- The comments on the different names of a function are its only ones, and the instructions
that address variables are those that the occurrences of names stand for. -/
theorem variableCode_code : variableCode (definition.code serial) =
    definition.names.comments ++
      accesses definition.parameterNames [] definition.body.occurrences := by
  have hproc : variableCode [.proc definition.name] = [] := rfl
  have hepilogue : variableCode (epilogue definition.names) = [] := rfl
  have hendp : variableCode [.endp definition.name] = [] := rfl
  unfold code
  rw [finalFrame_eq_names]
  simp only [variableCode_append, variableCode_prologue, variableCode_comments, hproc, hepilogue,
    hendp, (definition.addresses_body serial).code_eq, List.nil_append, List.append_nil]

end FunctionDefinition

end MiniC
