import MiniC.Proofs.Machine.Layout
import MiniC.Proofs.Machine.Operators
import MiniC.Proofs.Translation.Expression

/-!
# Expressions on the machine

The code of an expression, run where the values of a world are in their places,
leaves the value of the expression in `eax`, the stack as it was and the values
of the world after the expression in the places (`computes_of_expression`).  It
traps where the expression has no value.

The induction is on the expression.  While a right operand is computed, the left
one is a word on the stack; it is kept because code writes only below the top of
the stack and in the places (`Layout.Keeps`).
-/

namespace MiniC

/-! ## The stack that an expression needs -/

section Need

variable (reserve : Nat)

mutual

/-- The bytes of the stack that the code of an expression needs, if each called
function needs `reserve`. -/
def Expr.need : Expr → Nat
  | .number _ _ | .name _ _ => 0
  | .binary _ _ left right => max left.need (4 + right.need)
  | .unary _ _ operand => operand.need
  | .assign _ _ _ value => value.need
  | .call _ _ none => reserve
  | .call _ _ (some list) => max list.need (4 * list.values.length + reserve)

/-- The bytes of the stack that a list of arguments needs. -/
def ArgumentList.need : ArgumentList → Nat
  | ⟨_, values⟩ => argumentNeed values

/-- The bytes of the stack that arguments need. -/
def argumentNeed : List Expr → Nat
  | [] => 0
  | argument :: arguments =>
      max (argumentNeed arguments) (4 * arguments.length + max 4 argument.need)

end

end Need

namespace Machine

open Asm (Instruction Register)
open Codegen (binarySequence dropArguments unarySequence)

variable {layout : Layout} {oracle : Oracle} {frame : Frame}

/-! ## What is taken off the stack -/

theorem takenOff_unarySequence (op : UnaryOp) : takenOff (unarySequence op) = 0 := by
  cases op <;> rfl

theorem takenOff_binarySequence (op : BinaryOp) : takenOff (binarySequence op) = 0 := by
  cases op <;> rfl

/-- The arguments of a call can be told from the instruction after it, as far as there is
room for them on a stack. -/
theorem takenOff_dropArguments {count : Nat} (h : 4 * count < 4294967296) :
    takenOff (dropArguments count) = count := by
  cases count with
  | zero => rfl
  | succ count =>
      show (Int32.ofNat (count + 1) * slotSize).toBitVec.toNat / 4 = count + 1
      simp [slotSize]
      omega

mutual

/-- The code of an expression begins with what it computes first, and what it takes off
the stack it has put there before. -/
theorem takenOff_code (frame : Frame) : (expr : Expr) → takenOff (expr.code frame) = 0
  | .number _ _ | .name _ _ | .call _ _ none => rfl
  | .binary _ op left right => by
      simp only [Expr.code, List.append_assoc]
      exact takenOff_append_eq_zero (takenOff_code frame left) rfl
  | .unary _ op operand =>
      takenOff_append_eq_zero (takenOff_code frame operand) (takenOff_unarySequence op)
  | .assign _ _ _ value => takenOff_append_eq_zero (takenOff_code frame value) rfl
  | .call _ _ (some ⟨_, values⟩) => by
      simp only [Expr.code, List.append_assoc]
      exact takenOff_append_eq_zero (takenOff_argumentCode frame values) rfl

theorem takenOff_argumentCode (frame : Frame) : (arguments : List Expr) →
    takenOff (argumentCode frame arguments) = 0
  | [] => rfl
  | argument :: arguments => takenOff_append_eq_zero (takenOff_argumentCode frame arguments)
      (takenOff_append_eq_zero (takenOff_code frame argument) rfl)

end

/-! ## What code computes -/

/-- What is left after a value has been computed. -/
structure Computed (layout : Layout) (before : State) (answer : Int32 × World) (after : State) :
    Prop where
  eax_eq : after.eax = answer.1.toBitVec
  esp_eq : after.esp = before.esp
  keeps : layout.Keeps before after
  represents : layout.Represents answer.2 after

/-- Code computes what a function on worlds says. -/
def Computes (layout : Layout) (code : List Instruction) (need : Nat)
    (meaning : World → Option (Int32 × World)) : Prop :=
  ∀ world state, layout.Represents world state → layout.Room need state →
    Agrees (Computed layout state) (meaning world) (executeAll layout.linkage code state)

/-- What is left after a number of arguments have been pushed. -/
structure Pushed (layout : Layout) (count : Nat) (before : State) (answer : List Int32 × World)
    (after : State) : Prop where
  length_eq : answer.1.length = count
  stacked : Layout.Stacked after.memory after.esp answer.1
  esp_eq : after.esp.toNat + 4 * count = before.esp.toNat
  keeps : layout.Keeps before after
  represents : layout.Represents answer.2 after

/-- Code pushes the values that a function on worlds says. -/
def PushesValues (layout : Layout) (code : List Instruction) (count need : Nat)
    (meaning : World → Option (List Int32 × World)) : Prop :=
  ∀ world state, layout.Represents world state → layout.Room need state →
    Agrees (Pushed layout count state) (meaning world) (executeAll layout.linkage code state)

theorem Computed.room {before after : State} {answer : Int32 × World} {need : Nat}
    (computed : Computed layout before answer after) (room : layout.Room need before) :
    layout.Room need after :=
  room.of_eq computed.esp_eq computed.keeps.ebp_eq

/-- Code that touches neither the stack nor the memory may follow. -/
theorem Computed.of_quiet {before middle after : State} {answer : Int32 × World} {value : Int32}
    (computed : Computed layout before answer middle) (quiet : Quiet middle after)
    (heax : after.eax = value.toBitVec) : Computed layout before (value, answer.2) after where
  eax_eq := heax
  esp_eq := quiet.esp_eq.trans computed.esp_eq
  keeps := computed.keeps.trans (.of_eq quiet.ebp_eq quiet.memory_eq)
    (Nat.le_of_eq (congrArg BitVec.toNat computed.esp_eq))
  represents := computed.represents.of_eq quiet.ebp_eq quiet.calls_eq quiet.memory_eq

/-! ## Pieces of code -/

theorem computes_number (value : Int32) :
    Computes layout [.mov Register.eax (.immediate value)] 0 fun world => some (value, world) :=
  fun _ _ represents _ =>
    .of_ok rfl ⟨rfl, rfl, .of_eq rfl rfl, represents.of_eq rfl rfl rfl⟩

theorem computes_name {place : Place} (howns : layout.Owns place) :
    Computes layout [.mov Register.eax place.operand] 0
      fun world => some (world.values place, world) :=
  fun _ _ represents _ =>
    .of_ok (Layout.execute_load place)
      ⟨represents.values_eq place howns, rfl, .of_eq rfl rfl, represents.of_eq rfl rfl rfl⟩

theorem computes_unary {code : List Instruction} {need : Nat}
    {meaning : World → Option (Int32 × World)} (computes : Computes layout code need meaning)
    (op : UnaryOp) :
    Computes layout (code ++ unarySequence op) need fun world => do
      let (value, world) ← meaning world
      return (op.value value, world) := by
  intro world state represents room
  rw [executeAll_append (takenOff_unarySequence op)]
  refine (computes world state represents room).bind fun answer after computed => ?_
  obtain ⟨last, hlast, heax, quiet⟩ := executeAll_unarySequence op computed.eax_eq
  exact .of_ok hlast (computed.of_quiet quiet heax)

theorem computes_assign {code : List Instruction} {need : Nat}
    {meaning : World → Option (Int32 × World)} (computes : Computes layout code need meaning)
    {place : Place} (howns : layout.Owns place) :
    Computes layout (code ++ [.mov place.operand Register.eax]) need fun world => do
      let (value, world) ← meaning world
      return (value, world.set place value) := by
  intro world state represents room
  rw [executeAll_append rfl]
  refine (computes world state represents room).bind fun answer after computed => ?_
  refine .of_ok (Layout.execute_store place) ⟨computed.eax_eq, computed.esp_eq, ?_, ?_⟩
  · exact computed.keeps.trans (.store howns _)
      (Nat.le_of_eq (congrArg BitVec.toNat computed.esp_eq))
  · exact computed.represents.store howns computed.eax_eq

/-- A word that was pushed before something else was computed is popped after it. -/
theorem Computed.pop {middle saved : State} {world : World} {answer : Int32 × World} {need : Nat}
    (represents : layout.Represents world middle) (room : layout.Room (4 + need) middle)
    (computed : Computed layout (middle.push middle.eax) answer saved) :
    ∃ popped, executeAll layout.linkage [.pop .ebx] saved = .ok popped ∧
      popped.ebx = middle.eax ∧ Computed layout middle answer popped := by
  have hpushed := Layout.toNat_esp_push room middle.eax
  have hbelow := room.below
  have hload : saved.memory.load saved.esp = middle.eax := by
    rw [computed.esp_eq, computed.keeps.load_eq (represents.push room _).fits
      (room.push middle.eax) (Nat.le_refl _) ?_, Layout.load_esp_push]
    show _ ≤ middle.ebp.toNat
    omega
  have hesp : saved.esp + 4 = middle.esp := by
    rw [computed.esp_eq]
    exact BitVec.sub_add_cancel middle.esp 4
  refine ⟨{ saved with esp := saved.esp + 4, ebx := saved.memory.load saved.esp }, rfl, hload,
    computed.eax_eq, hesp, ?_, computed.represents.of_eq rfl rfl rfl⟩
  have keeps := (Layout.Keeps.push room middle.eax).trans computed.keeps (by omega)
  exact ⟨keeps.ebp_eq, keeps.memory_eq⟩

theorem executeAll_push (linkage : Linkage) (code : List Instruction) (state : State) :
    executeAll linkage ([.push Register.eax] ++ code) state =
      executeAll linkage code (state.push state.eax) := rfl

/-- The left operand waits on the stack while the right one is computed. -/
theorem computes_binary {left right : List Instruction} {leftNeed rightNeed : Nat}
    {leftMeaning rightMeaning : World → Option (Int32 × World)}
    (hleft : Computes layout left leftNeed leftMeaning)
    (hright : Computes layout right rightNeed rightMeaning) (op : BinaryOp) :
    Computes layout
      (left ++ [.push Register.eax] ++ right ++ [.pop .ebx] ++ binarySequence op)
      (max leftNeed (4 + rightNeed)) fun world => do
        let (leftValue, world) ← leftMeaning world
        let (rightValue, world) ← rightMeaning world
        return (← op.value? leftValue rightValue, world) := by
  intro world state represents room
  simp only [List.append_assoc]
  rw [executeAll_append rfl]
  refine (hleft world state represents (room.mono (Nat.le_max_left _ _))).bind
    fun ⟨leftValue, world⟩ middle computed => ?_
  -- the saved operand takes four bytes of the room that is left for the right one
  have room : layout.Room (4 + rightNeed) middle :=
    computed.room (room.mono (Nat.le_max_right _ _))
  rw [executeAll_push, executeAll_append rfl]
  refine (hright world _ (computed.represents.push room _) (room.push _)).bind
    fun ⟨rightValue, world⟩ saved hsaved => ?_
  obtain ⟨popped, hpop, hebx, hpopped⟩ := hsaved.pop computed.represents room
  apply Agrees.after_ok (takenOff_binarySequence op) hpop
  have hwhole : Computed layout state (rightValue, world) popped :=
    ⟨hpopped.eax_eq, hpopped.esp_eq.trans computed.esp_eq,
      computed.keeps.trans hpopped.keeps (Nat.le_of_eq (congrArg BitVec.toNat computed.esp_eq)),
      hpopped.represents⟩
  exact (executeAll_binarySequence op (hebx.trans computed.eax_eq) hpopped.eax_eq).map
    fun value last ⟨heax, quiet⟩ => hwhole.of_quiet quiet heax

/-! ## Arguments and calls -/

theorem pushesValues_nil : PushesValues layout [] 0 0 fun world => some ([], world) :=
  fun _ _ represents _ => .of_ok rfl ⟨rfl, trivial, rfl, .of_eq rfl rfl, represents⟩

theorem pushesValues_cons {rest code : List Instruction} {count restNeed need : Nat}
    {restMeaning : World → Option (List Int32 × World)} {meaning : World → Option (Int32 × World)}
    (hrest : PushesValues layout rest count restNeed restMeaning)
    (hcode : Computes layout code need meaning) (htaken : takenOff code = 0) :
    PushesValues layout (rest ++ (code ++ [.push Register.eax])) (count + 1)
      (max restNeed (4 * count + max 4 need)) fun world => do
        let (values, world) ← restMeaning world
        let (value, world) ← meaning world
        return (value :: values, world) := by
  intro world state represents room
  have henough := room.enough
  have hbelow := room.below
  rw [executeAll_append (takenOff_append_eq_zero htaken rfl)]
  refine (hrest world state represents (room.mono (Nat.le_max_left _ _))).bind
    fun ⟨values, world⟩ middle pushed => ?_
  have hlength : values.length = count := pushed.length_eq
  have hesp := pushed.esp_eq
  have roomy : layout.Room (max 4 need) middle :=
    ⟨by omega, by rw [pushed.keeps.ebp_eq]; omega⟩
  rw [executeAll_append rfl]
  refine (hcode world middle pushed.represents (roomy.mono (Nat.le_max_right _ _))).bind
    fun ⟨value, world⟩ after computed => ?_
  have room : layout.Room (4 + 0) after := computed.room (roomy.mono (Nat.le_max_left _ _))
  have hafter := congrArg BitVec.toNat computed.esp_eq
  have htop := Layout.toNat_esp_push room after.eax
  have keeps := computed.keeps.trans (Layout.Keeps.push room after.eax) (Nat.le_of_eq hafter)
  refine .of_ok (executeAll_push layout.linkage [] after)
    ⟨?_, ⟨?_, ?_⟩, ?_, ?_, computed.represents.push room _⟩
  · rw [List.length_cons, hlength]
  · rw [Layout.load_esp_push, computed.eax_eq]
  -- the arguments pushed before are still there, one word further down the stack
  · have hnext : (after.push after.eax).esp + 4 = middle.esp := by
      rw [← computed.esp_eq]
      exact BitVec.sub_add_cancel after.esp 4
    rw [hnext]
    refine Layout.stacked_congr (fun target hlow hhigh => ?_) ?_ pushed.stacked
    · apply keeps.load_eq pushed.represents.fits roomy hlow
      rw [pushed.keeps.ebp_eq]
      omega
    · have := state.esp.isLt
      omega
  · omega
  · exact pushed.keeps.trans keeps (by omega)

/-- The arguments are taken off the stack. -/
theorem executeAll_dropArguments (linkage : Linkage) (count : Nat) (state : State) :
    ∃ flags, executeAll linkage (dropArguments count) state =
      .ok { state with esp := state.esp + BitVec.ofNat 32 (4 * count), flags } := by
  cases count with
  | zero => exact ⟨state.flags, by simp [dropArguments]⟩
  | succ count =>
      have hsize : (Int32.ofNat (count + 1) * slotSize).toBitVec =
          BitVec.ofNat 32 (4 * (count + 1)) := by
        simp [slotSize]
        bv_omega
      refine ⟨some (.ofSum state.esp (BitVec.ofNat 32 (4 * (count + 1)))), ?_⟩
      rw [← hsize]
      rfl

theorem computes_call {code : List Instruction} {count need : Nat} {callee : String}
    {meaning : World → Option (List Int32 × World)}
    (pushes : PushesValues layout code count need meaning)
    (follows : layout.Follows oracle callee count) :
    Computes layout (code ++ [.call callee] ++ dropArguments count)
      (max need (4 * count + layout.reserve)) fun world => do
        let (values, world) ← meaning world
        return (world.result oracle ⟨callee, values⟩, world.after oracle ⟨callee, values⟩) := by
  intro world state represents room
  have henough := room.enough
  have hbelow := room.below
  simp only [List.append_assoc]
  rw [executeAll_append rfl]
  refine (pushes world state represents (room.mono (Nat.le_max_left _ _))).bind
    fun ⟨values, world⟩ middle pushed => ?_
  have hlength : values.length = count := pushed.length_eq
  have hesp := pushed.esp_eq
  -- the instruction after the call tells how many arguments there are
  have hcall : executeAll layout.linkage ([.call callee] ++ dropArguments count) middle =
      executeAll layout.linkage (dropArguments count)
        (layout.linkage.callee callee count middle) := by
    have := state.esp.isLt
    show executeAll layout.linkage (dropArguments count)
      (layout.linkage.callee callee (takenOff (dropArguments count)) middle) = _
    rw [takenOff_dropArguments (by omega)]
  have returned := follows world middle values hlength pushed.stacked (by omega)
    pushed.represents.holdsVariables pushed.represents.calls_eq
  have represents := pushed.represents.of_returned
    (by rw [pushed.keeps.ebp_eq, hlength]; omega) returned
  rw [hcall]
  obtain ⟨flags, hdrop⟩ := executeAll_dropArguments layout.linkage count
    (layout.linkage.callee callee count middle)
  refine .of_ok hdrop ⟨?_, ?_, ⟨?_, fun byte hbyte => ?_⟩, ?_⟩
  · exact returned.eax_eq
  · show (layout.linkage.callee callee count middle).esp + _ = _
    rw [returned.esp_eq]
    bv_omega
  · exact returned.ebp_eq.trans pushed.keeps.ebp_eq
  · have hvariables : ∀ name ∈ layout.globals,
        ¬ Covers (layout.linkage.address name) byte :=
      fun name hname hcovers => hbyte (.inr ⟨.global name, hname, hcovers⟩)
    -- a byte that may not change lies below the stack or above the arguments
    have hstack : byte.toNat < layout.bottom ∨
        middle.esp.toNat + 4 * values.length ≤ byte.toNat := by
      rcases Nat.lt_or_ge byte.toNat layout.bottom with hlow | hhigh
      · exact .inl hlow
      · refine .inr (Nat.le_of_not_lt fun hlt => hbyte (.inl ⟨hhigh, ?_⟩))
        rw [hlength] at hlt
        omega
    exact (returned.memory_eq byte hstack hvariables).trans (pushed.keeps.memory_eq byte hbyte)
  · exact represents.of_eq rfl rfl rfl

/-! ## Expressions -/

variable (layout oracle frame) in
/-- An expression is about places that the layout has and about functions that
follow the oracle. -/
structure Covered (names : List String) (calls : List (String × Nat)) : Prop where
  owns : ∀ name ∈ names, layout.Owns (frame.resolve name)
  follows : ∀ call ∈ calls, layout.Follows oracle call.1 call.2

theorem Covered.append {names names' : List String} {calls calls' : List (String × Nat)} :
    Covered layout oracle frame (names ++ names') (calls ++ calls') ↔
      Covered layout oracle frame names calls ∧ Covered layout oracle frame names' calls' := by
  constructor
  · rintro ⟨owns, follows⟩
    exact ⟨⟨fun name h => owns name (List.mem_append_left _ h),
        fun call h => follows call (List.mem_append_left _ h)⟩,
      ⟨fun name h => owns name (List.mem_append_right _ h),
        fun call h => follows call (List.mem_append_right _ h)⟩⟩
  · rintro ⟨first, second⟩
    exact ⟨fun name h => (List.mem_append.mp h).elim (first.owns name) (second.owns name),
      fun call h => (List.mem_append.mp h).elim (first.follows call) (second.follows call)⟩

mutual

/-- **The code of an expression computes its value.** -/
theorem computes_of_expression : (expr : Expr) →
    Covered layout oracle frame expr.names expr.calls →
    Computes layout (expr.code frame) (expr.need layout.reserve) (expr.evaluate oracle frame)
  | .number _ value, _ => computes_number value
  | .name _ name, covered => computes_name (covered.owns name (List.mem_singleton_self name))
  | .binary _ op left right, covered => by
      obtain ⟨hleft, hright⟩ := Covered.append.mp covered
      exact computes_binary (computes_of_expression left hleft)
        (computes_of_expression right hright) op
  | .unary _ op operand, covered => computes_unary (computes_of_expression operand covered) op
  | .assign _ _ target value, covered => by
      have hvalue : Covered layout oracle frame value.names value.calls :=
        ⟨fun name h => covered.owns name (List.mem_cons_of_mem _ h), covered.follows⟩
      exact computes_assign (computes_of_expression value hvalue)
        (covered.owns target List.mem_cons_self)
  | .call _ callee none, covered => by
      have hcall := computes_call pushesValues_nil
        (covered.follows (callee, 0) (List.mem_singleton_self _))
      intro world state represents room
      exact hcall world state represents (room.mono (by simp [Expr.need]))
  | .call _ callee (some list), covered => by
      have hlist : Covered layout oracle frame list.names list.calls :=
        ⟨covered.owns, fun call h => covered.follows call (List.mem_cons_of_mem _ h)⟩
      exact computes_call (pushesValues_of_list list hlist)
        (covered.follows (callee, list.values.length) List.mem_cons_self)

theorem pushesValues_of_list : (list : ArgumentList) →
    Covered layout oracle frame list.names list.calls →
    PushesValues layout (list.code frame) list.values.length (list.need layout.reserve)
      (list.evaluate oracle frame)
  | ⟨_, values⟩, covered => pushesValues_of_arguments values covered

theorem pushesValues_of_arguments : (arguments : List Expr) →
    Covered layout oracle frame (argumentNames arguments) (argumentCalls arguments) →
    PushesValues layout (argumentCode frame arguments) arguments.length
      (argumentNeed layout.reserve arguments) (evaluateArguments oracle frame arguments)
  | [], _ => pushesValues_nil
  | argument :: arguments, covered => by
      obtain ⟨hargument, harguments⟩ := Covered.append.mp covered
      exact pushesValues_cons (pushesValues_of_arguments arguments harguments)
        (computes_of_expression argument hargument) (takenOff_code frame argument)

end

end Machine

end MiniC
