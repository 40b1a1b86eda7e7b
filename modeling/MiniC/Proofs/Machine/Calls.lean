import MiniC.Proofs.Machine.Functions

/-!
# Calls

A call pushes the values of its arguments from the last to the first, so that the first
one is on top of the stack.  Then come the return address and the `ebp` of the caller,
which the called function saves before it makes `ebp` the top of the stack.  So the
argument with the number `i` is `8 + 4 * i` bytes above `ebp` (`Delivers`), whatever
function is called.

The code of every call stands in the code of the function that it is in
(`callCode_infix_of_mem`), and the names in its arguments are looked up in a frame that the
function has at that point.
-/

namespace MiniC

open Asm (Instruction Register)
open Codegen (dropArguments)
open Emission (jumpIfZero)

/-! ## Calls in expressions -/

mutual

/-- The calls in an expression: the names of the functions, each with the arguments. -/
def Expr.callSites : Expr → List (String × List Expr)
  | .number _ _ | .name _ _ => []
  | .binary _ _ left right => left.callSites ++ right.callSites
  | .unary _ _ operand => operand.callSites
  | .assign _ _ _ value => value.callSites
  | .call _ callee none => [(callee, [])]
  | .call _ callee (some list) => (callee, list.values) :: list.callSites

/-- The calls in a list of arguments. -/
def ArgumentList.callSites : ArgumentList → List (String × List Expr)
  | ⟨_, values⟩ => argumentCallSites values

/-- The calls in arguments. -/
def argumentCallSites : List Expr → List (String × List Expr)
  | [] => []
  | value :: values => value.callSites ++ argumentCallSites values

end

/-- The code of a call. -/
def callCode (frame : Frame) (callee : String) (values : List Expr) : List Instruction :=
  argumentCode frame values ++ [.call callee] ++ dropArguments values.length

section Code

variable {frame : Frame} {callee : String} {values : List Expr}

mutual

/-- The code of a call is part of the code of the expression that it is in. -/
theorem callCode_infix_code : (expr : Expr) → (callee, values) ∈ expr.callSites →
    callCode frame callee values <:+: expr.code frame
  | .number _ _, h | .name _ _, h => by cases h
  | .binary _ op left right, h => by
      rcases List.mem_append.mp h with hleft | hright
      · exact (callCode_infix_code left hleft).trans
          ⟨[], [.push Register.eax] ++ right.code frame ++ [.pop .ebx] ++ Codegen.binarySequence op,
            by simp [Expr.code]⟩
      · exact (callCode_infix_code right hright).trans
          ⟨left.code frame ++ [.push Register.eax], [.pop .ebx] ++ Codegen.binarySequence op,
            by simp [Expr.code]⟩
  | .unary _ op operand, h =>
      (callCode_infix_code operand h).trans (List.prefix_append _ _).isInfix
  | .assign _ _ _ value, h =>
      (callCode_infix_code value h).trans (List.prefix_append _ _).isInfix
  | .call _ _ none, h => by
      obtain ⟨rfl, rfl⟩ := Prod.mk.inj (List.mem_singleton.mp h)
      exact List.infix_refl _
  | .call _ _ (some ⟨_, arguments⟩), h => by
      -- the site is this call itself or lies in the code of an argument
      rcases List.mem_cons.mp h with hself | hinner
      · obtain ⟨rfl, rfl⟩ := Prod.mk.inj hself
        exact List.infix_refl _
      · have hlist := callCode_infix_argumentCode arguments hinner
        rw [Expr.code, List.append_assoc]
        exact hlist.trans (List.prefix_append _ _).isInfix

theorem callCode_infix_argumentCode : (arguments : List Expr) →
    (callee, values) ∈ argumentCallSites arguments →
    callCode frame callee values <:+: argumentCode frame arguments
  | [], h => by cases h
  | argument :: arguments, h => by
      rw [argumentCode]
      rcases List.mem_append.mp h with hfirst | hrest
      · rw [← List.append_assoc]
        exact (callCode_infix_code argument hfirst).trans (List.infix_append _ _ _)
      · exact (callCode_infix_argumentCode arguments hrest).trans (List.prefix_append _ _).isInfix

end

end Code

/-! ## Expressions in functions -/

/-- An expression in a frame, as a part of a piece of code that ends in another frame: its
code is part of the code, and the frame knows no more names. -/
structure PartOf (part : Frame × Expr) (code : List Instruction) (after : Frame) : Prop where
  code_inside : part.2.code part.1 <:+: code
  within : part.1.Within after

namespace PartOf

variable {part : Frame × Expr} {code : List Instruction} {after later : Frame}

/-- More code after the piece, and names that are declared later. -/
theorem followedBy (h : PartOf part code after) (hwithin : after.Within later)
    (back : List Instruction) : PartOf part (code ++ back) later where
  code_inside := h.code_inside.trans (List.prefix_append _ _).isInfix
  within := h.within.trans hwithin

theorem precededBy (h : PartOf part code after) (front : List Instruction) :
    PartOf part (front ++ code) after where
  code_inside := h.code_inside.trans (List.suffix_append _ _).isInfix
  within := h.within

end PartOf

theorem Declaration.partOf (declaration : Declaration) (cursor : Cursor) :
    ∀ part ∈ (Stmt.declaration declaration).expressions cursor.frame,
      PartOf part (declaration.code cursor.frame) (declaration.after cursor).frame := by
  intro part hpart
  unfold Declaration.code
  cases hvalue : declaration.initializer with
  | none => simp [Stmt.expressions, hvalue] at hpart
  | some value =>
      simp only [Stmt.expressions, hvalue, Option.map_some, Option.toList_some,
        List.mem_singleton] at hpart
      subst hpart
      exact ⟨(List.prefix_append _ _).isInfix, cursor.frame.within_addLocal declaration.name⟩

mutual

theorem Stmt.partOf (loopEnd : Option String) : (statement : Stmt) → (cursor : Cursor) →
    ∀ part ∈ statement.expressions cursor.frame,
      PartOf part (statement.code loopEnd cursor) (statement.after cursor).frame
  | .expression value, cursor, part, hpart => by
      obtain rfl := List.mem_singleton.mp hpart
      exact ⟨List.infix_refl _, .refl _⟩
  | .declaration declared, cursor, part, hpart => declared.partOf cursor part hpart
  | .block block, cursor, part, hpart => block.partOf loopEnd cursor part hpart
  | .ifElse _ condition thenBlock elseBlock, cursor, part, hpart => by
      let label := labelOf .conditional cursor.serial
      let inner := cursor.skip (1 + condition.size)
      have hthen : inner.frame.Within (thenBlock.after inner).frame :=
        (thenBlock.precedes_after inner).within
      -- the code up to the else part
      have hstart : ∀ part ∈ (cursor.frame, condition) :: thenBlock.expressions cursor.frame,
          PartOf part (condition.code cursor.frame ++ jumpIfZero (label "else") ++
            thenBlock.code loopEnd inner ++ [.jmp (label "endif"), .label (label "else")])
            (thenBlock.after inner).frame := by
        intro part hpart
        rcases List.mem_cons.mp hpart with rfl | hpart
        · have hcondition : PartOf (cursor.frame, condition) (condition.code cursor.frame)
              cursor.frame := ⟨List.infix_refl _, .refl _⟩
          exact ((hcondition.followedBy hthen _).followedBy (.refl _) _).followedBy (.refl _) _
        · exact ((thenBlock.partOf loopEnd inner part hpart).precededBy _).followedBy (.refl _) _
      cases elseBlock with
      | none =>
          rcases List.mem_append.mp hpart with hfirst | hnone
          · exact ((hstart part hfirst).followedBy (.refl _) []).followedBy (.refl _) _
          · cases hnone
      | some elseBlock =>
          have helse : (thenBlock.after inner).frame.Within
              (elseBlock.after (thenBlock.after inner)).frame :=
            (elseBlock.precedes_after (thenBlock.after inner)).within
          rcases List.mem_append.mp hpart with hfirst | hrest
          · exact ((hstart part hfirst).followedBy helse _).followedBy (.refl _) _
          · have hframe : (thenBlock.after inner).frame = thenBlock.frameAfter cursor.frame :=
              thenBlock.frame_after inner
            rw [← hframe] at hrest
            exact ((elseBlock.partOf loopEnd _ part hrest).precededBy _).followedBy (.refl _) _
  | .whileLoop _ condition body, cursor, part, hpart => by
      let label := labelOf .loop cursor.serial
      let inner := cursor.skip (1 + condition.size)
      have hbody : inner.frame.Within (body.after inner).frame := (body.precedes_after inner).within
      rcases List.mem_cons.mp hpart with rfl | hpart
      · have hcondition : PartOf (cursor.frame, condition) (condition.code cursor.frame)
            cursor.frame := ⟨List.infix_refl _, .refl _⟩
        exact (((hcondition.precededBy [.label (label "loop")]).followedBy hbody
          (jumpIfZero (label "end"))).followedBy (.refl _) _).followedBy (.refl _) _
      · exact
          ((body.partOf (some (label "end")) inner part hpart).precededBy _).followedBy (.refl _) _
  | .returnValue _ none, cursor, part, hpart => by cases hpart
  | .returnValue _ (some value), cursor, part, hpart => by
      obtain rfl := List.mem_singleton.mp hpart
      exact ⟨(List.prefix_append _ _).isInfix, .refl _⟩
  | .breakLoop _, cursor, part, hpart => by cases hpart

theorem Block.partOf (loopEnd : Option String) : (block : Block) → (cursor : Cursor) →
    ∀ part ∈ block.expressions cursor.frame,
      PartOf part (block.code loopEnd cursor) (block.after cursor).frame
  | ⟨_, statements⟩, cursor, part, hpart =>
    partOf_codeAll loopEnd statements (cursor.skip 1) part hpart

theorem partOf_codeAll (loopEnd : Option String) : (statements : List Stmt) → (cursor : Cursor) →
    ∀ part ∈ expressionsIn statements cursor.frame,
      PartOf part (codeAll loopEnd statements cursor) (afterAll statements cursor).frame
  | [], cursor, part, hpart => by cases hpart
  | statement :: statements, cursor, part, hpart => by
      rcases List.mem_append.mp hpart with hfirst | hrest
      · exact (statement.partOf loopEnd cursor part hfirst).followedBy
          (precedes_afterAll statements _).within _
      · rw [← statement.frame_after] at hrest
        exact (partOf_codeAll loopEnd statements _ part hrest).precededBy _

end

namespace FunctionDefinition

variable (definition : FunctionDefinition) (serial : Nat)

theorem partOf_code : ∀ part ∈ definition.expressions,
    PartOf part (definition.code serial) definition.frame := by
  intro part hpart
  have hstart : part ∈ definition.body.expressions (definition.start serial).frame := by
    rw [frame_start]
    exact hpart
  have hbody := definition.body.partOf none (definition.start serial) part hstart
  rw [frame_after_body] at hbody
  exact ((hbody.precededBy _).followedBy (.refl _) _).followedBy (.refl _) _

/-- The calls in a function: for each the frame that names are looked up in, the function that is
called and the arguments. -/
def callSites : List (Frame × String × List Expr) :=
  definition.expressions.flatMap fun (frame, expr) => expr.callSites.map (frame, ·)

/-- A call is part of an expression of the function. -/
theorem exists_expression_of_mem {frame : Frame} {callee : String} {values : List Expr}
    (h : (frame, callee, values) ∈ definition.callSites) :
    ∃ expr, (frame, expr) ∈ definition.expressions ∧ (callee, values) ∈ expr.callSites := by
  obtain ⟨part, hpart, hsite⟩ := List.mem_flatMap.mp h
  obtain ⟨site, hmem, heq⟩ := List.mem_map.mp hsite
  obtain ⟨rfl, rfl⟩ := Prod.mk.inj heq
  exact ⟨part.2, hpart, hmem⟩

/-- The code of each call is part of the code of the function. -/
theorem callCode_infix_of_mem {frame : Frame} {callee : String} {values : List Expr}
    (h : (frame, callee, values) ∈ definition.callSites) :
    callCode frame callee values <:+: definition.code serial := by
  obtain ⟨expr, hexpr, hmem⟩ := definition.exists_expression_of_mem h
  exact (callCode_infix_code expr hmem).trans (definition.partOf_code serial _ hexpr).code_inside

/-- The names in a call are looked up in a frame that the function has at that point. -/
theorem within_of_mem_callSites {frame : Frame} {callee : String} {values : List Expr}
    (h : (frame, callee, values) ∈ definition.callSites) : frame.Within definition.frame := by
  obtain ⟨expr, hexpr, -⟩ := definition.exists_expression_of_mem h
  -- which numbers the labels have does not matter
  exact (definition.partOf_code 0 _ hexpr).within

end FunctionDefinition

namespace Machine

/-! ## Arguments in the called function -/

variable {layout : Layout} {oracle : Oracle} {frame callee : Frame} {state : State}

/-- Words that are stacked are four bytes apart. -/
theorem Layout.Stacked.load {memory : Memory} {values : List Int32} {address : Word}
    (stacked : Layout.Stacked memory address values) (index : Nat) (h : index < values.length) :
    memory.load (address + BitVec.ofNat 32 (4 * index)) = values[index].toBitVec := by
  induction values generalizing address index with
  | nil => cases h
  | cons value values ih =>
      obtain ⟨hvalue, hvalues⟩ := stacked
      cases index with
      | zero =>
          rw [show address + BitVec.ofNat 32 (4 * 0) = address from BitVec.add_zero address]
          exact hvalue
      | succ index =>
          have haddress : address + BitVec.ofNat 32 (4 * (index + 1)) =
              address + 4 + BitVec.ofNat 32 (4 * index) := by bv_omega
          rw [haddress, List.getElem_cons_succ]
          exact ih hvalues index _

/-- A word that is stored below an address leaves the words from there on as they are. -/
theorem load_store_below {memory : Memory} {address target word : Word} (hlow : 4 ≤ address.toNat)
    (hle : address.toNat ≤ target.toNat) (hend : target.toNat + 4 ≤ 4294967296) :
    (memory.store (address - 4) word).load target = memory.load target := by
  apply Memory.load_store_of_apart
  intro byte hbyte hcovers
  have hinside := toNat_of_covers hbyte hend
  have hbelow := toNat_of_covers_below hcovers hlow
  omega

/-- Values on the stack are delivered to a function with some names: called from anywhere, the
function finds each of them at its offset from `ebp` once it has set up its frame. -/
def Delivers (linkage : Linkage) (name : String) (callee : Frame) (state : State)
    (values : List Int32) : Prop :=
  ∀ returnTo : Word, ∃ start,
    executeAll linkage (opening name callee) (state.push returnTo) = .ok start ∧
      ∀ (index : Nat) (h : index < values.length),
        start.memory.load (start.ebp + BitVec.ofNat 32 (8 + 4 * index)) = values[index].toBitVec

theorem delivers_of_stacked (linkage : Linkage) (name : String) (callee : Frame)
    {values : List Int32} (stacked : Layout.Stacked state.memory state.esp values)
    (hlow : 8 ≤ state.esp.toNat) (hhigh : state.esp.toNat + 4 * values.length < 4294967296) :
    Delivers linkage name callee state values := by
  intro returnTo
  obtain ⟨start, hstart, hebp, -, hmemory, -⟩ :=
    executeAll_opening linkage name callee (state.push returnTo)
  refine ⟨start, hstart, ?_⟩
  -- the two words that are pushed lie below the arguments
  have hkept : Layout.Stacked start.memory state.esp values := by
    refine Layout.stacked_congr ?_ hhigh stacked
    intro target hfrom hto
    have hpushed : (state.esp - 4).toNat + 4 = state.esp.toNat := by bv_omega
    rw [hmemory]
    show ((state.memory.store (state.esp - 4) returnTo).store (state.esp - 4 - 4) state.ebp).load
      target = _
    rw [load_store_below (by omega) (by omega) (by omega),
      load_store_below (by omega) hfrom (by omega)]
  intro index h
  have haddress : start.ebp + BitVec.ofNat 32 (8 + 4 * index) =
      state.esp + BitVec.ofNat 32 (4 * index) := by
    rw [hebp]
    show state.esp - 4 - 4 + _ = _
    bv_omega
  rw [haddress]
  exact hkept.load index h

/-- **Arguments arrive.**  The code that pushes the arguments of a call traps where one of them has
no value, and otherwise delivers their values to the function that is called. -/
theorem delivers_of_arguments {values : List Expr}
    (covered : Covered layout oracle frame (argumentNames values) (argumentCalls values))
    {world : World} (represents : layout.Represents world state)
    (room : layout.Room (max (argumentNeed layout.reserve values) (4 * values.length + 8)) state)
    (name : String) (callee : Frame) :
    Agrees (fun answer after => answer.1.length = values.length ∧
        Delivers layout.linkage name callee after answer.1)
      (evaluateArguments oracle frame values world)
      (executeAll layout.linkage (argumentCode frame values) state) := by
  have hpushes := pushesValues_of_arguments values covered world state represents
    (room.mono (Nat.le_max_left _ _))
  apply hpushes.mono
  intro answer after pushed
  have hlength := pushed.length_eq
  have hesp := pushed.esp_eq
  have henough := room.enough
  have hbound := state.esp.isLt
  refine ⟨hlength, delivers_of_stacked layout.linkage name callee pushed.stacked ?_ ?_⟩
  · omega
  · omega

end Machine

end MiniC
