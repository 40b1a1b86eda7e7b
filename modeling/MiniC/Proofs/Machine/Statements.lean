import MiniC.Proofs.Machine.Expressions
import MiniC.Proofs.Machine.Program
import MiniC.Proofs.Meaning.Statement
import MiniC.Proofs.Translation.Breaks

/-!
# Statements on the machine

Between two statements of a function the stack is where it was at the start of the
body, and the values of a world are in their places (`Setting.Ready`).  The code of a
statement simulates the interpreter: wherever the statement ends, the code gets
there, and while the interpreter is unfinished, so is the code
(`Setting.Simulates`).

Each construct has a lemma about arbitrary pieces of code in it, and
`realizes_of_statement` puts them together.  The induction is on the statement; for a
loop there is another one inside, on the rounds that the budget allows
(`simulates_iterate`).
-/

namespace MiniC

open Asm (Instruction Register codeAfter)
open Emission (jumpIfZero)

namespace Machine

/-! ## What is taken off the stack -/

theorem takenOff_declaration (declared : Declaration) (frame : Frame) :
    takenOff (declared.code frame) = 0 := by
  unfold Declaration.code
  split
  next => rfl
  next value _ => exact takenOff_append_eq_zero (takenOff_code frame value) rfl

mutual

/-- The code of a statement begins with that of an expression, or with a jump or a label. -/
theorem takenOff_statement (loopEnd : Option String) : (statement : Stmt) → (cursor : Cursor) →
    takenOff (statement.code loopEnd cursor) = 0
  | .expression value, cursor => takenOff_code cursor.frame value
  | .declaration declared, cursor => takenOff_declaration declared cursor.frame
  | .block block, cursor => takenOff_block loopEnd block cursor
  | .ifElse _ condition _ none, cursor | .ifElse _ condition _ (some _), cursor => by
      simp only [Stmt.code, List.append_assoc]
      exact takenOff_append_eq_zero (takenOff_code cursor.frame condition) rfl
  | .whileLoop _ _ _, _ => rfl
  | .returnValue _ none, _ => rfl
  | .returnValue _ (some value), cursor =>
      takenOff_append_eq_zero (takenOff_code cursor.frame value) rfl
  | .breakLoop _, _ => by cases loopEnd <;> rfl

theorem takenOff_block (loopEnd : Option String) : (block : Block) → (cursor : Cursor) →
    takenOff (block.code loopEnd cursor) = 0
  | ⟨_, statements⟩, cursor => takenOff_codeAll loopEnd statements (cursor.skip 1)

theorem takenOff_codeAll (loopEnd : Option String) : (statements : List Stmt) →
    (cursor : Cursor) → takenOff (codeAll loopEnd statements cursor) = 0
  | [], _ => rfl
  | statement :: statements, cursor =>
      takenOff_append_eq_zero (takenOff_statement loopEnd statement cursor)
        (takenOff_codeAll loopEnd statements _)

end

/-! ## Settings -/

/-- What stays the same while the body of a function runs. -/
structure Setting where
  layout : Layout
  /-- The code of the whole function. -/
  program : List Instruction
  /-- The state at the start of the body. -/
  start : State
  /-- The code that a `return` goes on with. -/
  exit : List Instruction

namespace Setting

section Predicates

variable (setting : Setting)

/-- A number of steps of the function. -/
def Leads (count : Nat) (first last : Configuration) : Prop :=
  Machine.Leads setting.layout.linkage setting.program count first last

/-- The state between two statements. -/
structure Ready (world : World) (state : State) : Prop where
  represents : setting.layout.Represents world state
  esp_eq : state.esp = setting.start.esp
  keeps : setting.layout.Keeps setting.start state

/-- A configuration leads to where an ending says: to the rest of the code, to the code
after the loop around, to the end of the function, or to a trap at a division.  An
unfinished run makes at least as many steps as the budget says. -/
def Simulates (loopEnd : Option (List Instruction)) (budget : Nat) (first : Configuration)
    (rest : List Instruction) : Ending → Prop
  | .normal world =>
      ∃ count state, setting.Leads count first ⟨rest, state⟩ ∧ setting.Ready world state
  | .broke world =>
      ∃ after count state, loopEnd = some after ∧ setting.Leads count first ⟨after, state⟩ ∧
        setting.Ready world state
  | .returned value world =>
      ∃ count state, setting.Leads count first ⟨setting.exit, state⟩ ∧ setting.Ready world state ∧
        ∀ result, value = some result → state.eax = result.toBitVec
  | .fault =>
      ∃ count last, setting.Leads count first last ∧
        step setting.layout.linkage setting.program last = .trapped .divide
  | .unfinished => ∃ count last, budget ≤ count ∧ setting.Leads count first last

/-- Code in front of some rest does what a function on worlds says. -/
def Realizes (loopEnd : Option (List Instruction)) (budget : Nat) (code rest : List Instruction)
    (meaning : World → Ending) : Prop :=
  ∀ world state, setting.Ready world state →
    setting.Simulates loopEnd budget ⟨code ++ rest, state⟩ rest (meaning world)

end Predicates

variable {setting : Setting} {loopEnd : Option (List Instruction)} {budget : Nat}

namespace Ready

variable {world next : World} {state after : State}

theorem room {need : Nat} (ready : setting.Ready world state)
    (room : setting.layout.Room need setting.start) : setting.layout.Room need state :=
  room.of_eq ready.esp_eq ready.keeps.ebp_eq

theorem esp_le (ready : setting.Ready world state) :
    state.esp.toNat ≤ setting.start.esp.toNat :=
  Nat.le_of_eq (congrArg BitVec.toNat ready.esp_eq)

theorem of_computed {value : Int32} (ready : setting.Ready world state)
    (computed : Computed setting.layout state (value, next) after) : setting.Ready next after where
  represents := computed.represents
  esp_eq := computed.esp_eq.trans ready.esp_eq
  keeps := ready.keeps.trans computed.keeps ready.esp_le

theorem of_quiet (ready : setting.Ready world state) (quiet : Quiet state after) :
    setting.Ready world after where
  represents := ready.represents.of_eq quiet.ebp_eq quiet.calls_eq quiet.memory_eq
  esp_eq := quiet.esp_eq.trans ready.esp_eq
  keeps := ready.keeps.trans (.of_eq quiet.ebp_eq quiet.memory_eq) ready.esp_le

/-- A value is stored in its place. -/
theorem store {place : Place} {value : Int32} (ready : setting.Ready world state)
    (howns : setting.layout.Owns place) (heax : state.eax = value.toBitVec) :
    setting.Ready (world.set place value)
      { state with
        memory := state.memory.store (setting.layout.locate state.ebp place) state.eax } where
  represents := ready.represents.store howns heax
  esp_eq := ready.esp_eq
  keeps := ready.keeps.trans (.store howns _) ready.esp_le

end Ready

/-! ## Simulations piece by piece -/

namespace Simulates

variable {first middle : Configuration} {rest code : List Instruction} {ending : Ending}
  {count less : Nat}

/-- Steps that come first count for the budget. -/
theorem of_leads (hleads : setting.Leads count first middle)
    (h : setting.Simulates loopEnd less middle rest ending) (hbudget : budget ≤ count + less) :
    setting.Simulates loopEnd budget first rest ending := by
  cases ending with
  | normal world =>
      obtain ⟨more, state, hmore, hready⟩ := h
      exact ⟨count + more, state, hleads.trans hmore, hready⟩
  | broke world =>
      obtain ⟨after, more, state, hloop, hmore, hready⟩ := h
      exact ⟨after, count + more, state, hloop, hleads.trans hmore, hready⟩
  | returned value world =>
      obtain ⟨more, state, hmore, hready, heax⟩ := h
      exact ⟨count + more, state, hleads.trans hmore, hready, heax⟩
  | fault =>
      obtain ⟨more, last, hmore, htrap⟩ := h
      exact ⟨count + more, last, hleads.trans hmore, htrap⟩
  | unfinished =>
      obtain ⟨more, last, hle, hmore⟩ := h
      exact ⟨count + more, last, by omega, hleads.trans hmore⟩

theorem after (hleads : setting.Leads count first middle)
    (h : setting.Simulates loopEnd budget middle rest ending) :
    setting.Simulates loopEnd budget first rest ending :=
  h.of_leads hleads (Nat.le_add_left _ _)

/-- What follows a normal end is simulated as well. -/
theorem andThen {next : World → Ending} (h : setting.Simulates loopEnd budget first code ending)
    (hnext : ∀ world state, setting.Ready world state →
      setting.Simulates loopEnd budget ⟨code, state⟩ rest (next world)) :
    setting.Simulates loopEnd budget first rest (ending.andThen next) := by
  cases ending with
  | normal world =>
      obtain ⟨count, state, hleads, hready⟩ := h
      exact (hnext world state hready).after hleads
  | broke | returned | fault | unfinished => exact h

/-- Steps after a normal end that change nothing. -/
theorem finish (h : setting.Simulates loopEnd budget first code ending)
    (hnext : ∀ state, setting.Leads count ⟨code, state⟩ ⟨rest, state⟩) :
    setting.Simulates loopEnd budget first rest ending := by
  cases ending with
  | normal world =>
      obtain ⟨more, state, hleads, hready⟩ := h
      exact ⟨more + count, state, hleads.trans (hnext state), hready⟩
  | broke | returned | fault | unfinished => exact h

/-- The code of an expression, and what is done with its value. -/
theorem ofValue {need : Nat} {meaning : World → Option (Int32 × World)}
    {next : Int32 → World → Ending} {after : List Instruction} {world : World} {state : State}
    (computes : Computes setting.layout code need meaning) (htaken : takenOff after = 0)
    (room : setting.layout.Room need setting.start) (ready : setting.Ready world state)
    (hnext : ∀ value world state, setting.Ready world state → state.eax = value.toBitVec →
      setting.Simulates loopEnd budget ⟨after, state⟩ rest (next value world)) :
    setting.Simulates loopEnd budget ⟨code ++ after, state⟩ rest
      (.ofValue (meaning world) next) := by
  have agrees := computes world state ready.represents (ready.room room)
  cases hvalue : meaning world with
  | none =>
      rw [hvalue] at agrees
      exact traps_of_executeAll htaken agrees
  | some answer =>
      rw [hvalue] at agrees
      obtain ⟨last, hlast, computed⟩ := agrees
      exact (hnext answer.1 answer.2 last (ready.of_computed computed) computed.eax_eq).after
        (leads_of_executeAll htaken hlast)

end Simulates

/-! ## Statements without parts -/

section Pieces

variable {code more rest : List Instruction} {need : Nat}
  {value : World → Option (Int32 × World)} {meaning next : World → Ending}

theorem realizes_nil : setting.Realizes loopEnd budget [] rest .normal :=
  fun _ state ready => ⟨0, state, .refl _, ready⟩

theorem realizes_append (h : setting.Realizes loopEnd budget code (more ++ rest) meaning)
    (hnext : setting.Realizes loopEnd budget more rest next) :
    setting.Realizes loopEnd budget (code ++ more) rest fun world =>
      (meaning world).andThen next := by
  intro world state ready
  rw [List.append_assoc]
  exact (h world state ready).andThen hnext

section Values

variable (computes : Computes setting.layout code need value)
  (room : setting.layout.Room need setting.start)
include computes room

theorem realizes_expression (htaken : takenOff rest = 0) :
    setting.Realizes loopEnd budget code rest fun world =>
      .ofValue (value world) fun _ world => .normal world :=
  fun _ _ ready => .ofValue computes htaken room ready fun _ _ state ready _ =>
    ⟨0, state, .refl _, ready⟩

/-- The initial value of a local is stored in its place. -/
theorem realizes_store (htaken : takenOff rest = 0) {place : Place}
    (howns : setting.layout.Owns place) :
    setting.Realizes loopEnd budget (code ++ [.mov place.operand Register.eax]) rest fun world =>
      .ofValue (value world) fun value world => .normal (world.set place value) := by
  intro world state ready
  rw [List.append_assoc]
  refine .ofValue computes rfl room ready ?_
  intro value world state ready heax
  exact ⟨1, _, leads_of_executeAll htaken (Layout.execute_store place), ready.store howns heax⟩

theorem realizes_return {label : String}
    (hexit : codeAfter label setting.program = some setting.exit) :
    setting.Realizes loopEnd budget (code ++ [.jmp label]) rest fun world =>
      .ofValue (value world) fun value world => .returned (some value) world := by
  intro world state ready
  rw [List.append_assoc]
  refine .ofValue computes rfl room ready ?_
  intro value world state ready heax
  refine ⟨1, state, .single (step_jmp hexit), ready, ?_⟩
  intro result hresult
  rw [← Option.some.inj hresult]
  exact heax

end Values

theorem realizes_return_none {label : String}
    (hexit : codeAfter label setting.program = some setting.exit) :
    setting.Realizes loopEnd budget [.jmp label] rest (.returned none) :=
  fun _ state ready => ⟨1, state, .single (step_jmp hexit), ready, fun _ hresult => nomatch hresult⟩

theorem realizes_break {label : String} {after : List Instruction}
    (hloop : codeAfter label setting.program = some after) :
    setting.Realizes (some after) budget [.jmp label] rest .broke :=
  fun _ state ready => ⟨after, 1, state, rfl, .single (step_jmp hloop), ready⟩

/-! ## Branches and loops -/

/-- A value of zero jumps, and any other value goes on. -/
theorem leads_jumpIfZero {label : String} {target : List Instruction} {state : State}
    {value : Int32} (hvalue : state.eax = value.toBitVec)
    (htarget : codeAfter label setting.program = some target) :
    ∃ after, setting.Leads 2 ⟨jumpIfZero label ++ rest, state⟩
        ⟨if value = 0 then target else rest, after⟩ ∧ Quiet state after := by
  let flags := Flags.ofDifference state.eax (0 : Int32).toBitVec
  have hzero : flags.satisfy .e = decide (value = 0) := by
    show (state.eax - (0 : Int32).toBitVec == 0) = _
    have hsub : state.eax - (0 : Int32).toBitVec = value.toBitVec := by
      rw [hvalue]
      exact BitVec.sub_zero _
    rw [hsub, Bool.eq_iff_iff, beq_iff_eq, decide_eq_true_iff]
    exact (Int32.toBitVec_inj : value.toBitVec = (0 : Int32).toBitVec ↔ _)
  have hcompare : execute setting.layout.linkage 0 (.cmp Register.eax (.immediate 0)) state =
      .ok { state with flags := some flags } := rfl
  have hjump : step setting.layout.linkage setting.program
      ⟨.jcc .e label :: rest, { state with flags := some flags }⟩ =
        .next ⟨if value = 0 then target else rest, { state with flags := some flags }⟩ := by
    by_cases h : value = 0 <;> simp [step, hzero, h, jumpTo, htarget]
  exact ⟨_, .step (step_of_execute hcompare) (.single hjump), rfl, rfl, rfl, rfl⟩

theorem realizes_conditional {elseLabel endLabel : String} {chosen other : List Instruction}
    {chosenMeaning otherMeaning : World → Ending}
    (computes : Computes setting.layout code need value)
    (room : setting.layout.Room need setting.start)
    (helse : codeAfter elseLabel setting.program = some (other ++ (.label endLabel :: rest)))
    (hend : codeAfter endLabel setting.program = some rest)
    (hchosen : setting.Realizes loopEnd budget chosen
      (.jmp endLabel :: .label elseLabel :: (other ++ (.label endLabel :: rest))) chosenMeaning)
    (hother : setting.Realizes loopEnd budget other (.label endLabel :: rest) otherMeaning) :
    setting.Realizes loopEnd budget
      (code ++ jumpIfZero elseLabel ++ chosen ++ [.jmp endLabel, .label elseLabel] ++ other ++
        [.label endLabel]) rest fun world =>
      .ofValue (value world) fun value world =>
        if value = 0 then otherMeaning world else chosenMeaning world := by
  intro world state ready
  simp only [List.append_assoc, List.cons_append, List.nil_append]
  refine .ofValue computes rfl room ready ?_
  intro value world state ready heax
  obtain ⟨after, hleads, hquiet⟩ := leads_jumpIfZero heax helse
  apply Simulates.after hleads
  -- without a jump the chosen block ends in one over the other block
  split
  next =>
    have hlabel (state : State) :
        setting.Leads 1 ⟨.label endLabel :: rest, state⟩ ⟨rest, state⟩ :=
      .single (step_of_execute rfl)
    exact (hother world after (ready.of_quiet hquiet)).finish hlabel
  next =>
    have hjump (state : State) : setting.Leads 1
        ⟨.jmp endLabel :: .label elseLabel :: (other ++ (.label endLabel :: rest)), state⟩
        ⟨rest, state⟩ := .single (step_jmp hend)
    exact (hchosen world after (ready.of_quiet hquiet)).finish hjump

section Loop

variable {loopLabel endLabel : String} {body : List Instruction}
  (computes : Computes setting.layout code need value)
  (room : setting.layout.Room need setting.start)
  (hagain : codeAfter loopLabel setting.program = some
    (code ++ (jumpIfZero endLabel ++ (body ++ (.jmp loopLabel :: .label endLabel :: rest)))))
  (hend : codeAfter endLabel setting.program = some rest)
  (hbody : setting.Realizes (some rest) budget body
    (.jmp loopLabel :: .label endLabel :: rest) meaning)
include computes room hagain hend hbody

/-- Each round makes at least one step. -/
theorem simulates_iterate {rounds : Nat} (hrounds : rounds ≤ budget) {world : World} {state : State}
    (ready : setting.Ready world state) :
    setting.Simulates loopEnd rounds
      ⟨code ++ (jumpIfZero endLabel ++ (body ++ (.jmp loopLabel :: .label endLabel :: rest))),
        state⟩
      rest (.iterate value meaning rounds world) := by
  induction rounds generalizing world state with
  | zero => exact ⟨0, _, Nat.le_refl _, .refl _⟩
  | succ rounds ih =>
      refine .ofValue computes rfl room ready ?_
      intro value world state ready heax
      obtain ⟨after, hleads, hquiet⟩ := leads_jumpIfZero heax hend
      apply Simulates.after hleads
      have ready := ready.of_quiet hquiet
      split
      next => exact ⟨0, after, .refl _, ready⟩
      next =>
        -- the next rounds follow only if the body ends in the normal way
        have hround := hbody world after ready
        cases hending : meaning world with
        | normal world =>
            rw [hending] at hround
            obtain ⟨count, state, hleads, ready⟩ := hround
            -- the jump back is the step that the round adds to the count
            have hjump := hleads.trans (.single (step_jmp hagain))
            exact (ih (Nat.le_of_succ_le hrounds) ready).of_leads hjump (by omega)
        | broke world =>
            rw [hending] at hround
            obtain ⟨found, count, state, hfound, hleads, ready⟩ := hround
            obtain rfl := Option.some.inj hfound
            exact ⟨count, state, hleads, ready⟩
        | returned value world =>
            rw [hending] at hround
            exact hround
        | fault =>
            rw [hending] at hround
            exact hround
        | unfinished =>
            rw [hending] at hround
            obtain ⟨count, last, hle, hleads⟩ := hround
            exact ⟨count, last, Nat.le_trans hrounds hle, hleads⟩

theorem realizes_loop :
    setting.Realizes loopEnd budget
      ([.label loopLabel] ++ code ++ jumpIfZero endLabel ++ body ++
        [.jmp loopLabel, .label endLabel]) rest (.iterate value meaning budget) := by
  intro world state ready
  simp only [List.append_assoc, List.cons_append, List.nil_append]
  exact (simulates_iterate computes room hagain hend hbody (Nat.le_refl _) ready).after
    (.single (step_of_execute rfl))

end Loop

end Pieces

end Setting

/-! ## Names in frames -/

end Machine

section Frames

theorem Frame.Within.trans {frame middle later : Frame} (h : frame.Within middle)
    (hmore : middle.Within later) : frame.Within later :=
  ⟨hmore.parameters_eq.trans h.parameters_eq, h.locals_prefix.trans hmore.locals_prefix⟩

theorem Frame.within_addLocal (frame : Frame) (name : String) :
    frame.Within (frame.addLocal name).2.2 := by
  unfold addLocal
  cases frame.localOffset? name with
  | some offset => exact .refl frame
  | none => exact ⟨rfl, List.prefix_append _ _⟩

/-- A local that was declared is what its name stands for. -/
theorem Frame.resolve_addLocal (frame : Frame) (name : String) :
    (frame.addLocal name).2.2.resolve name = .localSlot (frame.addLocal name).1 := by
  unfold addLocal
  cases hold : frame.localOffset? name with
  | some offset => simp [resolve, hold]
  | none =>
      -- a new name takes the place after all the others
      have hnew : frame.locals.idxOf? name = none := by simpa [localOffset?] using hold
      have hmem : name ∉ frame.locals := List.idxOf?_eq_none_iff.mp hnew
      have hlast : (frame.locals ++ [name]).idxOf? name = some frame.locals.length := by
        refine List.idxOf?_eq_some_iff.mpr ⟨by simp, by simp, fun position hlt heq => hmem ?_⟩
        rw [List.getElem_append_left hlt] at heq
        exact heq ▸ List.getElem_mem hlt
      simp [resolve, localOffset?, hlast]

theorem Cursor.Precedes.within {cursor next : Cursor} (h : cursor.Precedes next) :
    cursor.frame.Within next.frame :=
  ⟨h.parameters_eq, h.locals_prefix⟩

mutual

/-- The interpreter declares the names that the translation declares. -/
theorem Stmt.frame_after : (statement : Stmt) → (cursor : Cursor) →
    (statement.after cursor).frame = statement.frameAfter cursor.frame
  | .expression _, _ | .declaration _, _ | .returnValue _ _, _ | .breakLoop _, _ => rfl
  | .block block, cursor => block.frame_after cursor
  | .ifElse _ condition thenBlock none, cursor =>
      thenBlock.frame_after (cursor.skip (1 + condition.size))
  | .ifElse _ condition thenBlock (some elseBlock), cursor => by
      rw [Stmt.after, Stmt.frameAfter, elseBlock.frame_after, thenBlock.frame_after]
      rfl
  | .whileLoop _ condition body, cursor => body.frame_after (cursor.skip (1 + condition.size))

theorem Block.frame_after : (block : Block) → (cursor : Cursor) →
    (block.after cursor).frame = block.frameAfter cursor.frame
  | ⟨_, statements⟩, cursor => frame_afterAll statements (cursor.skip 1)

theorem frame_afterAll : (statements : List Stmt) → (cursor : Cursor) →
    (afterAll statements cursor).frame = frameAfterAll statements cursor.frame
  | [], _ => rfl
  | statement :: statements, cursor => by
      rw [afterAll, frameAfterAll, frame_afterAll statements, statement.frame_after]

end

end Frames

namespace Machine

/-! ## The expressions of a function -/

/-- Expressions, each in a frame, are about variables that the layout has and about
functions that follow the oracle, and none needs more than a number of bytes of the
stack. -/
structure Hosts (layout : Layout) (oracle : Oracle) (need : Nat)
    (expressions : List (Frame × Expr)) : Prop where
  globals_mem : ∀ part ∈ expressions, ∀ name ∈ part.2.names,
    part.1.resolve name = .global name → name ∈ layout.globals
  follows : ∀ part ∈ expressions, ∀ call ∈ part.2.calls, layout.Follows oracle call.1 call.2
  need_le : ∀ part ∈ expressions, part.2.need layout.reserve ≤ need

namespace Hosts

variable {layout : Layout} {oracle : Oracle} {need : Nat} {expressions more : List (Frame × Expr)}

theorem of_subset (hosts : Hosts layout oracle need expressions)
    (h : ∀ part ∈ more, part ∈ expressions) : Hosts layout oracle need more :=
  ⟨fun part hpart => hosts.globals_mem part (h part hpart),
    fun part hpart => hosts.follows part (h part hpart),
    fun part hpart => hosts.need_le part (h part hpart)⟩

theorem left (hosts : Hosts layout oracle need (expressions ++ more)) :
    Hosts layout oracle need expressions :=
  hosts.of_subset fun _ => List.mem_append_left _

theorem right (hosts : Hosts layout oracle need (expressions ++ more)) :
    Hosts layout oracle need more :=
  hosts.of_subset fun _ => List.mem_append_right _

theorem tail {part : Frame × Expr} (hosts : Hosts layout oracle need (part :: more)) :
    Hosts layout oracle need more :=
  hosts.of_subset fun _ => List.mem_cons_of_mem _

/-- The code of each of the expressions computes its value. -/
theorem computes {frame : Frame} {expr : Expr} (hosts : Hosts layout oracle need expressions)
    (hmem : (frame, expr) ∈ expressions) (within : frame.Within layout.frame) :
    Computes layout (expr.code frame) need (expr.evaluate oracle frame) := by
  have covered : Covered layout oracle frame expr.names expr.calls :=
    ⟨fun name hname => Layout.owns_resolve within (hosts.globals_mem _ hmem name hname),
      hosts.follows _ hmem⟩
  intro world state represents room
  exact computes_of_expression expr covered world state represents
    (room.mono (hosts.need_le _ hmem))

end Hosts

/-! ## Statements -/

namespace Setting

/-- The loop around a statement: the label at its end, and the code after it. -/
inductive Around (setting : Setting) : Option String → Option (List Instruction) → Prop
  | outside : Around setting none none
  | inside {label : String} {after : List Instruction}
      (h : codeAfter label setting.program = some after) : Around setting (some label) (some after)

/-- No label of the function is defined twice, the code at the end of the function is
after a label, and the stack has room. -/
structure Prepared (setting : Setting) (exitLabel : String) (need : Nat) : Prop where
  nodup : (Asm.labels setting.program).Nodup
  exit_eq : codeAfter exitLabel setting.program = some setting.exit
  room : setting.layout.Room need setting.start

variable {setting : Setting} {oracle : Oracle} {need budget : Nat} {exitLabel : String}

theorem realizes_declaration {loopEnd : Option (List Instruction)} {rest : List Instruction}
    {frame : Frame} (room : setting.layout.Room need setting.start) (htaken : takenOff rest = 0)
    (declared : Declaration) (within : (declared.frameAfter frame).Within setting.layout.frame)
    (hosts : Hosts setting.layout oracle need ((Stmt.declaration declared).expressions frame)) :
    setting.Realizes loopEnd budget (declared.code frame) rest (declared.run oracle frame) := by
  have hplace : (declared.frameAfter frame).resolve declared.name =
      .localSlot (frame.addLocal declared.name).1 := frame.resolve_addLocal declared.name
  cases hinitial : declared.initializer with
  | none =>
      have hcode : declared.code frame = [] := by rw [Declaration.code, hinitial]
      have hrun : declared.run oracle frame = .normal := by
        funext world
        rw [Declaration.run, hinitial]
      rw [hcode, hrun]
      exact realizes_nil
  | some value =>
      have hcode : declared.code frame = value.code frame ++
          [.mov (Place.localSlot (frame.addLocal declared.name).1).operand Register.eax] := by
        rw [Declaration.code, hinitial]
        rfl
      have hrun : declared.run oracle frame = fun world =>
          .ofValue (value.evaluate oracle frame world) fun value world =>
            .normal (world.set (.localSlot (frame.addLocal declared.name).1) value) := by
        funext world
        rw [Declaration.run, hinitial, hplace]
      -- the new slot is a local one, so it needs no variable of the file
      have howns : setting.layout.Owns (.localSlot (frame.addLocal declared.name).1) := by
        rw [← hplace]
        apply Layout.owns_resolve within
        intro hglobal
        rw [hplace] at hglobal
        cases hglobal
      have hmem : (frame, value) ∈ (Stmt.declaration declared).expressions frame := by
        simp [Stmt.expressions, hinitial]
      rw [hcode, hrun]
      exact realizes_store
        (hosts.computes hmem ((frame.within_addLocal declared.name).trans within)) room htaken howns

mutual

/-- **The code of a statement simulates the interpreter.** -/
theorem realizes_of_statement (prepared : setting.Prepared exitLabel need) : (statement : Stmt) →
    {loopLabel : Option String} → {loopEnd : Option (List Instruction)} → {cursor : Cursor} →
    {rest : List Instruction} →
    (statement.code loopLabel cursor ++ rest) <:+ setting.program → takenOff rest = 0 →
    setting.Around loopLabel loopEnd → (loopLabel = none → statement.BreaksInLoops) →
    cursor.frame.exitLabel = exitLabel →
    (statement.after cursor).frame.Within setting.layout.frame →
    Hosts setting.layout oracle need (statement.expressions cursor.frame) →
    setting.Realizes loopEnd budget (statement.code loopLabel cursor) rest
      (statement.run oracle budget cursor.frame)
  | .expression value, _, _, _, _, _, htaken, _, _, _, within, hosts =>
      realizes_expression (hosts.computes List.mem_cons_self within) prepared.room htaken
  | .declaration declared, _, _, _, _, _, htaken, _, _, _, within, hosts =>
      realizes_declaration prepared.room htaken declared within hosts
  | .block block, _, _, _, _, hsuffix, htaken, around, hbreaks, hname, within, hosts =>
      realizes_of_block prepared block hsuffix htaken around hbreaks hname within hosts
  | .ifElse _ condition thenBlock none, loopLabel, loopEnd, cursor, rest, hsuffix, _, around,
      hbreaks, hname, within, hosts => by
      let inner := cursor.skip (1 + condition.size)
      have hthen : inner.frame.Within (thenBlock.after inner).frame :=
        (thenBlock.precedes_after inner).within
      simp only [Stmt.code, List.append_assoc, List.cons_append, List.nil_append] at hsuffix
      have hjump := (List.suffix_append _ _).trans hsuffix
      have hchosen := (List.suffix_append _ _).trans hjump
      have helse := (List.suffix_cons _ _).trans ((List.suffix_append _ _).trans hchosen)
      have hend := (List.suffix_cons _ _).trans helse
      exact realizes_conditional (hosts.computes List.mem_cons_self (hthen.trans within))
        prepared.room (codeAfter_of_suffix prepared.nodup helse)
        (codeAfter_of_suffix prepared.nodup hend)
        (realizes_of_block prepared thenBlock hchosen rfl around
          (fun hnone => (hbreaks hnone).1) hname within hosts.tail.left) realizes_nil
  | .ifElse _ condition thenBlock (some elseBlock), loopLabel, loopEnd, cursor, rest, hsuffix, _,
      around, hbreaks, hname, within, hosts => by
      let inner := cursor.skip (1 + condition.size)
      have hprecedes := thenBlock.precedes_after inner
      have helsePrecedes := elseBlock.precedes_after (thenBlock.after inner)
      have hframe : (thenBlock.after inner).frame = thenBlock.frameAfter cursor.frame :=
        thenBlock.frame_after inner
      simp only [Stmt.code, List.append_assoc, List.cons_append, List.nil_append] at hsuffix
      have hjump := (List.suffix_append _ _).trans hsuffix
      have hchosen := (List.suffix_append _ _).trans hjump
      have helse := (List.suffix_cons _ _).trans ((List.suffix_append _ _).trans hchosen)
      have hother := (List.suffix_cons _ _).trans helse
      have hend := (List.suffix_append _ _).trans hother
      have hosts' : Hosts setting.layout oracle need
          (elseBlock.expressions (thenBlock.after inner).frame) := by
        rw [hframe]
        exact hosts.tail.right
      have hrun := realizes_of_block prepared elseBlock hother rfl around
        (fun hnone => (hbreaks hnone).2) (hprecedes.exitLabel_eq.trans hname) within hosts'
      rw [hframe] at hrun
      exact realizes_conditional
        (hosts.computes List.mem_cons_self
          ((hprecedes.within.trans helsePrecedes.within).trans within))
        prepared.room (codeAfter_of_suffix prepared.nodup helse)
        (codeAfter_of_suffix prepared.nodup hend)
        (realizes_of_block prepared thenBlock hchosen rfl around
          (fun hnone => (hbreaks hnone).1) hname
          (helsePrecedes.within.trans within) hosts.tail.left) hrun
  | .whileLoop _ condition body, loopLabel, loopEnd, cursor, rest, hsuffix, _, around, hbreaks,
      hname, within, hosts => by
      let inner := cursor.skip (1 + condition.size)
      have hprecedes := body.precedes_after inner
      simp only [Stmt.code, List.append_assoc, List.cons_append, List.nil_append] at hsuffix
      have hjump := (List.suffix_append _ _).trans ((List.suffix_cons _ _).trans hsuffix)
      have hbody := (List.suffix_append _ _).trans hjump
      have hend := (List.suffix_cons _ _).trans ((List.suffix_append _ _).trans hbody)
      have hfound := codeAfter_of_suffix prepared.nodup hend
      -- a `break` in the body goes to the code after the end label
      exact realizes_loop (hosts.computes List.mem_cons_self (hprecedes.within.trans within))
        prepared.room (codeAfter_of_suffix prepared.nodup hsuffix) hfound
        (realizes_of_statement prepared body hbody rfl (.inside hfound) (fun hnone => nomatch hnone)
          hname within hosts.tail)
  | .returnValue _ none, _, _, _, _, _, _, _, _, hname, _, _ =>
      realizes_return_none (hname ▸ prepared.exit_eq)
  | .returnValue _ (some value), _, _, _, _, _, _, _, _, hname, within, hosts =>
      realizes_return (hosts.computes List.mem_cons_self within) prepared.room
        (hname ▸ prepared.exit_eq)
  | .breakLoop _, _, _, _, _, _, _, around, hbreaks, _, _, _ => by
      cases around with
      | outside => exact (hbreaks rfl).elim
      | inside h => exact realizes_break h

theorem realizes_of_block (prepared : setting.Prepared exitLabel need) : (block : Block) →
    {loopLabel : Option String} → {loopEnd : Option (List Instruction)} → {cursor : Cursor} →
    {rest : List Instruction} →
    (block.code loopLabel cursor ++ rest) <:+ setting.program → takenOff rest = 0 →
    setting.Around loopLabel loopEnd → (loopLabel = none → block.BreaksInLoops) →
    cursor.frame.exitLabel = exitLabel →
    (block.after cursor).frame.Within setting.layout.frame →
    Hosts setting.layout oracle need (block.expressions cursor.frame) →
    setting.Realizes loopEnd budget (block.code loopLabel cursor) rest
      (block.run oracle budget cursor.frame)
  | ⟨_, statements⟩, _, _, _, _, hsuffix, htaken, around, hbreaks, hname, within, hosts =>
      realizes_of_statements prepared statements hsuffix htaken around hbreaks hname within hosts

theorem realizes_of_statements (prepared : setting.Prepared exitLabel need) :
    (statements : List Stmt) → {loopLabel : Option String} →
    {loopEnd : Option (List Instruction)} → {cursor : Cursor} → {rest : List Instruction} →
    (codeAll loopLabel statements cursor ++ rest) <:+ setting.program → takenOff rest = 0 →
    setting.Around loopLabel loopEnd → (loopLabel = none → AllBreaksInLoops statements) →
    cursor.frame.exitLabel = exitLabel →
    (afterAll statements cursor).frame.Within setting.layout.frame →
    Hosts setting.layout oracle need (expressionsIn statements cursor.frame) →
    setting.Realizes loopEnd budget (codeAll loopLabel statements cursor) rest
      (runAll oracle budget statements cursor.frame)
  | [], _, _, _, _, _, _, _, _, _, _, _ => realizes_nil
  | statement :: statements, _, _, cursor, _, hsuffix, htaken, around, hbreaks, hname, within,
      hosts => by
      have hprecedes := statement.precedes_after cursor
      have hrest := precedes_afterAll statements (statement.after cursor)
      have hframe := statement.frame_after cursor
      rw [codeAll, List.append_assoc] at hsuffix
      have hosts' : Hosts setting.layout oracle need
          (expressionsIn statements (statement.after cursor).frame) := by
        rw [hframe]
        exact hosts.right
      have hrun := realizes_of_statements prepared statements
        ((List.suffix_append _ _).trans hsuffix) htaken around (fun hnone => (hbreaks hnone).2)
        (hprecedes.exitLabel_eq.trans hname) within hosts'
      rw [hframe] at hrun
      exact realizes_append
        (realizes_of_statement prepared statement hsuffix
          (takenOff_append_eq_zero (takenOff_codeAll _ statements _) htaken) around
          (fun hnone => (hbreaks hnone).1) hname (hrest.within.trans within) hosts.left) hrun

end

end Setting

end Machine

end MiniC
