import MiniC.Proofs.Machine.Statements
import MiniC.Proofs.Symbols.Slots
import MiniC.Proofs.Translation.Labels

/-!
# Functions on the machine

The code of a function sets up its frame, runs the body and takes the frame down.
`Layout.Enters` says what a caller provides: the arguments are above the return
address, and the stack has room.  `Layout.Leaves` says what the caller finds at
`ret`.

A finished run of the interpreter is a run of the code up to `ret`
(`returns_of_finished`).  The other way round, a run that reaches `ret` after some
number of steps is one of a finished interpreter (`finished_of_returns`): with that
many rounds for every loop, an unfinished interpreter would mean a longer run, and one
with a fault would mean a run that ends in a trap.
-/

namespace MiniC

open Asm (Instruction Register codeAfter)
open Emission (epilogue prologue)

/-! ## Frames of functions -/

namespace FunctionDefinition

variable (definition : FunctionDefinition) (serial : Nat)

@[simp] theorem frame_start : (definition.start serial).frame = definition.parameterFrame := by
  have hparameters : ∀ (parameters : List Parameter) (cursor : Cursor),
      (declareParameters parameters cursor).frame =
        parameters.foldl (fun frame parameter => (frame.addParameter parameter.name).2.2)
          cursor.frame := by
    intro parameters
    induction parameters with
    | nil => exact fun _ => rfl
    | cons parameter parameters ih =>
      exact fun cursor => ih (cursor.declareParameter parameter.name)
  unfold start declareParameterList parameterFrame
  cases definition.parameters with
  | none => rfl
  | some list => exact hparameters list.parameters _

theorem frame_after_body :
    (definition.body.after (definition.start serial)).frame = definition.frame := by
  rw [Block.frame_after, frame_start, frame]

/-- The code of a function is for the names that the interpreter knows at its end. -/
theorem finalFrame_eq : definition.finalFrame serial = definition.frame := by
  rw [finalFrame, translateBody, (definition.body.translate_eq 1 none _).2, frame_after_body]

end FunctionDefinition

theorem Frame.eq_comment_of_mem_comments (frame : Frame) :
    ∀ instruction ∈ frame.comments, ∃ text, instruction = .comment text := by
  intro instruction hmem
  rcases List.mem_append.mp hmem with hparameter | hlocal
  · obtain ⟨position, hposition, rfl⟩ := List.mem_mapIdx.mp hparameter
    exact ⟨_, rfl⟩
  · obtain ⟨position, hposition, rfl⟩ := List.mem_mapIdx.mp hlocal
    exact ⟨_, rfl⟩

namespace Machine

variable {layout : Layout} {world next : World} {need : Nat} {before after state : State}

/-! ## Setting up the frame -/

/-- The frame of a function has been set up: `ebp` is where the `ebp` of the caller is
saved, and the locals are between `esp` and `ebp`. -/
structure FrameSet (layout : Layout) (before after : State) : Prop where
  ebp_eq : after.ebp = before.esp - 4
  esp_eq : after.esp.toNat + layout.localSize = after.ebp.toNat
  memory_eq : after.memory = before.memory.store (before.esp - 4) before.ebp
  calls_eq : after.calls = before.calls

theorem takenOff_comments (frame : Frame) : takenOff frame.comments = 0 := by
  cases hcomments : frame.comments with
  | nil => rfl
  | cons instruction comments =>
      obtain ⟨text, rfl⟩ := frame.eq_comment_of_mem_comments instruction
        (by rw [hcomments]; exact List.mem_cons_self)
      rfl

theorem executeAll_comments (linkage : Linkage) (frame : Frame) :
    executeAll linkage frame.comments state = .ok state := by
  have hall := frame.eq_comment_of_mem_comments
  generalize frame.comments = comments at hall ⊢
  induction comments with
  | nil => rfl
  | cons instruction comments ih =>
      obtain ⟨text, rfl⟩ := hall instruction List.mem_cons_self
      exact ih fun other hother => hall other (List.mem_cons_of_mem _ hother)

/-- The code of a function before its body. -/
def opening (name : String) (frame : Frame) : List Instruction :=
  [.proc name] ++ (prologue frame ++ frame.comments)

/-- The opening of a function saves `ebp`, makes it the top of the stack and moves the top down by
the bytes of the locals. -/
theorem executeAll_opening (linkage : Linkage) (name : String) (frame : Frame) (state : State) :
    ∃ start, executeAll linkage (opening name frame) state = .ok start ∧
      start.ebp = state.esp - 4 ∧
      start.esp = state.esp - 4 -
        (if 0 < frame.localBytes then frame.localBytes.toBitVec else 0) ∧
      start.memory = state.memory.store (state.esp - 4) state.ebp ∧
      start.calls = state.calls := by
  have hpushed : executeAll linkage
      [.proc name, .push Register.ebp, .mov Register.ebp Register.esp] state =
        .ok { state.push state.ebp with ebp := state.esp - 4 } := rfl
  -- `sub` is there only if there are locals
  unfold opening prologue
  by_cases hlocals : 0 < frame.localBytes
  · rw [if_pos hlocals, if_pos hlocals]
    refine ⟨{ state.push state.ebp with
      ebp := state.esp - 4
      esp := state.esp - 4 - frame.localBytes.toBitVec
      flags := some (.ofDifference (state.esp - 4) frame.localBytes.toBitVec) }, ?_,
      rfl, rfl, rfl, rfl⟩
    exact executeAll_append_of_ok rfl hpushed |>.trans (executeAll_comments linkage frame)
  · rw [if_neg hlocals, if_neg hlocals]
    refine ⟨{ state.push state.ebp with ebp := state.esp - 4 }, ?_, rfl, ?_, rfl, rfl⟩
    · exact executeAll_append_of_ok (takenOff_comments frame) hpushed |>.trans
        (executeAll_comments linkage frame)
    · exact (BitVec.sub_zero _).symm

/-- The instructions before the body. -/
theorem execute_prologue (name : String) (hsize : layout.localSize < 2147483648)
    (hroom : layout.localSize + 4 ≤ state.esp.toNat) :
    ∃ start, executeAll layout.linkage
        ([.proc name] ++ (prologue layout.frame ++ layout.frame.comments)) state = .ok start ∧
      FrameSet layout state start := by
  obtain ⟨start, hstart, hebp, hesp, hmemory, hcalls⟩ :=
    executeAll_opening layout.linkage name layout.frame state
  refine ⟨start, hstart, hebp, ?_, hmemory, hcalls⟩
  have hbytes : layout.frame.localBytes.toInt = layout.localSize :=
    Frame.toInt_localBytes hsize
  -- the bytes that are taken are those of the locals
  have htaken : (if 0 < layout.frame.localBytes then layout.frame.localBytes.toBitVec
      else 0).toNat = layout.localSize := by
    by_cases hlocals : 0 < layout.frame.localBytes
    · rw [if_pos hlocals]
      have hword : layout.frame.localBytes.toBitVec.toInt = (layout.localSize : Int) := hbytes
      rw [BitVec.toInt_eq_toNat_cond] at hword
      split at hword <;> omega
    · rw [if_neg hlocals]
      rw [Int32.lt_iff_toInt_lt, hbytes] at hlocals
      have hzero : (0 : Int32).toInt = 0 := rfl
      have hnone : (0 : Word).toNat = 0 := rfl
      omega
  rw [hesp, hebp]
  bv_omega

/-! ## Entering and leaving -/

/-- The two words at `ebp` belong to nobody. -/
theorem Layout.Keeps.load_link (keeps : layout.Keeps before after) (fits : layout.Fits before.ebp)
    (hesp : before.esp.toNat ≤ before.ebp.toNat) {address : Word}
    (hlow : before.ebp.toNat ≤ address.toNat) (hhigh : address.toNat ≤ before.ebp.toNat + 4) :
    after.memory.load address = before.memory.load address := by
  have htop := fits.parameters_fit
  refine Memory.load_congr fun byte hbyte => keeps.memory_eq byte ?_
  have hbytes := toNat_of_covers hbyte (by omega)
  rintro (⟨hbottom, hbelow⟩ | ⟨place, howns, hcovers⟩)
  · omega
  · have := toNat_of_covers_locate fits howns hcovers
    omega

namespace Layout

variable (layout) (need)

/-- A function is entered: the return address is on top of the stack and the arguments
are above it, so that the values of a world are in their places once `ebp` is four bytes
below the top.  The stack has room for the `ebp` of the caller, for the locals, whose
size is a signed number, and for a number of bytes more. -/
structure Enters (world : World) (state : State) : Prop where
  represents : layout.Represents world { state with ebp := state.esp - 4 }
  room : layout.bottom + need + layout.localSize + 4 ≤ state.esp.toNat
  size_lt : layout.localSize < 2147483648

/-- A function leaves: the stack, the frame and the return address of the caller are as
before, a value that is returned is in `eax`, and the variables of the file have their
values. -/
structure Leaves (value : Option Int32) (world : World) (before after : State) : Prop where
  esp_eq : after.esp = before.esp
  ebp_eq : after.ebp = before.ebp
  return_eq : after.memory.load after.esp = before.memory.load before.esp
  eax_eq : ∀ result, value = some result → after.eax = result.toBitVec
  variables_eq : layout.HoldsVariables world after.memory
  calls_eq : after.calls = world.calls

end Layout

namespace FrameSet

variable {start : State} (frameSet : FrameSet layout state start)
  (enters : layout.Enters need world state)
include frameSet enters

theorem represents : layout.Represents world start := by
  apply enters.represents.congr frameSet.ebp_eq frameSet.calls_eq
  intro place howns byte hbyte
  rw [frameSet.memory_eq]
  apply Memory.store_of_not_covers
  intro hcovers
  have hroom := enters.room
  have hsaved := toNat_of_covers_below hcovers (by omega)
  have hplace := (Layout.toNat_of_covers_locate enters.represents.fits howns hbyte).2
  have hebp : (state.esp - 4).toNat + 4 = state.esp.toNat := by bv_omega
  change byte.toNat < (state.esp - 4).toNat ∨ (state.esp - 4).toNat + 8 ≤ byte.toNat at hplace
  omega

theorem toNat_ebp : start.ebp.toNat + 4 = state.esp.toNat := by
  have hroom := enters.room
  rw [frameSet.ebp_eq]
  bv_omega

theorem room : layout.Room need start where
  enough := by
    have hroom := enters.room
    have hebp := frameSet.toNat_ebp enters
    have hesp := frameSet.esp_eq
    omega
  below := Nat.le_of_eq frameSet.esp_eq

/-- Where the body has kept to its places, taking the frame down brings the caller back
to where it was. -/
theorem leaves {value : Option Int32} {last : State} (represents : layout.Represents next last)
    (keeps : layout.Keeps start last) (heax : ∀ result, value = some result →
      last.eax = result.toBitVec) :
    layout.Leaves value next state
      { last with esp := last.ebp + 4, ebp := last.memory.load last.ebp } := by
  have hebp := frameSet.toNat_ebp enters
  have hesp := frameSet.esp_eq
  have htop := (frameSet.represents enters).fits.parameters_fit
  have hback : last.ebp + 4 = state.esp := by
    rw [keeps.ebp_eq, frameSet.ebp_eq, BitVec.sub_add_cancel]
  refine ⟨hback, ?_, ?_, heax, represents.holdsVariables, represents.calls_eq⟩
  · show last.memory.load last.ebp = state.ebp
    rw [keeps.ebp_eq, keeps.load_link (frameSet.represents enters).fits (by omega) (by omega)
      (by omega), frameSet.memory_eq, frameSet.ebp_eq, Memory.load_store_self]
  · show last.memory.load (last.ebp + 4) = _
    rw [hback, keeps.load_link (frameSet.represents enters).fits (by omega) (by omega) (by omega),
      frameSet.memory_eq]
    apply Memory.load_store_of_apart
    intro byte hbyte hcovers
    have hsaved := toNat_of_covers_below hcovers (by omega)
    have hreturn := toNat_of_covers hbyte (by omega)
    omega

end FrameSet

/-! ## Running a function -/

/-- The instructions after the label at the end of a function. -/
def functionExit (name : String) : List Instruction :=
  [.mov Register.esp Register.ebp, .pop .ebp, .ret, .endp name]

/-- The body of a function while it runs. -/
def bodySetting (layout : Layout) (definition : FunctionDefinition) (serial : Nat)
    (start : State) : Setting :=
  { layout, program := definition.code serial, start, exit := functionExit definition.name }

/-- The end of a function takes the frame down and comes to `ret`. -/
theorem returns_of_leads_exit {linkage : Linkage} {program : List Instruction} {name : String}
    {count : Nat} (h : Leads linkage program count ⟨program, before⟩ ⟨functionExit name, state⟩) :
    Returns linkage program before
      { state with esp := state.ebp + 4, ebp := state.memory.load state.ebp } := by
  have hexit : Leads linkage program 2 ⟨functionExit name, state⟩
      ⟨[.ret, .endp name],
        { state with esp := state.ebp + 4, ebp := state.memory.load state.ebp }⟩ :=
    .step (step_of_execute rfl) (.single (step_of_execute rfl))
  exact ⟨_, _, h.trans hexit, rfl⟩

section Function

variable {definition : FunctionDefinition} {oracle : Oracle} {start : State}

theorem code_eq_parts (hframe : layout.frame = definition.frame) (serial : Nat) :
    definition.code serial =
      [.proc definition.name] ++ (prologue layout.frame ++ layout.frame.comments) ++
        (definition.bodyCode serial ++
          .label (definition.name ++ "_exit") :: functionExit definition.name) := by
  have hfinal : definition.finalFrame serial = layout.frame :=
    (definition.finalFrame_eq serial).trans hframe.symm
  have hexit : epilogue layout.frame ++ [.endp definition.name] =
      .label (definition.name ++ "_exit") :: functionExit definition.name := by
    rw [← definition.exitLabel_finalFrame serial, hfinal]
    rfl
  rw [FunctionDefinition.code, hfinal, List.append_assoc, hexit, List.append_assoc]
  rfl

/-- The frame is set up, and the body is next. -/
theorem leads_body (hframe : layout.frame = definition.frame)
    (enters : layout.Enters need world state) (program : List Instruction) (serial : Nat) :
    ∃ start count, FrameSet layout state start ∧
      Leads layout.linkage program count ⟨definition.code serial, state⟩
        ⟨definition.bodyCode serial ++
          .label (definition.name ++ "_exit") :: functionExit definition.name, start⟩ := by
  have hroom : layout.localSize + 4 ≤ state.esp.toNat := by
    have := enters.room
    omega
  obtain ⟨start, hstart, frameSet⟩ := execute_prologue definition.name enters.size_lt hroom
  rw [code_eq_parts hframe]
  have htaken : takenOff (definition.bodyCode serial ++
      .label (definition.name ++ "_exit") :: functionExit definition.name) = 0 :=
    takenOff_append_eq_zero (takenOff_block none definition.body _) rfl
  exact ⟨start, _, frameSet, leads_of_executeAll htaken hstart⟩

variable (hframe : layout.frame = definition.frame) (hbreaks : definition.body.BreaksInLoops)
  (hosts : Hosts layout oracle need definition.expressions)
  (enters : layout.Enters need world state)
include hframe hbreaks hosts enters

/-- The body of a function simulates the interpreter once the frame is set up. -/
theorem simulates_body (frameSet : FrameSet layout state start) (serial budget : Nat) :
    (bodySetting layout definition serial start).Simulates none budget
      ⟨definition.bodyCode serial ++
        .label (definition.name ++ "_exit") :: functionExit definition.name, start⟩
      (.label (definition.name ++ "_exit") :: functionExit definition.name)
      (definition.run oracle budget world) := by
  have hbody : (definition.bodyCode serial ++
      .label (definition.name ++ "_exit") :: functionExit definition.name) <:+
        definition.code serial := by
    rw [code_eq_parts hframe]
    exact List.suffix_append _ _
  have hexit := (List.suffix_append _ _).trans hbody
  have hnodup := (definition.wellLabelled_code serial).nodup
  have prepared : (bodySetting layout definition serial start).Prepared
      (definition.name ++ "_exit") need :=
    ⟨hnodup, codeAfter_of_suffix hnodup hexit, frameSet.room enters⟩
  have hname : (definition.start serial).frame.exitLabel = definition.name ++ "_exit" := by
    rw [Frame.exitLabel, definition.name_start]
  -- the layout is that of the frame at the end of the body
  have within : (definition.body.after (definition.start serial)).frame.Within layout.frame := by
    rw [definition.frame_after_body, hframe]
    exact .refl _
  have hosts' : Hosts layout oracle need
      (definition.body.expressions (definition.start serial).frame) := by
    rw [definition.frame_start]
    exact hosts
  have ready : (bodySetting layout definition serial start).Ready world start :=
    ⟨frameSet.represents enters, rfl, .of_eq rfl rfl⟩
  rw [FunctionDefinition.run, ← definition.frame_start serial]
  exact Setting.realizes_of_block prepared definition.body hbody rfl .outside
    (fun _ => hbreaks) hname within hosts' world start ready

/-- Where the interpreter finishes, the machine reaches `ret`. -/
theorem returns_of_finished (serial : Nat) {budget : Nat} {value : Option Int32}
    (hfinished : (definition.run oracle budget world).finished? = some (value, next)) :
    ∃ after, Returns layout.linkage (definition.code serial) state after ∧
      layout.Leaves value next state after := by
  obtain ⟨start, setup, frameSet, hsetup⟩ :=
    leads_body hframe enters (definition.code serial) serial
  have hbody := simulates_body hframe hbreaks hosts enters frameSet serial budget
  cases hending : definition.run oracle budget world with
  | normal last =>
      rw [hending] at hbody hfinished
      cases hfinished
      obtain ⟨count, final, hleads, ready⟩ := hbody
      -- falling off the end runs over the exit label
      have hlabel := hleads.trans (.single (step_of_execute rfl))
      exact ⟨_, returns_of_leads_exit (hsetup.trans hlabel),
        frameSet.leaves enters ready.represents ready.keeps fun _ hresult => nomatch hresult⟩
  | returned result last =>
      rw [hending] at hbody hfinished
      cases hfinished
      obtain ⟨count, final, hleads, ready, heax⟩ := hbody
      exact ⟨_, returns_of_leads_exit (hsetup.trans hleads),
        frameSet.leaves enters ready.represents ready.keeps heax⟩
  | broke | fault | unfinished =>
      rw [hending] at hfinished
      cases hfinished

/-- Where the machine reaches `ret`, the interpreter finishes. -/
theorem finished_of_returns (serial : Nat)
    (h : Returns layout.linkage (definition.code serial) state after) :
    ∃ budget value next,
      (definition.run oracle budget world).finished? = some (value, next) ∧
        layout.Leaves value next state after := by
  obtain ⟨start, setup, frameSet, hsetup⟩ :=
    leads_body hframe enters (definition.code serial) serial
  have hreturns := h
  obtain ⟨count, last, hleads, hlast⟩ := hreturns
  have hstopped := stopped_of_returned hlast
  -- more rounds than steps, so that an unfinished run would be too long
  have hbody := simulates_body hframe hbreaks hosts enters frameSet serial (count + 1)
  have hfinished : ∃ value next,
      (definition.run oracle (count + 1) world).finished? = some (value, next) := by
    cases hending : definition.run oracle (count + 1) world with
    | normal world => exact ⟨none, world, rfl⟩
    | returned value world => exact ⟨value, world, rfl⟩
    | broke world =>
        rw [hending] at hbody
        obtain ⟨_, _, _, hnone, -⟩ := hbody
        cases hnone
    | fault =>
        rw [hending] at hbody
        obtain ⟨more, trapped, hmore, htrap⟩ := hbody
        obtain rfl := hleads.eq_of_stopped hstopped (hsetup.trans hmore)
          (stopped_of_trapped htrap)
        rw [show step layout.linkage (definition.code serial) trapped = .trapped .divide from htrap]
          at hlast
        cases hlast
    | unfinished =>
        rw [hending] at hbody
        obtain ⟨more, reached, hle, hmore⟩ := hbody
        have := hleads.le_of_stopped hstopped (hsetup.trans hmore)
        omega
  obtain ⟨value, next, hfinished⟩ := hfinished
  obtain ⟨final, hfinal, leaves⟩ :=
    returns_of_finished hframe hbreaks hosts enters serial hfinished
  rw [h.unique hfinal]
  exact ⟨count + 1, value, next, hfinished, leaves⟩

end Function

end Machine

end MiniC
