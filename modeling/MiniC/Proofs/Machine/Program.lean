import MiniC.Proofs.Asm.Labels
import MiniC.Proofs.Machine.State

/-!
# Programs on the machine

A program runs with the rest of its code before it: `step` carries out the next
instruction, and a jump goes on with the code after its target.  A run ends at
`ret`, or with a trap.

`Leads linkage program count start last` says that so many steps lead from one
configuration to another.  Steps are a function of the configuration, so that
there is one run from each and a run that has ended is the longest
(`Leads.le_of_stopped`).  Code that is carried out as a whole is carried out step by
step (`leads_of_executeAll`).
-/

namespace MiniC.Machine

open Asm (Instruction codeAfter)

/-- The code that is still to be carried out, and the state. -/
structure Configuration where
  rest : List Instruction
  state : State

/-- What a step comes to. -/
inductive Progress where
  | next (configuration : Configuration)
  /-- The next instruction is `ret`. -/
  | returned (state : State)
  | trapped (trap : Trap)

section Program

variable (linkage : Linkage) (program : List Instruction)

/-- Goes on after a label. -/
def jumpTo (target : String) (state : State) : Progress :=
  match codeAfter target program with
  | some rest => .next ⟨rest, state⟩
  | none => .trapped .invalid

/-- Carries out the next instruction. -/
def step : Configuration → Progress
  | ⟨[], _⟩ => .trapped .invalid
  | ⟨.jmp target :: _, state⟩ => jumpTo program target state
  | ⟨.jcc condition target :: rest, state⟩ =>
      match state.flags with
      | none => .trapped .invalid
      | some flags =>
          if flags.satisfy condition then jumpTo program target state else .next ⟨rest, state⟩
  | ⟨.ret :: _, state⟩ => .returned state
  | ⟨instruction :: rest, state⟩ =>
      match execute linkage (takenOff rest) instruction state with
      | .ok after => .next ⟨rest, after⟩
      | .error trap => .trapped trap

/-- A number of steps lead from one configuration to another. -/
inductive Leads : Nat → Configuration → Configuration → Prop
  | refl (configuration : Configuration) : Leads 0 configuration configuration
  | step {count : Nat} {first next last : Configuration}
      (hstep : step linkage program first = .next next) (hrest : Leads count next last) :
      Leads (count + 1) first last

/-- No step follows. -/
def Stopped (configuration : Configuration) : Prop :=
  ∀ next, step linkage program configuration ≠ .next next

/-- From its first instruction, the program reaches `ret` in a state. -/
def Returns (before after : State) : Prop :=
  ∃ count last, Leads linkage program count ⟨program, before⟩ last ∧
    step linkage program last = .returned after

end Program

variable {linkage : Linkage} {program : List Instruction}

/-! ## Runs -/

namespace Leads

variable {count more : Nat} {first middle last other : Configuration}

theorem single (h : Machine.step linkage program first = .next last) :
    Leads linkage program 1 first last :=
  .step h (.refl last)

theorem trans (h : Leads linkage program count first middle)
    (hmore : Leads linkage program more middle last) :
    Leads linkage program (count + more) first last := by
  induction h with
  | refl => rwa [Nat.zero_add]
  | step hstep hrest ih =>
      rw [Nat.add_right_comm]
      exact .step hstep (ih hmore)

/-- The shorter one of two runs is the start of the longer one. -/
theorem of_le (h : Leads linkage program count first middle)
    (hmore : Leads linkage program more first last) (hle : count ≤ more) :
    Leads linkage program (more - count) middle last := by
  induction h generalizing more with
  | refl => exact hmore
  | step hstep hrest ih =>
      cases hmore with
      | refl => omega
      | step hother hlonger =>
          obtain rfl : _ = _ := Progress.next.inj (hstep.symm.trans hother)
          rw [Nat.add_sub_add_right]
          exact ih hlonger (by omega)

theorem count_eq_zero (h : Leads linkage program count first last)
    (stopped : Stopped linkage program first) : count = 0 ∧ last = first := by
  cases h with
  | refl => exact ⟨rfl, rfl⟩
  | step hstep => exact absurd hstep (stopped _)

/-- No run is longer than one that has stopped. -/
theorem le_of_stopped (h : Leads linkage program count first last)
    (stopped : Stopped linkage program last) (hother : Leads linkage program more first other) :
    more ≤ count := by
  rcases Nat.lt_or_ge count more with hlt | hge
  · have := ((h.of_le hother (Nat.le_of_lt hlt)).count_eq_zero stopped).1
    omega
  · exact hge

/-- Two runs that have stopped are the same. -/
theorem eq_of_stopped (h : Leads linkage program count first last)
    (stopped : Stopped linkage program last) (hother : Leads linkage program more first other)
    (stoppedOther : Stopped linkage program other) : other = last :=
  ((h.of_le hother (hother.le_of_stopped stoppedOther h)).count_eq_zero stopped).2

end Leads

theorem stopped_of_returned {configuration : Configuration} {state : State}
    (h : step linkage program configuration = .returned state) :
    Stopped linkage program configuration := fun next hnext => by
  rw [h] at hnext
  cases hnext

theorem stopped_of_trapped {configuration : Configuration} {trap : Trap}
    (h : step linkage program configuration = .trapped trap) :
    Stopped linkage program configuration := fun next hnext => by
  rw [h] at hnext
  cases hnext

/-- A program returns in one state at most. -/
theorem Returns.unique {before after other : State} (h : Returns linkage program before after)
    (hother : Returns linkage program before other) : after = other := by
  obtain ⟨count, last, hleads, hlast⟩ := h
  obtain ⟨more, lastOther, hmore, hlastOther⟩ := hother
  obtain rfl := hleads.eq_of_stopped (stopped_of_returned hlast) hmore
    (stopped_of_returned hlastOther)
  exact Progress.returned.inj (hlast.symm.trans hlastOther)

/-! ## Straight code -/

/-- What is carried out by itself is carried out in a program. -/
theorem step_of_execute {instruction : Instruction} {rest : List Instruction}
    {state after : State} (h : execute linkage (takenOff rest) instruction state = .ok after) :
    step linkage program ⟨instruction :: rest, state⟩ = .next ⟨rest, after⟩ := by
  cases instruction with
  | jmp | jcc | ret => cases h
  | _ => simp only [step, h]

theorem step_of_execute_divide {instruction : Instruction} {rest : List Instruction}
    {state : State} (h : execute linkage (takenOff rest) instruction state = .error .divide) :
    step linkage program ⟨instruction :: rest, state⟩ = .trapped .divide := by
  cases instruction with
  | jmp | jcc | ret => cases h
  | _ => simp only [step, h]

theorem leads_of_executeAll {code rest : List Instruction} {state after : State}
    (htaken : takenOff rest = 0) (h : executeAll linkage code state = .ok after) :
    Leads linkage program code.length ⟨code ++ rest, state⟩ ⟨rest, after⟩ := by
  induction code generalizing state with
  | nil =>
      cases h
      exact .refl _
  | cons instruction code ih =>
      rw [executeAll_cons, ← takenOff_append htaken] at h
      cases hfirst : execute linkage (takenOff (code ++ rest)) instruction state with
      | error trap =>
          rw [hfirst] at h
          cases h
      | ok middle =>
          rw [hfirst] at h
          exact .step (step_of_execute hfirst) (ih h)

theorem traps_of_executeAll {code rest : List Instruction} {state : State}
    (htaken : takenOff rest = 0) (h : executeAll linkage code state = .error .divide) :
    ∃ count last, Leads linkage program count ⟨code ++ rest, state⟩ last ∧
      step linkage program last = .trapped .divide := by
  induction code generalizing state with
  | nil => cases h
  | cons instruction code ih =>
      rw [executeAll_cons, ← takenOff_append htaken] at h
      cases hfirst : execute linkage (takenOff (code ++ rest)) instruction state with
      | error trap =>
          rw [hfirst] at h
          cases h
          exact ⟨0, _, .refl _, step_of_execute_divide hfirst⟩
      | ok middle =>
          rw [hfirst] at h
          obtain ⟨count, last, hleads, htrap⟩ := ih h
          exact ⟨count + 1, last, .step (step_of_execute hfirst) hleads, htrap⟩

/-- A jump to a label that is there. -/
theorem step_jmp {target : String} {rest found : List Instruction} {state : State}
    (h : codeAfter target program = some found) :
    step linkage program ⟨.jmp target :: rest, state⟩ = .next ⟨found, state⟩ := by
  simp only [step, jumpTo, h]

/-- A label in code without repeated labels is found where it stands. -/
theorem codeAfter_of_suffix {label : String} {rest : List Instruction}
    (hnodup : (Asm.labels program).Nodup) (h : (.label label :: rest) <:+ program) :
    codeAfter label program = some rest := by
  obtain ⟨front, rfl⟩ := h
  exact Asm.codeAfter_of_nodup hnodup

end MiniC.Machine
