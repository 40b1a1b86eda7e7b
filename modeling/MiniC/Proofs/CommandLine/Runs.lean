import MiniC.Proofs.CommandLine.Files
import MiniC.Proofs.CommandLine.Stages

/-!
# What a command comes to

`Outcome` is what can come of a command: the first stage that fails ends it, and only a
compilation of which no stage fails writes anything.  `Leads` is a run of a part of a command on a
set of files, and `Arrives` says that what is left of a command comes to an outcome of it.  From
the last stage back to the first, each stage keeps this (`arrives_deliver`, `arrives_compileText`,
`arrives_compile`), which gives the outcome of a whole command (`outcome_run`).
-/

namespace MiniC.CommandLine

open Ast (Arena)

/-! ## Running on a set of files -/

/-- A computation on a set of files has a result and leaves these files. -/
def Leads {α : Type} (action : ExceptT String (StateM Files) α) (files : Files)
    (result : Except String α) (after : Files) : Prop :=
  action.run.run files = (result, after)

section Leads

variable {α β : Type} {action : ExceptT String (StateM Files) α}
  {next : α → ExceptT String (StateM Files) β} {files middle after : Files} {value : α}
  {message : String}

theorem leads_pure (value : α) (files : Files) : Leads (pure value) files (.ok value) files := rfl

theorem leads_throw (message : String) (files : Files) :
    Leads (throw message : ExceptT String (StateM Files) α) files (.error message) files := rfl

theorem Leads.bind {result : Except String β} (h : Leads action files (.ok value) middle)
    (hnext : Leads (next value) middle result after) :
    Leads (action >>= next) files result after := by
  rw [Leads, ExceptT.run_bind, StateT.run_bind, show action.run.run files = _ from h]
  exact hnext

/-- After a failure nothing else is done. -/
theorem Leads.fail (h : Leads action files (.error message) after) :
    Leads (action >>= next) files (.error message) after := by
  rw [Leads, ExceptT.run_bind, StateT.run_bind, show action.run.run files = _ from h]
  rfl

theorem leads_readFile (path : String) (files : Files) :
    Leads (readFile Files.host path) files ((files.read path).mapError FileFault.message) files :=
  rfl

theorem leads_orReport (result : Except Error α) (files : Files) :
    Leads (orReport result) files (result.mapError Error.message) files := by
  cases result <;> rfl

theorem leads_write (path text : String) (files : Files) :
    Leads (ExceptT.mk (Files.host.write path text)) files
      ((files.write path text).mapError FileFault.message |>.map fun _ => ())
      ((files.write path text).toOption.getD files) := by
  rw [Leads]
  show StateT.run (Files.host.write path text) files = _
  simp only [Files.host, StateT.run_bind, StateT.run_get, pure_bind]
  cases files.write path text <;> rfl

end Leads

/-! ## What a command comes to -/

/-- What can come of a command: what it reports, and the files after it. -/
inductive Outcome (files : Files) : Command → Report → Files → Prop where
  | failed {command : Command} {stage : Stage} {message : String}
      (h : FailsFirst files command stage message) :
      Outcome files command ⟨1, "", "error: " ++ message ++ "\n"⟩ files
  | printed {arguments : CompileArguments} {assembly : String}
      (hgenerates : Generates files arguments assembly) (hprint : arguments.print = true) :
      Outcome files (.compile arguments) ⟨0, assembly, ""⟩ files
  | written {arguments : CompileArguments} {assembly : String} {after : Files}
      (hgenerates : Generates files arguments assembly) (hprint : arguments.print = false)
      (hwrite : files.write arguments.target assembly = .ok after) :
      Outcome files (.compile arguments)
        ⟨0, "Assembly written to: " ++ arguments.target ++ "\n", ""⟩ after
  | checked {input : String} {dump : Bool} {arena : Arena} (hbuilds : Builds files input arena) :
      Outcome files (.check input dump)
        ⟨0, (if dump then arena.toJson.pretty ++ "\n" else "") ++ input ++ ": " ++
          toString arena.size ++ " AST nodes\n", ""⟩ files

section Outcome

variable {files after : Files} {arguments : CompileArguments} {input : String} {dump : Bool}

/-- Loading options does not change files. -/
theorem exists_leads_loadOptions (files : Files) (arguments : CompileArguments) :
    (∃ options, Configures files arguments options ∧
      Leads (loadOptions Files.host arguments) files (.ok (arguments.override options)) files) ∨
    ∃ message, Fails files (.compile arguments) .config message ∧
      Leads (loadOptions Files.host arguments) files (.error message) files := by
  cases hconfig : arguments.config with
  | none =>
      refine .inl ⟨{}, .default hconfig, ?_⟩
      rw [loadOptions, hconfig]
      exact leads_pure _ files
  | some path =>
      have hread := leads_readFile path files
      rw [loadOptions, hconfig]
      cases htext : files.read path with
      | error fault =>
          rw [htext] at hread
          exact .inr ⟨fault.message, .configUnread hconfig htext, hread.fail⟩
      | ok text =>
          rw [htext] at hread
          cases hoptions : Asm.Options.read? text with
          | none =>
              refine .inr ⟨_, .configInvalid hconfig htext hoptions, hread.bind ?_⟩
              rw [hoptions]
              exact leads_throw _ files
          | some options =>
              refine .inl ⟨options, .file hconfig htext hoptions, hread.bind ?_⟩
              rw [hoptions]
              exact leads_pure _ files

/-- What is left to do with an assembly text: to show it or to write it. -/
def deliver (arguments : CompileArguments) (assembly : String) :
    ExceptT String (StateM Files) String :=
  if arguments.print then pure assembly
  else do
    ExceptT.mk (Files.host.write arguments.target assembly)
    return "Assembly written to: " ++ arguments.target ++ "\n"

theorem compile_eq (arguments : CompileArguments) :
    compile Files.host arguments = (do
      let options ← loadOptions Files.host arguments
      let text ← readFile Files.host arguments.input
      let assembly ← orReport (Compiler.compileText options arguments.input text)
      deliver arguments assembly) := rfl

/-- What a report says of the result of a command. -/
def Report.ofResult : Except String String → Report
  | .ok output => ⟨0, output, ""⟩
  | .error message => ⟨1, "", "error: " ++ message ++ "\n"⟩

/-- A computation comes to an outcome of a command. -/
def Arrives (action : ExceptT String (StateM Files) String) (files : Files) (command : Command) :
    Prop :=
  ∃ result after, Leads action files result after ∧
    Outcome files command (Report.ofResult result) after

section Arrives

variable {α : Type} {action : ExceptT String (StateM Files) α}
  {next : α → ExceptT String (StateM Files) String} {command : Command} {value : α}
  {message assembly : String} {stage : Stage}

theorem Leads.arrives (h : Leads action files (.ok value) files)
    (hnext : Arrives (next value) files command) : Arrives (action >>= next) files command := by
  obtain ⟨result, after, hleads, houtcome⟩ := hnext
  exact ⟨result, after, h.bind hleads, houtcome⟩

theorem Leads.arrives_failed (h : Leads action files (.error message) files)
    (hfirst : FailsFirst files command stage message) : Arrives (action >>= next) files command :=
  ⟨_, _, h.fail, .failed hfirst⟩

/-- The text of a file that is read. -/
theorem arrives_readFile (command : Command)
    (hconfig : ∀ reason, ¬ Fails files command .config reason)
    {next : String → ExceptT String (StateM Files) String}
    (hnext : ∀ text, files.read command.input = .ok text → Arrives (next text) files command) :
    Arrives (readFile Files.host command.input >>= next) files command := by
  have hread := leads_readFile command.input files
  cases htext : files.read command.input with
  | error fault =>
      rw [htext] at hread
      exact hread.arrives_failed (failsFirst_input hconfig (.inputUnread htext))
  | ok text =>
      rw [htext] at hread
      exact hread.arrives (hnext text htext)

/-- An assembly text is shown, written or lost. -/
theorem arrives_deliver (hconfig : ∀ reason, ¬ Fails files (.compile arguments) .config reason)
    (hgenerates : Generates files arguments assembly) :
    Arrives (deliver arguments assembly) files (.compile arguments) := by
  rw [deliver]
  cases hprint : arguments.print with
  | true => exact ⟨_, _, leads_pure assembly files, .printed hgenerates hprint⟩
  | false =>
      have hwritten := leads_write arguments.target assembly files
      cases hwrite : files.write arguments.target assembly with
      | error fault =>
          rw [hwrite] at hwritten
          exact hwritten.arrives_failed
            (failsFirst_output hconfig (.unwritten hgenerates hprint hwrite))
      | ok after =>
          rw [hwrite] at hwritten
          exact ⟨_, _, hwritten.bind (leads_pure _ after), .written hgenerates hprint hwrite⟩

/-- The stages after the options are there. -/
theorem arrives_compileText {options : Asm.Options} {text : String}
    (hconfigures : Configures files arguments options)
    (hread : files.read arguments.input = .ok text) :
    Arrives (do
      let assembly ←
        orReport (Compiler.compileText (arguments.override options) arguments.input text)
      deliver arguments assembly) files (.compile arguments) := by
  have hconfig : ∀ reason, ¬ Fails files (.compile arguments) .config reason :=
    fun _ => hconfigures.not_fails
  rw [Compiler.compileText]
  -- what fails here is the text as JSON, as a parse tree or as a program
  cases hbuild : Compiler.buildText arguments.input text with
  | error error =>
      obtain ⟨stage, hfirst⟩ := exists_failsFirst_of_buildText hconfig hread hbuild
      exact (leads_orReport (.error error) files).arrives_failed hfirst
  | ok arena =>
      have hbuilds := builds_of_buildText hread hbuild
      show Arrives (orReport (Codegen.assembly (arguments.override options) arena) >>= _) files _
      cases hassembly : Codegen.assembly (arguments.override options) arena with
      | error error =>
          exact (leads_orReport (.error error) files).arrives_failed
            (failsFirst_generation hconfig (.ungenerated hconfigures hbuilds hassembly))
      | ok assembly =>
          exact (leads_orReport (.ok assembly) files).arrives
            (arrives_deliver hconfig ⟨options, arena, hconfigures, hbuilds, hassembly⟩)

theorem arrives_compile (files : Files) (arguments : CompileArguments) :
    Arrives (compile Files.host arguments) files (.compile arguments) := by
  rw [compile_eq]
  obtain ⟨options, hconfigures, hload⟩ | ⟨message, hfails, hload⟩ :=
    exists_leads_loadOptions files arguments
  · apply hload.arrives
    apply arrives_readFile (.compile arguments) fun _ => hconfigures.not_fails
    intro text hread
    exact arrives_compileText hconfigures hread
  · exact hload.arrives_failed (failsFirst_config hfails)

theorem arrives_check (files : Files) (input : String) (dump : Bool) :
    Arrives (check Files.host input dump) files (.check input dump) := by
  have hconfig : ∀ reason, ¬ Fails files (.check input dump) .config reason := by
    intro reason hfails
    cases hfails
  apply arrives_readFile (.check input dump) hconfig
  intro text hread
  cases hbuild : Compiler.buildText input text with
  | error error =>
      obtain ⟨stage, hfirst⟩ := exists_failsFirst_of_buildText hconfig hread hbuild
      exact (leads_orReport (.error error) files).arrives_failed hfirst
  | ok arena =>
      exact ⟨_, _, (leads_orReport (.ok arena) files).bind (leads_pure _ files),
        .checked (builds_of_buildText hread hbuild)⟩

/-- To run a command is to report what its computation comes to. -/
theorem outcome_of_arrives {action : ExceptT String (StateM Files) String}
    (h : Arrives action files command)
    (hrun : (CommandLine.run Files.host command : StateM Files Report) = (do
      match ← action.run with
      | .ok output => return ⟨0, output, ""⟩
      | .error message => return ⟨1, "", "error: " ++ message ++ "\n"⟩)) :
    Outcome files command (files.run command).1 (files.run command).2 := by
  obtain ⟨result, after, hleads, houtcome⟩ := h
  have heq : files.run command = (Report.ofResult result, after) := by
    rw [Files.run, hrun, StateT.run_bind, show action.run.run files = _ from hleads]
    cases result <;> rfl
  rw [heq]
  exact houtcome

end Arrives

/-- A command comes to an outcome. -/
theorem outcome_run (files : Files) (command : Command) :
    Outcome files command (files.run command).1 (files.run command).2 := by
  cases command with
  | compile arguments => exact outcome_of_arrives (arrives_compile files arguments) rfl
  | check input dump => exact outcome_of_arrives (arrives_check files input dump) rfl

end Outcome

end MiniC.CommandLine
