import MiniC.Proofs.Asm.Options
import MiniC.Proofs.CommandLine.Runs

/-!
# Commands do all or nothing

A command that fails reports the first stage that does so, shows nothing and writes nothing.  A
compilation that does not fail writes the assembly text of its input, or shows it, and changes
nothing else (`allOrNothing_run`).  The options of the text are those that the file with options
describes, up to the ones given by arguments.
-/

namespace MiniC.CommandLine

open Ast (Arena)

/-- The options before those given by arguments: what the record in a file describes, with
defaults for what it leaves out, or all defaults without a file. -/
def Described (files : Files) (arguments : CompileArguments) (options : Asm.Options) : Prop :=
  (arguments.config = none ∧ options = {}) ∨
    ∃ path text record, arguments.config = some path ∧ files.read path = .ok text ∧
      Json.Value.read? text = some record ∧ Asm.Options.Describes record options

/-- Arguments replace the options that they give, and leave the others as they are. -/
structure Replaces (arguments : CompileArguments) (described options : Asm.Options) : Prop where
  processor : options.processor = described.processor
  memoryModel : options.memoryModel = described.memoryModel
  stackSize : options.stackSize = arguments.stackSize.getD described.stackSize
  entryPoint : options.entryPoint = arguments.entry.getD described.entryPoint
  indent : options.style.indent = described.style.indent
  ending : options.style.ending = if arguments.crlf then .crlf else described.style.ending

/-- An assembly text is the one of the input of a compilation with its options. -/
def IsAssemblyOf (files : Files) (arguments : CompileArguments) (assembly : String) : Prop :=
  ∃ described options arena, Described files arguments described ∧
    Replaces arguments described options ∧ Builds files arguments.input arena ∧
    Codegen.assembly options arena = .ok assembly

/-- What a command that does not fail shows, and the files after it. -/
def Completes (files : Files) : Command → Report → Files → Prop
  | .check input dump, report, after =>
      after = files ∧ ∃ arena, Builds files input arena ∧
        report.output = (if dump then arena.toJson.pretty ++ "\n" else "") ++ input ++ ": " ++
          toString arena.size ++ " AST nodes\n"
  | .compile arguments, report, after =>
      ∃ assembly, IsAssemblyOf files arguments assembly ∧
        if arguments.print then report.output = assembly ∧ after = files
        else
          report.output = "Assembly written to: " ++ arguments.target ++ "\n" ∧
          Files.Written files after arguments.target assembly

variable {files after : Files} {arguments : CompileArguments} {command : Command} {report : Report}

theorem Configures.described {options : Asm.Options} (h : Configures files arguments options) :
    Described files arguments options := by
  cases h with
  | default hconfig => exact .inl ⟨hconfig, rfl⟩
  | file hconfig hread hoptions =>
      obtain ⟨record, hrecord, hdescribes⟩ := Asm.Options.describes_of_read? hoptions
      exact .inr ⟨_, _, record, hconfig, hread, hrecord, hdescribes⟩

theorem replaces_override (arguments : CompileArguments) (described : Asm.Options) :
    Replaces arguments described (arguments.override described) where
  processor := rfl
  memoryModel := rfl
  stackSize := rfl
  entryPoint := rfl
  indent := by
    rw [CompileArguments.override]
    cases arguments.crlf <;> rfl
  ending := by
    rw [CompileArguments.override]
    cases arguments.crlf <;> rfl

theorem Generates.isAssemblyOf {assembly : String} (h : Generates files arguments assembly) :
    IsAssemblyOf files arguments assembly := by
  obtain ⟨described, arena, hconfigures, hbuilds, hassembly⟩ := h
  exact ⟨described, _, arena, hconfigures.described, replaces_override arguments described, hbuilds,
    hassembly⟩

/-- After an assembly text is made, only writing it can fail. -/
theorem Generates.output_of_fails {assembly message : String} {stage : Stage}
    (h : Generates files arguments assembly)
    (hfails : Fails files (.compile arguments) stage message) :
    arguments.print = false ∧ ∃ fault, files.write arguments.target assembly = .error fault := by
  obtain ⟨options, arena, hconfigures, hbuilds, -⟩ := id h
  cases stage with
  | config => exact absurd hfails hconfigures.not_fails
  | input =>
      obtain ⟨tree, hdecodes, -⟩ := hbuilds
      exact absurd hfails (Decodes.not_fails hdecodes)
  | building => exact absurd hfails (Builds.not_fails hbuilds)
  | generation => exact absurd hfails h.not_fails
  | output =>
      cases hfails with
      | unwritten hgenerates hprint hwrite =>
          cases h.unique hgenerates
          exact ⟨hprint, _, hwrite⟩

/-- A command with exit status 0 has no stage that fails. -/
theorem Outcome.not_fails (h : Outcome files command report after) (hexit : report.exit = 0)
    (stage : Stage) (message : String) : ¬ Fails files command stage message := by
  intro hfails
  cases h with
  | failed => cases hexit
  | printed hgenerates hprint =>
      obtain ⟨hother, -⟩ := hgenerates.output_of_fails hfails
      exact absurd (hprint.symm.trans hother) (by decide)
  | written hgenerates hprint hwrite =>
      obtain ⟨-, fault, hother⟩ := hgenerates.output_of_fails hfails
      exact absurd (hwrite.symm.trans hother) (by simp)
  | checked hbuilds =>
      obtain ⟨tree, hdecodes, -⟩ := id hbuilds
      cases stage with
      | input => exact Decodes.not_fails hdecodes hfails
      | building => exact Builds.not_fails hbuilds hfails
      | _ => cases hfails

theorem Outcome.exit_eq (h : Outcome files command report after) :
    report.exit = 0 ∨ report.exit = 1 := by
  cases h with
  | failed => exact .inr rfl
  | printed | written | checked => exact .inl rfl

/-- What a command that fails leaves behind. -/
theorem Outcome.of_exit_one (h : Outcome files command report after) (hexit : report.exit = 1) :
    report.output = "" ∧ after = files ∧
      ∃ stage message, FailsFirst files command stage message ∧
        report.errors = "error: " ++ message ++ "\n" := by
  cases h with
  | failed hfirst => exact ⟨rfl, rfl, _, _, hfirst, rfl⟩
  | printed | written | checked => cases hexit

/-- What a command leaves behind that does not fail. -/
theorem Outcome.of_exit_zero (h : Outcome files command report after) (hexit : report.exit = 0) :
    report.errors = "" ∧ Completes files command report after := by
  cases h with
  | failed => cases hexit
  | @printed arguments assembly hgenerates hprint =>
      refine ⟨rfl, assembly, hgenerates.isAssemblyOf, ?_⟩
      rw [if_pos hprint]
      exact ⟨rfl, rfl⟩
  | @written arguments assembly after hgenerates hprint hwrite =>
      refine ⟨rfl, assembly, hgenerates.isAssemblyOf, ?_⟩
      rw [if_neg (by simp [hprint])]
      exact ⟨rfl, Files.written_of_write hwrite⟩
  | checked hbuilds => exact ⟨rfl, rfl, _, hbuilds, rfl⟩

/-- **Commands do all or nothing.**  A command has exit status 1 if one of its stages fails, and
0 otherwise.  If it fails, it shows nothing, changes no file and reports the first stage to fail,
in the order options, input, syntax tree, code and output.  If it does not fail, it reports no
error, and a compilation shows the assembly text of its input and changes no file, or writes the
text to its target and changes nothing else.  A check changes no file. -/
theorem allOrNothing_run (files : Files) (command : Command) :
    let report := (files.run command).1
    let after := (files.run command).2
    (report.exit = 0 ∨ report.exit = 1) ∧
    (report.exit = 1 ↔ ∃ stage message, Fails files command stage message) ∧
    (report.exit = 1 → report.output = "" ∧ after = files ∧
      ∃ stage message, FailsFirst files command stage message ∧
        report.errors = "error: " ++ message ++ "\n") ∧
    (report.exit = 0 → report.errors = "" ∧ Completes files command report after) := by
  intro report after
  have houtcome : Outcome files command report after := outcome_run files command
  refine ⟨houtcome.exit_eq, ⟨?_, ?_⟩, houtcome.of_exit_one, houtcome.of_exit_zero⟩
  · intro hexit
    obtain ⟨-, -, stage, message, hfirst, -⟩ := houtcome.of_exit_one hexit
    exact ⟨stage, message, hfirst.fails⟩
  · rintro ⟨stage, message, hfails⟩
    apply houtcome.exit_eq.resolve_left
    intro hexit
    exact houtcome.not_fails hexit stage message hfails

end MiniC.CommandLine
