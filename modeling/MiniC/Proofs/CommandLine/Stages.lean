import MiniC.CommandLine.Run

/-!
# Stages of a command

A command goes through stages: it reads its options and its input, builds a syntax tree,
generates code and writes it.  `Fails` says for each stage by itself when it fails and with which
text, given what the stages before it make.  What a stage makes is unique, and a stage that makes
something does not fail.  So a stage that fails is the first to do so once the options are there
(`failsFirst_input` and those after it), as it has what the stages before it make.
-/

namespace MiniC.CommandLine

open ParseTree (Production)
open Ast (Arena)

/-! ## Stages -/

/-- The stages of a command. -/
inductive Stage where
  | config | input | building | generation | output
deriving DecidableEq, Repr

/-- How many stages come before a stage. -/
def Stage.rank : Stage → Nat
  | config => 0
  | input => 1
  | building => 2
  | generation => 3
  | output => 4

/-- The file with the parse tree. -/
def Command.input : Command → String
  | compile arguments => arguments.input
  | check input _ => input

/-- The file that the assembly text goes to. -/
def CompileArguments.target (arguments : CompileArguments) : String :=
  arguments.output.getD (Path.withExtension arguments.input "asm")

section Stages

variable (files : Files)

/-- The options of a compilation before those given by arguments: those of a file, or the
defaults. -/
inductive Configures (arguments : CompileArguments) : Asm.Options → Prop where
  | default (h : arguments.config = none) : Configures arguments {}
  | file {path text : String} {options : Asm.Options} (h : arguments.config = some path)
      (hread : files.read path = .ok text) (hoptions : Asm.Options.read? text = some options) :
      Configures arguments options

/-- A file holds a parse tree. -/
def Decodes (input : String) (tree : Production) : Prop :=
  ∃ text, files.read input = .ok text ∧ Production.read? text = some tree

/-- A file holds a parse tree with a syntax tree. -/
def Builds (input : String) (arena : Arena) : Prop :=
  ∃ tree, Decodes files input tree ∧ Compiler.build input tree = .ok arena

/-- A compilation makes an assembly text: that of the syntax tree of its input with its
options. -/
def Generates (arguments : CompileArguments) (assembly : String) : Prop :=
  ∃ options arena, Configures files arguments options ∧ Builds files arguments.input arena ∧
    Codegen.assembly (arguments.override options) arena = .ok assembly

/-- A stage of a command fails, and this text says why.  The reasons why a text is not the
JSON form of options or of a parse tree are one reason here: the words for it stand for
those of the reader of JSON. -/
inductive Fails : Command → Stage → String → Prop where
  | configUnread {arguments : CompileArguments} {path : String} {fault : FileFault}
      (h : arguments.config = some path) (hread : files.read path = .error fault) :
      Fails (.compile arguments) .config fault.message
  | configInvalid {arguments : CompileArguments} {path text : String}
      (h : arguments.config = some path) (hread : files.read path = .ok text)
      (hoptions : Asm.Options.read? text = none) :
      Fails (.compile arguments) .config
        ("invalid config " ++ path ++ ": the text is not the JSON form of options")
  | inputUnread {command : Command} {fault : FileFault}
      (hread : files.read command.input = .error fault) : Fails command .input fault.message
  | inputUndecoded {command : Command} {text : String}
      (hread : files.read command.input = .ok text) (htree : Production.read? text = none) :
      Fails command .input (Compiler.notParseTree command.input).message
  | unbuilt {command : Command} {tree : Production} {error : Error}
      (hdecodes : Decodes files command.input tree)
      (hbuild : Compiler.build command.input tree = .error error) :
      Fails command .building error.message
  | ungenerated {arguments : CompileArguments} {options : Asm.Options} {arena : Arena}
      {error : Error} (hconfigures : Configures files arguments options)
      (hbuilds : Builds files arguments.input arena)
      (hassembly : Codegen.assembly (arguments.override options) arena = .error error) :
      Fails (.compile arguments) .generation error.message
  | unwritten {arguments : CompileArguments} {assembly : String} {fault : FileFault}
      (hgenerates : Generates files arguments assembly) (hprint : arguments.print = false)
      (hwrite : files.write arguments.target assembly = .error fault) :
      Fails (.compile arguments) .output fault.message

/-- A stage of a command is the first to fail. -/
structure FailsFirst (command : Command) (stage : Stage) (message : String) : Prop where
  fails : Fails files command stage message
  first : ∀ other reason, Fails files command other reason → stage.rank ≤ other.rank

end Stages

/-! ## Stages that do not fail -/

section Unique

variable {files : Files} {arguments : CompileArguments} {command : Command} {input message : String}

theorem Configures.unique {first second : Asm.Options} (h : Configures files arguments first)
    (hother : Configures files arguments second) : first = second := by
  cases h with
  | default h =>
      cases hother with
      | default => rfl
      | file hother => exact absurd (h.symm.trans hother) (by simp)
  | file h hread hoptions =>
      cases hother with
      | default hother => exact absurd (hother.symm.trans h) (by simp)
      | file hother hotherRead hotherOptions =>
          cases h.symm.trans hother
          cases hread.symm.trans hotherRead
          exact Option.some.inj (hoptions.symm.trans hotherOptions)

theorem Decodes.unique {first second : Production} (h : Decodes files input first)
    (hother : Decodes files input second) : first = second := by
  obtain ⟨text, hread, htree⟩ := h
  obtain ⟨otherText, hotherRead, hotherTree⟩ := hother
  cases hread.symm.trans hotherRead
  exact Option.some.inj (htree.symm.trans hotherTree)

theorem Builds.unique {first second : Arena} (h : Builds files input first)
    (hother : Builds files input second) : first = second := by
  obtain ⟨tree, hdecodes, hbuild⟩ := h
  obtain ⟨otherTree, hotherDecodes, hotherBuild⟩ := hother
  cases hdecodes.unique hotherDecodes
  cases hbuild.symm.trans hotherBuild
  rfl

theorem Generates.unique {first second : String} (h : Generates files arguments first)
    (hother : Generates files arguments second) : first = second := by
  obtain ⟨options, arena, hconfigures, hbuilds, hassembly⟩ := h
  obtain ⟨otherOptions, otherArena, hotherConfigures, hotherBuilds, hotherAssembly⟩ := hother
  cases hconfigures.unique hotherConfigures
  cases hbuilds.unique hotherBuilds
  cases hassembly.symm.trans hotherAssembly
  rfl

theorem Configures.not_fails {options : Asm.Options} (h : Configures files arguments options) :
    ¬ Fails files (.compile arguments) .config message := by
  intro hfails
  cases hfails with
  | configUnread hpath hread =>
      cases h with
      | default hnone => exact absurd (hnone.symm.trans hpath) (by simp)
      | file hother hotherRead =>
          cases hpath.symm.trans hother
          exact absurd (hread.symm.trans hotherRead) (by simp)
  | configInvalid hpath hread hoptions =>
      cases h with
      | default hnone => exact absurd (hnone.symm.trans hpath) (by simp)
      | file hother hotherRead hotherOptions =>
          cases hpath.symm.trans hother
          cases hread.symm.trans hotherRead
          exact absurd (hoptions.symm.trans hotherOptions) (by simp)

theorem Decodes.not_fails {tree : Production} (h : Decodes files command.input tree) :
    ¬ Fails files command .input message := by
  obtain ⟨text, hread, htree⟩ := h
  intro hfails
  cases hfails with
  | inputUnread hother => exact absurd (hother.symm.trans hread) (by simp)
  | inputUndecoded hother hnone =>
      cases hread.symm.trans hother
      exact absurd (hnone.symm.trans htree) (by simp)

theorem Builds.not_fails {arena : Arena} (h : Builds files command.input arena) :
    ¬ Fails files command .building message := by
  obtain ⟨tree, hdecodes, hbuild⟩ := h
  intro hfails
  cases hfails with
  | unbuilt hother herror =>
      cases hdecodes.unique hother
      exact absurd (herror.symm.trans hbuild) (by simp)

/-- A file is built after it was read. -/
theorem Builds.not_fails_input {arena : Arena} (h : Builds files command.input arena) :
    ¬ Fails files command .input message := by
  obtain ⟨tree, hdecodes, -⟩ := h
  exact hdecodes.not_fails

theorem Generates.not_fails {assembly : String} (h : Generates files arguments assembly) :
    ¬ Fails files (.compile arguments) .generation message := by
  obtain ⟨options, arena, hconfigures, hbuilds, hassembly⟩ := h
  intro hfails
  cases hfails with
  | ungenerated hother hotherBuilds herror =>
      cases hconfigures.unique hother
      cases hbuilds.unique hotherBuilds
      exact absurd (herror.symm.trans hassembly) (by simp)

end Unique

/-! ## The first stage that fails -/

section First

variable {files : Files} {command : Command} {text message : String}

theorem failsFirst_config (h : Fails files command .config message) :
    FailsFirst files command .config message :=
  ⟨h, fun _ _ _ => Nat.zero_le _⟩

/-- A stage is the first to fail if the stages before it do not. -/
theorem failsFirst_of_not_fails {stage : Stage} (h : Fails files command stage message)
    (hbefore : ∀ other reason, other.rank < stage.rank → ¬ Fails files command other reason) :
    FailsFirst files command stage message := by
  refine ⟨h, fun other reason hother => Nat.le_of_not_lt fun hrank => ?_⟩
  exact hbefore other reason hrank hother

variable (hconfig : ∀ reason, ¬ Fails files command .config reason)
include hconfig

theorem failsFirst_input (h : Fails files command .input message) :
    FailsFirst files command .input message := by
  apply failsFirst_of_not_fails h
  intro other reason hrank
  cases other with
  | config => exact hconfig reason
  | _ => simp [Stage.rank] at hrank

theorem failsFirst_building (h : Fails files command .building message) :
    FailsFirst files command .building message := by
  apply failsFirst_of_not_fails h
  cases h with
  | unbuilt hdecodes hbuild =>
      intro other reason hrank
      cases other with
      | config => exact hconfig reason
      | input => exact hdecodes.not_fails
      | _ => simp [Stage.rank] at hrank

theorem failsFirst_generation (h : Fails files command .generation message) :
    FailsFirst files command .generation message := by
  apply failsFirst_of_not_fails h
  cases h with
  | ungenerated hconfigures hbuilds hassembly =>
      intro other reason hrank
      cases other with
      | config => exact hconfig reason
      | input => exact Builds.not_fails_input hbuilds
      | building => exact Builds.not_fails hbuilds
      | _ => simp [Stage.rank] at hrank

theorem failsFirst_output (h : Fails files command .output message) :
    FailsFirst files command .output message := by
  apply failsFirst_of_not_fails h
  cases h with
  | unwritten hgenerates hprint hwrite =>
      intro other reason hrank
      obtain ⟨options, arena, -, hbuilds, -⟩ := id hgenerates
      cases other with
      | config => exact hconfig reason
      | input => exact Builds.not_fails_input hbuilds
      | building => exact Builds.not_fails hbuilds
      | generation => exact hgenerates.not_fails
      | output => simp [Stage.rank] at hrank

/-- A text without a syntax tree has no parse tree either, or its parse tree has no syntax
tree. -/
theorem exists_failsFirst_of_buildText {error : Error} (hread : files.read command.input = .ok text)
    (h : Compiler.buildText command.input text = .error error) :
    ∃ stage, FailsFirst files command stage error.message := by
  rw [Compiler.buildText, Compiler.read] at h
  cases htree : ParseTree.Production.read? text with
  | none =>
      rw [htree] at h
      cases h
      exact ⟨.input, failsFirst_input hconfig (.inputUndecoded hread htree)⟩
  | some tree =>
      rw [htree] at h
      exact ⟨.building, failsFirst_building hconfig (.unbuilt ⟨text, hread, htree⟩ h)⟩

omit hconfig in
theorem builds_of_buildText {arena : Arena} {input : String} (hread : files.read input = .ok text)
    (h : Compiler.buildText input text = .ok arena) : Builds files input arena := by
  rw [Compiler.buildText, Compiler.read] at h
  cases htree : ParseTree.Production.read? text with
  | none =>
      rw [htree] at h
      cases h
  | some tree =>
      rw [htree] at h
      exact ⟨tree, ⟨text, hread, htree⟩, h⟩

end First

end MiniC.CommandLine
