import MiniC.Proofs.CommandLine.Path
import MiniC.Proofs.CommandLine.Runs

/-!
# Files that a compilation overwrites

A compilation without a given output writes its text next to its input, at the path of the input
with the extension `asm`.  Nothing compares this path with those of the files that were read, so
that the file at it can be one of them (`overwritten_input`).  No other file that was read
changes, and the input is overwritten only if that is its extension (`read_of_compile`).
-/

namespace MiniC.CommandLine

/-- A path to a file with the extension of assembly texts. -/
def Path.IsAssembly (path : String) : Prop :=
  ∃ front stem, segments path = front ++ [stem ++ ".asm"] ∧ stem ≠ ""

theorem Path.splitExtension?_asm {stem : String} (hstem : stem ≠ "") :
    splitExtension? (stem ++ ".asm") = some (stem, "asm") := by
  have hsplit := @splitExtension?_append stem "asm" hstem (by decide)
  rw [String.append_assoc] at hsplit
  apply hsplit
  intro heq
  have hlength := congrArg String.length heq
  rw [String.length_append] at hlength
  have hsuffix : ("." ++ "asm").length = 4 := rfl
  have hparent : "..".length = 2 := rfl
  omega

section Paths

variable {files : Files} {path : String} {place : Address}

/-- If the path for the assembly text of an input leads to the input, then the input has the
extension of assembly texts. -/
theorem isAssembly_of_leadsTo (h : files.LeadsTo path place)
    (htarget : files.LeadsTo (Path.withExtension path "asm") place) : Path.IsAssembly path := by
  obtain ⟨front, name, hsegments, hname⟩ := h.exists_name
  obtain ⟨others, other, htargetSegments, hother⟩ := htarget.exists_name
  have hslash : '/' ∉ (Path.renamed name "asm").toList :=
    Path.not_mem_renamed (Path.not_mem_name hsegments) (by decide)
  rw [Path.withExtension_eq hsegments hname.isHere_eq hname.name_ne,
    Path.segments_join_append hsegments hslash] at htargetSegments
  obtain ⟨-, hlast⟩ := List.append_inj' htargetSegments rfl
  have hrenamed : Path.renamed name "asm" = name :=
    (List.cons.inj hlast).1.trans (hother.unique hname)
  obtain ⟨stem, hsplit⟩ := Path.extension_of_renamed_eq_self hname.name_ne hrenamed
  obtain ⟨rfl, hstem, -⟩ := Path.splitExtension?_eq_some hsplit
  exact ⟨front, stem, by rw [hsegments, String.append_assoc]; rfl, hstem⟩

/-- The path for the assembly text of an input that has its extension is the path of the input,
if a file can be there. -/
theorem withExtension_eq_self (h : files.LeadsTo path place)
    (htarget : ∃ other, files.LeadsTo (Path.withExtension path "asm") other)
    (hassembly : Path.IsAssembly path) : Path.withExtension path "asm" = path := by
  obtain ⟨front, stem, hsegments, hstem⟩ := hassembly
  obtain ⟨others, name, hother, hname⟩ := h.exists_name
  obtain ⟨-, hlast⟩ := List.append_inj' (hsegments.symm.trans hother) rfl
  cases hlast
  have hsplit := Path.splitExtension?_asm hstem
  have heq := Path.withExtension_eq hsegments hname.isHere_eq hname.name_ne "asm"
  rw [Path.renamed_of_some hsplit] at heq
  by_cases hdot : stem = "."
  · -- the name of the target would be that of the directory above
    obtain ⟨place, htarget⟩ := htarget
    obtain ⟨names, last, htargetSegments, hlast⟩ := htarget.exists_name
    rw [heq, if_pos hdot, Path.segments_join_append hsegments (by decide)] at htargetSegments
    obtain ⟨-, hparent⟩ := List.append_inj' htargetSegments rfl
    exact absurd (List.cons.inj hparent).1.symm hlast.name_ne
  · rw [if_neg hdot, String.append_assoc] at heq
    rw [heq]
    show "/".intercalate (front ++ [stem ++ ".asm"]) = path
    rw [← hsegments, Path.join_segments]

end Paths

/-! ## What is left of the files that were read -/

/-- A compilation writes to the place that a path leads to. -/
def Overwrites (files : Files) (arguments : CompileArguments) (report : Report) (path : String) :
    Prop :=
  report.exit = 0 ∧ arguments.print = false ∧
    ∃ place, files.LeadsTo arguments.target place ∧ files.LeadsTo path place

section Reads

variable {files : Files} {arguments : CompileArguments} {assembly path : String}

/-- The files that a compilation reads are there, if it makes an assembly text. -/
theorem Generates.exists_leadsTo (h : Generates files arguments assembly)
    (hpath : path = arguments.input ∨ arguments.config = some path) :
    ∃ place, files.LeadsTo path place := by
  obtain ⟨options, arena, hconfigures, ⟨tree, ⟨text, hread, htree⟩, hbuild⟩, hassembly⟩ := h
  rcases hpath with rfl | hpath
  · exact Files.exists_leadsTo_of_read hread
  · cases hconfigures with
    | default hconfig => exact absurd (hconfig.symm.trans hpath) (by simp)
    | file hconfig hread hoptions =>
        cases hconfig.symm.trans hpath
        exact Files.exists_leadsTo_of_read hread

end Reads

section Outcomes

variable {files after : Files} {arguments : CompileArguments} {report : Report} {path : String}

/-- A file that a compilation reads is as it was unless it is written over. -/
theorem Outcome.read_eq (h : Outcome files (.compile arguments) report after)
    (hpath : path = arguments.input ∨ arguments.config = some path) :
    (¬ Overwrites files arguments report path → after.read path = files.read path) ∧
    (Overwrites files arguments report path →
      ∃ assembly, Generates files arguments assembly ∧ after.read path = .ok assembly) := by
  cases h with
  | failed => exact ⟨fun _ => rfl, fun hover => absurd hover.1 (by simp)⟩
  | printed hgenerates hprint =>
      refine ⟨fun _ => rfl, ?_⟩
      intro hover
      exact absurd (hprint.symm.trans hover.2.1) (by simp)
  | @written _ assembly _ hgenerates hprint hwrite =>
      obtain ⟨target, htarget, rfl⟩ := Files.write_eq_ok.mp hwrite
      obtain ⟨place, hplace⟩ := hgenerates.exists_leadsTo hpath
      have hread : (files.put target assembly).read path =
          if place = target then .ok assembly else files.read path :=
        Files.read_put assembly hplace
      by_cases hsame : place = target
      · subst hsame
        rw [if_pos rfl] at hread
        refine ⟨fun hnot => absurd ?_ hnot, fun _ => ⟨assembly, hgenerates, hread⟩⟩
        exact ⟨rfl, hprint, place, htarget, hplace⟩
      · rw [if_neg hsame] at hread
        refine ⟨fun _ => hread, ?_⟩
        rintro ⟨-, -, common, hcommon, hother⟩
        exact absurd ((hplace.unique hother).trans (hcommon.unique htarget)) hsame

/-- The input of a compilation that writes is there, and so is a place for the target. -/
theorem Outcome.exists_leadsTo (h : Outcome files (.compile arguments) report after)
    (hexit : report.exit = 0) (hprint : arguments.print = false) :
    (∃ place, files.LeadsTo arguments.input place) ∧
      ∃ place, files.LeadsTo arguments.target place := by
  cases h with
  | failed => cases hexit
  | printed hgenerates hother => exact absurd (hprint.symm.trans hother) (by simp)
  | written hgenerates hother hwrite =>
      obtain ⟨target, htarget, -⟩ := Files.write_eq_ok.mp hwrite
      exact ⟨hgenerates.exists_leadsTo (.inl rfl), target, htarget⟩

/-- Without a given output, the input is written over if it has the extension of assembly
texts. -/
theorem Outcome.overwrites_input (h : Outcome files (.compile arguments) report after)
    (houtput : arguments.output = none) :
    Overwrites files arguments report arguments.input ↔
      report.exit = 0 ∧ arguments.print = false ∧ Path.IsAssembly arguments.input := by
  have htarget : arguments.target = Path.withExtension arguments.input "asm" := by
    rw [CompileArguments.target, houtput, Option.getD_none]
  constructor
  · rintro ⟨hexit, hprint, place, hplace, hinput⟩
    rw [htarget] at hplace
    exact ⟨hexit, hprint, isAssembly_of_leadsTo hinput hplace⟩
  · rintro ⟨hexit, hprint, hassembly⟩
    obtain ⟨⟨place, hinput⟩, hplace⟩ := h.exists_leadsTo hexit hprint
    rw [htarget] at hplace
    have hsame := withExtension_eq_self hinput hplace hassembly
    refine ⟨hexit, hprint, place, ?_, hinput⟩
    rw [htarget, hsame]
    exact hinput

end Outcomes

/-- **What a compilation leaves of the files that it reads.**  Without a given output, its input
and its file with options are as they were, unless it writes to the place of one of them: then
the assembly text is there.  The input is written over just when it has the extension of assembly
texts and the compilation succeeds and is to write. -/
theorem read_of_compile (files : Files) (arguments : CompileArguments)
    (houtput : arguments.output = none) :
    let report := (files.run (.compile arguments)).1
    let after := (files.run (.compile arguments)).2
    (∀ path, path = arguments.input ∨ arguments.config = some path →
      (¬ Overwrites files arguments report path → after.read path = files.read path) ∧
      (Overwrites files arguments report path →
        ∃ assembly, Generates files arguments assembly ∧ after.read path = .ok assembly)) ∧
    (Overwrites files arguments report arguments.input ↔
      report.exit = 0 ∧ arguments.print = false ∧ Path.IsAssembly arguments.input) := by
  intro report after
  have houtcome : Outcome files (.compile arguments) report after := outcome_run files _
  exact ⟨fun _ hpath => houtcome.read_eq hpath, houtcome.overwrites_input houtput⟩

namespace Sample

/-- A file with a parse tree, and a file with options. -/
def directory (input : String) : Files where
  entries := [(⟨0, [input]⟩, "\x7b\"rule\":\"compile_unit\"\x7d"), (⟨0, ["options"]⟩, "\x7b\x7d")]

end Sample

/-- Neither of two files with other extensions is written over. -/
theorem read_of_compile_sample :
    let files := Sample.directory "a.b.json"
    let after := (files.run (.compile { input := "a.b.json", config := some "options" })).2
    after.read "a.b.json" = files.read "a.b.json" ∧
      after.read "options" = files.read "options" := by
  intro files after
  obtain ⟨hreads, hinput⟩ :=
    read_of_compile files { input := "a.b.json", config := some "options" } rfl
  refine ⟨(hreads _ (.inl rfl)).1 fun hover => ?_, (hreads _ (.inr rfl)).1 fun hover => ?_⟩
  · obtain ⟨-, -, front, stem, hsegments, -⟩ := hinput.mp hover
    have hone : Path.segments "a.b.json" = [] ++ ["a.b.json"] := by decide +kernel
    obtain ⟨-, hname⟩ := List.append_inj' (hone.symm.trans hsegments) rfl
    have hlast := congrArg List.getLast? (congrArg String.toList (List.cons.inj hname).1)
    simp at hlast
  · obtain ⟨-, -, place, htarget, hoptions⟩ := hover
    have hfound : files.target "options" = .file ⟨0, ["options"]⟩ "\x7b\x7d" := by rfl
    have hfree : files.target "a.b.asm" = .free ⟨0, ["a.b.asm"]⟩ := by rfl
    have hplace : (⟨0, ["options"]⟩ : Address) = place := by
      rw [Files.LeadsTo, hfound] at hoptions
      exact Target.isAt_file.mp hoptions
    have hother : (⟨0, ["a.b.asm"]⟩ : Address) = place := by
      have hnamed : files.LeadsTo "a.b.asm" place := htarget
      rw [Files.LeadsTo, hfree] at hnamed
      exact Target.isAt_free.mp hnamed
    exact absurd (hplace.trans hother.symm) (by decide)

/-- A compilation can write over its input. -/
theorem overwritten_input :
    ¬ ∀ (files : Files) (arguments : CompileArguments), arguments.output = none →
      let after := (files.run (.compile arguments)).2
      after.read arguments.input = files.read arguments.input ∧
      ∀ path, arguments.config = some path → after.read path = files.read path := by
  intro h
  have hread := (h (Sample.directory "a.asm") { input := "a.asm" } rfl).1
  have htext := congrArg Except.toOption hread
  revert htext
  decide +kernel

end MiniC.CommandLine
