import MiniC.CommandLine.Path

/-!
# Changing the extension of a path

A path is its segments joined by slashes (`join_segments`).  To give it another extension is to
rename its last segment, and only that (`withExtension_eq`).  The name stays the same only if
that was its extension before (`extension_of_renamed_eq_self`).
-/

namespace MiniC.CommandLine.Path

/-! ## Segments -/

theorem join_segments (path : String) : "/".intercalate (segments path) = path := by
  have hchars : (segments path).map String.toList = path.toList.splitOn '/' := by
    rw [segments, List.map_map, Text.split_eq_splitOnP, List.splitOn]
    refine (List.map_congr_left fun chars _ => ?_).trans (List.map_id _)
    exact String.toList_ofList
  rw [← String.toList_inj, String.toList_intercalate, hchars]
  exact List.intercalate_splitOn '/'

theorem segments_join {names : List String} (hne : names ≠ [])
    (hslash : ∀ name ∈ names, '/' ∉ name.toList) : segments ("/".intercalate names) = names := by
  have hsplit : (['/'].intercalate (names.map String.toList)).splitOn '/' =
      names.map String.toList := by
    refine List.splitOn_intercalate '/' ?_ (by simpa using hne)
    intro chars hchars
    obtain ⟨name, hname, rfl⟩ := List.mem_map.mp hchars
    exact hslash name hname
  rw [segments, Text.split_eq_splitOnP, String.toList_intercalate]
  show List.map String.ofList ((['/'].intercalate (names.map String.toList)).splitOn '/') = names
  rw [hsplit, List.map_map]
  refine (List.map_congr_left fun name _ => ?_).trans (List.map_id names)
  exact String.ofList_toList

theorem not_mem_of_mem_segments {path name : String} (h : name ∈ segments path) :
    '/' ∉ name.toList := by
  obtain ⟨chars, hchars, rfl⟩ := List.mem_map.mp h
  intro hslash
  rw [String.toList_ofList] at hslash
  exact absurd (Text.isSeparator_of_mem_split hchars '/' hslash) (by decide)

/-- What ends the last name of a path ends the path. -/
theorem join_append_append (front : List String) (first second : String) :
    "/".intercalate (front ++ [first ++ second]) =
      "/".intercalate (front ++ [first]) ++ second := by
  induction front with
  | nil => rw [List.nil_append, List.nil_append, String.intercalate_singleton,
      String.intercalate_singleton]
  | cons name front ih =>
      rw [List.cons_append, List.cons_append, String.intercalate_cons_of_ne_nil (by simp),
        String.intercalate_cons_of_ne_nil (by simp), ih, String.append_assoc,
        String.append_assoc, String.append_assoc]

/-! ## Extensions -/

/-- A file name that has an extension is made of its stem, which is not empty, a dot and the
extension. -/
theorem splitExtension?_eq_some {name stem extension : String}
    (h : splitExtension? name = some (stem, extension)) :
    name = stem ++ "." ++ extension ∧ stem ≠ "" ∧ name ≠ ".." := by
  rw [splitExtension?] at h
  split at h
  next => cases h
  next hparent =>
    have hne : name ≠ ".." := by simpa using hparent
    dsimp only at h
    split at h
    next => cases h
    next => cases h
    next c rest hstem hlast =>
      cases h
      obtain rfl : c = '.' := by
        have hhead := List.head?_dropWhile_not (· != '.') name.toList.reverse
        rw [hlast] at hhead
        simpa using hhead
      -- the name is read backwards up to its last dot
      have hreversed : name.toList.reverse.takeWhile (· != '.') ++ '.' :: rest =
          name.toList.reverse := by
        rw [← hlast, List.takeWhile_append_dropWhile]
      have hchars := congrArg List.reverse hreversed
      rw [List.reverse_append, List.reverse_cons, List.reverse_reverse] at hchars
      refine ⟨?_, ?_, hne⟩
      · rw [← String.toList_inj]
        apply hchars.symm.trans
        simp only [String.toList_append, String.toList_ofList]
        rfl
      · intro hempty
        have hrest : rest = [] := by simpa using congrArg String.toList hempty
        exact hstem rfl hrest

theorem append_dot_ne {stem other : String} (h : stem ≠ other) : stem ++ "." ≠ other ++ "." :=
  fun heq => h ((String.append_left_inj ".").mp heq)

/-- What follows the last dot of a file name is its extension. -/
theorem splitExtension?_append {stem extension : String} (hstem : stem ≠ "")
    (hextension : '.' ∉ extension.toList) (hparent : stem ++ "." ++ extension ≠ "..") :
    splitExtension? (stem ++ "." ++ extension) = some (stem, extension) := by
  have hne : (stem ++ "." ++ extension == "..") = false := beq_eq_false_iff_ne.mpr hparent
  obtain ⟨c, rest, hrest⟩ : ∃ c rest, stem.toList.reverse = c :: rest := by
    apply List.exists_cons_of_ne_nil
    simpa using hstem
  have hreversed : (stem ++ "." ++ extension).toList.reverse =
      extension.toList.reverse ++ '.' :: c :: rest := by
    rw [String.toList_append, String.toList_append, List.reverse_append, List.reverse_append, hrest]
    rfl
  have hbefore : ∀ d ∈ extension.toList.reverse, (d != '.') = true := by
    intro d hd
    rw [bne_iff_ne]
    rintro rfl
    exact hextension (List.mem_reverse.mp hd)
  have hchars : (c :: rest).reverse = stem.toList := by
    rw [← hrest, List.reverse_reverse]
  rw [splitExtension?, hne, hreversed]
  dsimp only
  rw [List.dropWhile_append_of_pos hbefore, List.takeWhile_append_of_pos hbefore]
  show some (String.ofList (c :: rest).reverse,
    String.ofList (extension.toList.reverse ++ []).reverse) = _
  rw [hchars, List.append_nil, List.reverse_reverse, String.ofList_toList, String.ofList_toList]

/-- A file name that ends in a dot has the empty extension. -/
theorem splitExtension?_dot {stem : String} (hstem : stem ≠ "") (hparent : stem ≠ ".") :
    splitExtension? (stem ++ ".") = some (stem, "") := by
  have hsplit := @splitExtension?_append stem "" hstem (by decide)
  rw [String.append_empty] at hsplit
  exact hsplit (append_dot_ne hparent)

/-- A file name with another extension. -/
def renamed (name extension : String) : String :=
  match splitExtension? name with
  | none => name ++ "." ++ extension
  -- a name such as `..c` comes down to `..`, which is not to be given an extension
  | some (stem, _) => if stem = "." then ".." else stem ++ "." ++ extension

theorem renamed_of_none {name : String} (h : splitExtension? name = none) (extension : String) :
    renamed name extension = name ++ "." ++ extension := by
  rw [renamed, h]

/-- The name stays free of slashes. -/
theorem not_mem_renamed {name extension : String} (hname : '/' ∉ name.toList)
    (hextension : '/' ∉ extension.toList) : '/' ∉ (renamed name extension).toList := by
  have hdotted : ∀ stem : String, '/' ∉ stem.toList → '/' ∉ (stem ++ "." ++ extension).toList := by
    intro stem hstem
    rw [String.toList_append, String.toList_append, List.mem_append, List.mem_append]
    exact not_or.mpr ⟨not_or.mpr ⟨hstem, by decide⟩, hextension⟩
  rw [renamed]
  split
  next => exact hdotted name hname
  next stem old hsplit =>
    by_cases hdot : stem = "."
    · rw [if_pos hdot]
      decide
    · rw [if_neg hdot]
      apply hdotted
      intro hmem
      apply hname
      rw [(splitExtension?_eq_some hsplit).1, String.toList_append, String.toList_append,
        List.append_assoc]
      exact List.mem_append_left _ hmem

theorem renamed_of_some {name stem old : String} (h : splitExtension? name = some (stem, old))
    (extension : String) :
    renamed name extension = if stem = "." then ".." else stem ++ "." ++ extension := by
  rw [renamed, h]

/-- A file name that can be read is kept by a new extension only if it has that extension. -/
theorem extension_of_renamed_eq_self {name extension : String} (hparent : name ≠ "..")
    (h : renamed name extension = name) :
    ∃ stem, splitExtension? name = some (stem, extension) := by
  cases hsplit : splitExtension? name with
  | none =>
      rw [renamed_of_none hsplit] at h
      have hlength := congrArg String.length h
      simp only [String.length_append] at hlength
      have hdot : ".".length = 1 := rfl
      omega
  | some split =>
      obtain ⟨stem, old⟩ := split
      obtain ⟨hname, -, -⟩ := splitExtension?_eq_some hsplit
      rw [renamed_of_some hsplit] at h
      by_cases hdot : stem = "."
      · rw [if_pos hdot] at h
        exact absurd h.symm hparent
      · rw [if_neg hdot, hname] at h
        have hold : extension = old := by
          rw [← String.toList_inj] at h ⊢
          simpa using h
        exact ⟨stem, by rw [hold]⟩

/-! ## File names -/

section FileNames

variable {path name : String} {front : List String}

theorem fileName?_eq (hsegments : segments path = front ++ [name]) (hhere : isHere name = false)
    (hparent : name ≠ "..") : fileName? path = some (name, front.reverse) := by
  have hreverse : (segments path).reverse.dropWhile isHere = name :: front.reverse := by
    rw [hsegments, List.reverse_append, List.reverse_singleton, List.singleton_append,
      List.dropWhile_cons_of_neg (by simp [hhere])]
  rw [fileName?, hreverse]
  exact if_neg (by simpa using hparent)

/-- A path to a directory above has no file name. -/
theorem fileName?_parent (hsegments : segments path = front ++ [".."]) : fileName? path = none := by
  have hreverse : (segments path).reverse.dropWhile isHere = ".." :: front.reverse := by
    rw [hsegments, List.reverse_append, List.reverse_singleton, List.singleton_append,
      List.dropWhile_cons_of_neg (by decide)]
  rw [fileName?, hreverse]
  rfl

theorem withExtension_of_none (h : fileName? (dropExtension path) = none) (extension : String) :
    withExtension path extension = dropExtension path := by
  rw [withExtension, h]

theorem withExtension_of_some {directories : List String}
    (h : fileName? (dropExtension path) = some (name, directories)) (extension : String) :
    withExtension path extension = "/".intercalate (directories.reverse ++
      [((splitExtension? name).map Prod.fst).getD name ++ "." ++ extension]) := by
  rw [withExtension, h]
  show "/".intercalate (_ :: directories).reverse = _
  rw [List.reverse_cons]

end FileNames

/-! ## Paths with an extension -/

section WithExtension

variable {path name : String} {front : List String} (hsegments : segments path = front ++ [name])
include hsegments

/-- The names before the last one hold no slash. -/
theorem segments_join_append {other : String} (hother : '/' ∉ other.toList) :
    segments ("/".intercalate (front ++ [other])) = front ++ [other] := by
  apply segments_join (by simp)
  intro found hfound
  rcases List.mem_append.mp hfound with hfound | hfound
  · have hmem : found ∈ segments path := by
      rw [hsegments]
      exact List.mem_append_left _ hfound
    exact not_mem_of_mem_segments hmem
  · rw [List.mem_singleton.mp hfound]
    exact hother

theorem not_mem_name : '/' ∉ name.toList := by
  have hmem : name ∈ segments path := by
    rw [hsegments]
    exact List.mem_append_right _ List.mem_cons_self
  exact not_mem_of_mem_segments hmem

variable (hhere : isHere name = false) (hparent : name ≠ "..")
include hhere hparent

theorem dropExtension_of_none (hsplit : splitExtension? name = none) :
    dropExtension path = path := by
  have hnone : fileName? path >>= (fun file => splitExtension? file.1) = none := by
    rw [fileName?_eq hsegments hhere hparent]
    exact hsplit
  rw [dropExtension, hnone]

/-- A path without its extension, up to the dot before it. -/
theorem dropExtension_of_some {stem old : String}
    (hsplit : splitExtension? name = some (stem, old)) :
    dropExtension path = "/".intercalate (front ++ [stem ++ "."]) := by
  have hname : name = stem ++ "." ++ old := (splitExtension?_eq_some hsplit).1
  have hpath : path = "/".intercalate (front ++ [stem ++ "."]) ++ old := by
    rw [← join_append_append, ← hname, ← hsegments, join_segments]
  have hfile : fileName? path >>= (fun file => splitExtension? file.1) = some (stem, old) := by
    rw [fileName?_eq hsegments hhere hparent]
    exact hsplit
  have hchars : path.toList.take (path.toList.length - old.toList.length) =
      ("/".intercalate (front ++ [stem ++ "."])).toList := by
    rw [hpath, String.toList_append, List.length_append, Nat.add_sub_cancel, List.take_left]
  rw [dropExtension, hfile]
  show String.ofList _ = _
  rw [hchars, String.ofList_toList]

/-- To give a path another extension is to rename the file. -/
theorem withExtension_eq (extension : String) :
    withExtension path extension = "/".intercalate (front ++ [renamed name extension]) := by
  cases hsplit : splitExtension? name with
  | none =>
      have hfile : fileName? (dropExtension path) = some (name, front.reverse) := by
        rw [dropExtension_of_none hsegments hhere hparent hsplit,
          fileName?_eq hsegments hhere hparent]
      rw [withExtension_of_some hfile, renamed_of_none hsplit, hsplit, List.reverse_reverse]
      rfl
  | some split =>
      obtain ⟨stem, old⟩ := split
      obtain ⟨hname, hstem, -⟩ := splitExtension?_eq_some hsplit
      have hslash : '/' ∉ (stem ++ ".").toList := by
        intro hmem
        apply not_mem_name hsegments
        rw [hname, String.toList_append]
        exact List.mem_append_left _ hmem
      have hdrop := dropExtension_of_some hsegments hhere hparent hsplit
      have hdropped := segments_join_append hsegments hslash
      -- without its extension `..c` is `..`, which names a directory and takes none
      by_cases hdot : stem = "."
      · subst hdot
        have hfile : fileName? (dropExtension path) = none := by
          rw [hdrop]
          exact fileName?_parent hdropped
        rw [withExtension_of_none hfile, hdrop, renamed_of_some hsplit, if_pos rfl]
        rfl
      · have hdotted : isHere (stem ++ ".") = false := by
          have hempty : stem ++ "." ≠ "" := by simp
          simpa [isHere, hempty] using append_dot_ne hstem
        have hproper : stem ++ "." ≠ ".." := append_dot_ne hdot
        have hfile : fileName? (dropExtension path) = some (stem ++ ".", front.reverse) := by
          rw [hdrop]
          exact fileName?_eq hdropped hdotted hproper
        rw [withExtension_of_some hfile, splitExtension?_dot hstem hdot, renamed_of_some hsplit,
          if_neg hdot, List.reverse_reverse]
        rfl

end WithExtension

end MiniC.CommandLine.Path
