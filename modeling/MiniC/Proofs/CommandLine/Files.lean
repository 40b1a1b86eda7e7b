import MiniC.CommandLine.Files

/-!
# What writing a file changes

A path leads to a place if it names a file there or could name one (`LeadsTo`).  A text that
is written to a path is put at the place that the path leads to, and nothing else changes
(`write_eq_ok`, `written_of_write`).  So the text is read at this path from then on
(`read_of_write`), and a file that is read at another path stays as it is unless that path leads
to the same place (`read_put`).
-/

namespace MiniC.CommandLine

namespace Target

/-- What is found is a file at a place, or a place for one. -/
def IsAt (address : Address) (target : Target) : Prop :=
  (∃ text, target = .file address text) ∨ target = .free address

variable {address place : Address} {text : String}

theorem isAt_file : (file place text).IsAt address ↔ place = address := by
  constructor
  · rintro (⟨old, h⟩ | h) <;> cases h
    rfl
  · rintro rfl
    exact .inl ⟨text, rfl⟩

theorem isAt_free : (free place).IsAt address ↔ place = address := by
  constructor
  · rintro (⟨old, h⟩ | h) <;> cases h
    rfl
  · rintro rfl
    exact .inr rfl

theorem not_isAt_directory : ¬ directory.IsAt address := by
  rintro (⟨old, h⟩ | h) <;> cases h

theorem not_isAt_fault {reason : FileFault} : ¬ (fault reason).IsAt address := by
  rintro (⟨old, h⟩ | h) <;> cases h

end Target

namespace Files

/-- A path leads to a place in a directory that is there: a file, or where none is yet. -/
def LeadsTo (files : Files) (path : String) (address : Address) : Prop :=
  (files.target path).IsAt address

variable {files after : Files} {directory address place : Address} {segments : List String}
  {path text : String}

/-! ## Texts at places -/

theorem text?_put_of_ne {other : Address} (h : other ≠ address) (text : String) :
    (files.put address text).text? other = files.text? other := by
  -- only the entry of the place itself is taken out
  have hfilter : ∀ entries : List (Address × String),
      (entries.filter (·.1 != address)).lookup other = entries.lookup other := by
    intro entries
    induction entries with
    | nil => rfl
    | cons entry entries ih =>
        obtain ⟨found, old⟩ := entry
        by_cases hfound : found = address
        · have hother : (other == found) = false := by simpa [hfound] using h
          rw [List.filter_cons_of_neg (by simp [hfound]), ih, List.lookup_cons, hother]
        · rw [List.filter_cons_of_pos (by simp [hfound]), List.lookup_cons, List.lookup_cons, ih]
  have hother : (other == address) = false := by simpa using h
  rw [text?, put, List.lookup_cons, hother]
  exact hfilter files.entries

/-- What is at a place that is no directory: a file, or none yet. -/
def lookAt (files : Files) (address : Address) : Target :=
  match files.text? address with
  | some text => .file address text
  | none => .free address

theorem lookAt_put (text : String) :
    (files.put address text).lookAt place =
      if place = address then .file place text else files.lookAt place := by
  by_cases h : place = address
  · subst h
    rw [if_pos rfl, lookAt, text?_put]
  · rw [if_neg h, lookAt, lookAt, text?_put_of_ne h]

/-! ## Following segments -/

/-- The last segment of a path, unless it leads to a directory. -/
theorem follow_last {segment : String} (hhere : ¬ Path.isHere segment = true)
    (hparent : ¬ (segment == "..") = true) (hshort : ¬ nameLimit < segment.utf8ByteSize)
    (hfile : ¬ files.isDirectory (directory.child segment) = true) :
    files.follow directory [segment] = files.lookAt (directory.child segment) := by
  rw [follow, if_neg hhere, if_neg hparent, if_neg hshort]
  dsimp only
  rw [if_neg hfile]
  rfl

/-- A text that is put somewhere is found there, and what leads to another place leads to
the same as before. -/
theorem follow_put (text : String) (h : (files.follow directory segments).IsAt place) :
    (files.put address text).follow directory segments =
      if place = address then .file place text else files.follow directory segments := by
  -- the cases in which the path ends at a directory or a fault lead to no place
  fun_induction files.follow directory segments with
  | case1 => exact absurd h Target.not_isAt_directory
  | case2 directory segment rest hhere ih => rw [follow, if_pos hhere, ih h]
  | case3 directory segment rest hhere hparent ih =>
      rw [follow, if_neg hhere, if_pos hparent, ih h]
  | case4 => exact absurd h Target.not_isAt_fault
  | case5 directory segment rest hhere hparent hshort child hchild ih =>
      rw [follow, if_neg hhere, if_neg hparent, if_neg hshort]
      exact (if_pos hchild).trans (ih h)
  | case6 directory segment rest hhere hparent hshort child hchild old hold hlast =>
      obtain rfl := List.isEmpty_iff.mp hlast
      obtain rfl := Target.isAt_file.mp h
      have hput : ¬ (files.put address text).isDirectory (directory.child segment) = true := hchild
      rw [follow_last hhere hparent hshort hput]
      refine (lookAt_put text).trans ?_
      rw [lookAt, hold]
  | case7 => exact absurd h Target.not_isAt_fault
  | case8 directory segment rest hhere hparent hshort child hchild hold hlast =>
      obtain rfl := List.isEmpty_iff.mp hlast
      obtain rfl := Target.isAt_free.mp h
      have hput : ¬ (files.put address text).isDirectory (directory.child segment) = true := hchild
      rw [follow_last hhere hparent hshort hput]
      refine (lookAt_put text).trans ?_
      rw [lookAt, hold]
  | case9 => exact absurd h Target.not_isAt_fault

/-- A segment is the name of a place in a directory. -/
structure Names (name : String) (place : Address) : Prop where
  isHere_eq : Path.isHere name = false
  name_ne : name ≠ ".."
  place_eq : ∃ inner : Address, place = inner.child name

theorem names_child {segment : String} (hhere : ¬ Path.isHere segment = true)
    (hparent : ¬ (segment == "..") = true) (directory : Address) :
    Names segment (directory.child segment) :=
  ⟨by simpa using hhere, by simpa using hparent, directory, rfl⟩

/-- A place has one name. -/
theorem Names.unique {name other : String} (h : Names name place) (hother : Names other place) :
    name = other := by
  obtain ⟨inner, rfl⟩ := h.place_eq
  obtain ⟨otherInner, hplace⟩ := hother.place_eq
  have hnames : inner.names ++ [name] = otherInner.names ++ [other] :=
    congrArg Address.names hplace
  obtain ⟨-, hname⟩ := List.append_inj' hnames rfl
  exact (List.cons.inj hname).1

/-- The last of the segments that lead to a place is its name. -/
theorem exists_name (h : (files.follow directory segments).IsAt place) :
    ∃ front name, segments = front ++ [name] ∧ Names name place := by
  fun_induction files.follow directory segments with
  | case1 => exact absurd h Target.not_isAt_directory
  | case2 directory segment rest hhere ih
  | case3 directory segment rest hhere hparent ih
  | case5 directory segment rest hhere hparent hshort child hchild ih =>
      obtain ⟨front, name, rfl, hname⟩ := ih h
      exact ⟨segment :: front, name, rfl, hname⟩
  | case4 | case7 | case9 => exact absurd h Target.not_isAt_fault
  | case6 directory segment rest hhere hparent hshort child hchild old hold hlast =>
      obtain rfl := List.isEmpty_iff.mp hlast
      obtain rfl := Target.isAt_file.mp h
      exact ⟨[], segment, rfl, names_child hhere hparent directory⟩
  | case8 directory segment rest hhere hparent hshort child hchild hold hlast =>
      obtain rfl := List.isEmpty_iff.mp hlast
      obtain rfl := Target.isAt_free.mp h
      exact ⟨[], segment, rfl, names_child hhere hparent directory⟩

/-- A last segment that stays where it is leads to a directory or nowhere. -/
theorem not_isAt_follow_here {front : List String} {last : String} (h : Path.isHere last = true) :
    ¬ (files.follow directory (front ++ [last])).IsAt place := by
  intro hplace
  obtain ⟨others, name, hsegments, hname⟩ := exists_name hplace
  obtain ⟨-, hlast⟩ := List.append_inj' hsegments rfl
  cases hlast
  rw [hname.isHere_eq] at h
  cases h

/-! ## Reading and writing -/

/-- A path that leads to a place is neither empty nor too long, so that its segments are
followed, in any files. -/
theorem followPath_of_isAt (h : (files.followPath path segments).IsAt place) (others : Files) :
    others.followPath path segments = others.follow .here segments := by
  rw [followPath] at h ⊢
  split at h
  · exact absurd h Target.not_isAt_fault
  · next hempty =>
      split at h
      · exact absurd h Target.not_isAt_fault
      · next hlong => rw [if_neg hempty, if_neg hlong]

/-- The last segment of a path that leads to a place is the name of the place. -/
theorem LeadsTo.exists_name (h : files.LeadsTo path place) :
    ∃ front name, Path.segments path = front ++ [name] ∧ Names name place := by
  rw [LeadsTo, target, followPath_of_isAt h] at h
  exact Files.exists_name h

theorem LeadsTo.unique {other : Address} (h : files.LeadsTo path place)
    (hother : files.LeadsTo path other) : place = other := by
  rcases h with ⟨text, htarget⟩ | htarget
  · rw [LeadsTo, htarget] at hother
    exact Target.isAt_file.mp hother
  · rw [LeadsTo, htarget] at hother
    exact Target.isAt_free.mp hother

theorem target_put (text : String) (h : files.LeadsTo path place) :
    (files.put address text).target path =
      if place = address then .file place text else files.target path := by
  have hfollow := followPath_of_isAt h
  rw [LeadsTo, target, hfollow] at h
  rw [target, target, hfollow, hfollow, follow_put text h]

/-- A path that ends in a slash leads to a directory or nowhere. -/
theorem LeadsTo.endsInSlash_eq (h : files.LeadsTo path place) : Path.endsInSlash path = false := by
  rw [Path.endsInSlash, beq_eq_false_iff_ne]
  intro hslash
  obtain ⟨front, hfront⟩ := List.getLast?_eq_some_iff.mp hslash
  -- after the slash there is an empty segment, which stays in the directory
  have hsegments : Path.segments path =
      (Text.split (· == '/') front).map String.ofList ++ [""] := by
    rw [Path.segments, hfront, Text.split_append_cons (by rfl), List.map_append]
    rfl
  rw [LeadsTo, target, followPath_of_isAt h, hsegments] at h
  exact not_isAt_follow_here rfl h

theorem LeadsTo.destination_eq (h : files.LeadsTo path place) :
    files.destination path = files.target path := by
  rw [destination, if_neg (by simp [h.endsInSlash_eq])]

theorem leadsTo_of_destination (h : (files.destination path).IsAt place) :
    files.LeadsTo path place := by
  rw [destination] at h
  split at h
  · rw [followPath_of_isAt h] at h
    exact absurd h (not_isAt_follow_here rfl)
  · exact h

theorem read_eq_ok :
    files.read path = .ok text ↔ ∃ place, files.target path = .file place text := by
  rw [read]
  constructor
  · intro h
    split at h <;> cases h
    exact ⟨_, ‹_›⟩
  · rintro ⟨place, h⟩
    rw [h]

theorem exists_leadsTo_of_read (h : files.read path = .ok text) :
    ∃ place, files.LeadsTo path place := by
  obtain ⟨place, htarget⟩ := read_eq_ok.mp h
  exact ⟨place, .inl ⟨text, htarget⟩⟩

/-- A text is written to a path if the path leads to a place, and is put there. -/
theorem write_eq_ok :
    files.write path text = .ok after ↔
      ∃ place, files.LeadsTo path place ∧ after = files.put place text := by
  constructor
  · intro h
    rw [write] at h
    split at h
    next place old hdestination =>
      cases h
      exact ⟨place, leadsTo_of_destination (.inl ⟨old, hdestination⟩), rfl⟩
    next place hdestination =>
      cases h
      exact ⟨place, leadsTo_of_destination (.inr hdestination), rfl⟩
    next => cases h
    next => cases h
  · rintro ⟨place, hplace, rfl⟩
    rw [write, hplace.destination_eq]
    rcases hplace with ⟨old, htarget⟩ | htarget <;> rw [htarget]

/-- What is read at a path after a text is put at a place. -/
theorem read_put (text : String) (h : files.LeadsTo path place) :
    (files.put address text).read path = if place = address then .ok text else files.read path := by
  rw [read, target_put text h]
  by_cases hplace : place = address
  · rw [if_pos hplace, if_pos hplace]
  · rw [if_neg hplace, if_neg hplace, read]

/-- What is written at a path is read there. -/
theorem read_of_write (h : files.write path text = .ok after) : after.read path = .ok text := by
  obtain ⟨place, hplace, rfl⟩ := write_eq_ok.mp h
  rw [read_put text hplace, if_pos rfl]

/-- A text is at the place that a path leads to, and all else is as it was. -/
structure Written (files after : Files) (path text : String) : Prop where
  read_eq : after.read path = .ok text
  only : ∃ place, files.LeadsTo path place ∧ after.text? place = some text ∧
    after.directories = files.directories ∧
    ∀ other, other ≠ place → after.text? other = files.text? other

theorem written_of_write (h : files.write path text = .ok after) :
    Written files after path text := by
  refine ⟨read_of_write h, ?_⟩
  obtain ⟨place, hplace, rfl⟩ := write_eq_ok.mp h
  exact ⟨place, hplace, text?_put files place text, rfl,
    fun _ hother => text?_put_of_ne hother text⟩

end Files

end MiniC.CommandLine
