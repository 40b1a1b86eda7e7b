import MiniC.CommandLine.Path

/-!
# Sets of files

A directory tree around a working directory, as a value: the files in it and the
directories made for them.  The working directory and those above it are always
there, but nothing else is above it unless it was put there.

Paths are relative to the working directory and are followed name by name, so
that `..` leads out of a directory only if the directory is there.  Reading and
writing fail as they do on a POSIX system.
-/

namespace MiniC.CommandLine

/-- Why a file is not read or written.  Contents are texts, so that reading never fails for
what a file contains. -/
inductive FileFault where
  | notFound | notDirectory | isDirectory | nameTooLong
deriving DecidableEq, Repr

namespace FileFault

/-- The wording of a fault. -/
def message : FileFault → String
  | notFound => "No such file or directory (os error 2)"
  | notDirectory => "Not a directory (os error 20)"
  | isDirectory => "Is a directory (os error 21)"
  | nameTooLong => "File name too long (os error 36)"

end FileFault

/-- The most bytes that a name between slashes can have. -/
def nameLimit : Nat := 255

/-- The most bytes that a path can have. -/
def pathLimit : Nat := 4095

/-- A place in the tree: so many levels up from the working directory, and then
down along names. -/
structure Address where
  above : Nat := 0
  names : List String := []
deriving DecidableEq, Repr

namespace Address

/-- The working directory. -/
def here : Address := {}

/-- The directory that a place is in. -/
def parent : Address → Address
  | ⟨above, []⟩ => ⟨above + 1, []⟩
  | ⟨above, name :: names⟩ => ⟨above, (name :: names).dropLast⟩

/-- The place with a name in a directory. -/
def child (directory : Address) (name : String) : Address :=
  { directory with names := directory.names ++ [name] }

@[simp] theorem parent_child (directory : Address) (name : String) :
    (directory.child name).parent = directory := by
  obtain ⟨above, names⟩ := directory
  cases names with
  | nil => rfl
  | cons first rest =>
      have : (first :: rest ++ [name]).dropLast = first :: rest := List.dropLast_concat
      exact congrArg (Address.mk above) this

end Address

/-- A directory tree around a working directory. -/
structure Files where
  directories : List Address := []
  entries : List (Address × String) := []

/-- What a path leads to. -/
inductive Target where
  | file (address : Address) (text : String)
  | directory
  /-- Nothing yet, in a directory that is there. -/
  | free (address : Address)
  | fault (fault : FileFault)

namespace Files

/-- The text of the file at a place. -/
def text? (files : Files) (address : Address) : Option String := files.entries.lookup address

/-- Whether there is a directory at a place. -/
def isDirectory (files : Files) (address : Address) : Bool :=
  address.names.isEmpty || files.directories.contains address

/-- Follows segments from a directory. -/
def follow (files : Files) (directory : Address) : List String → Target
  | [] => .directory
  | segment :: rest =>
      if Path.isHere segment then files.follow directory rest
      else if segment == ".." then files.follow directory.parent rest
      else if nameLimit < segment.utf8ByteSize then .fault .nameTooLong
      else
        let address := directory.child segment
        if files.isDirectory address then files.follow address rest
        else
          match files.text? address with
          | some text => if rest.isEmpty then .file address text else .fault .notDirectory
          | none => if rest.isEmpty then .free address else .fault .notFound

/-- Follows segments of a path from the working directory.  A path of no or of
too many bytes leads nowhere. -/
def followPath (files : Files) (path : String) (segments : List String) : Target :=
  if path = "" then .fault .notFound
  else if pathLimit < path.utf8ByteSize then .fault .nameTooLong
  else files.follow .here segments

/-- What a path leads to. -/
def target (files : Files) (path : String) : Target :=
  files.followPath path (Path.segments path)

/-- The text of a file. -/
def read (files : Files) (path : String) : Except FileFault String :=
  match files.target path with
  | .file _ text => .ok text
  | .directory => .error .isDirectory
  | .free _ => .error .notFound
  | .fault fault => .error fault

/-- The files with a text put at a place. -/
def put (files : Files) (address : Address) (text : String) : Files :=
  { files with entries := (address, text) :: files.entries.filter (·.1 != address) }

/-- What a path to be written leads to.  One that ends in a slash can only mean
a directory, so that its last name is not looked for: `.` stands in its place. -/
def destination (files : Files) (path : String) : Target :=
  if Path.endsInSlash path then files.followPath path (Path.enclosing path ++ ["."])
  else files.target path

/-- The files after a text is written to one of them. -/
def write (files : Files) (path text : String) : Except FileFault Files :=
  match files.destination path with
  | .file address _ | .free address => .ok (files.put address text)
  | .directory => .error .isDirectory
  | .fault fault => .error fault

/-- The files with a directory at a place. -/
def makeDirectory (files : Files) (address : Address) : Except FileFault Files :=
  if files.isDirectory address then .ok files
  else if (files.text? address).isSome then .error .notDirectory
  else .ok { files with directories := address :: files.directories }

/-- The files with a directory at every place that segments pass from a
directory. -/
def makeDirectories (files : Files) (directory : Address) : List String → Except FileFault Files
  | [] => .ok files
  | segment :: rest =>
      if Path.isHere segment then files.makeDirectories directory rest
      else if segment == ".." then files.makeDirectories directory.parent rest
      else do
        let files ← files.makeDirectory (directory.child segment)
        files.makeDirectories (directory.child segment) rest

/-- The files with one more, for which the directories on the way to it are made. -/
def add (files : Files) (path text : String) : Except FileFault Files := do
  (← files.makeDirectories .here (Path.enclosing path)).write path text

/-! ## What is there after writing -/

@[simp] theorem text?_put (files : Files) (address : Address) (text : String) :
    (files.put address text).text? address = some text := by
  simp [text?, put]

@[simp] theorem isDirectory_put (files : Files) (address other : Address) (text : String) :
    (files.put address text).isDirectory other = files.isDirectory other := rfl

end Files

end MiniC.CommandLine
