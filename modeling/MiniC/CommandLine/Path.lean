import MiniC.Text.Pieces

/-!
# Paths

Names of files with their directories, separated by slashes, and the change of
the extension of a file name.
-/

namespace MiniC.CommandLine.Path

/-- The names between the slashes of a path. -/
def segments (path : String) : List String :=
  (Text.split (· == '/') path.toList).map String.ofList

/-- Whether a path ends in a slash. -/
def endsInSlash (path : String) : Bool := path.toList.getLast? == some '/'

/-- The segments of a path before the last name in it: the way to the directory
that holds what the path names. -/
def enclosing (path : String) : List String :=
  (((segments path).reverse.dropWhile (· == "")).drop 1).reverse

/-- Whether a segment stays in the directory it is in. -/
def isHere (segment : String) : Bool := segment == "" || segment == "."

/-- The stem and the extension of a file name: what stands before and after its
last dot.  A name whose only dot is its first character has no extension. -/
def splitExtension? (name : String) : Option (String × String) :=
  if name == ".." then none
  else
    let reversed := name.toList.reverse
    match reversed.dropWhile (· != '.') with
    | [] | ['.'] => none
    | _ :: stem =>
        some (String.ofList stem.reverse,
          String.ofList (reversed.takeWhile (· != '.')).reverse)

/-- The file name of a path, after the directories before it, the innermost
first.  A path to a directory above has none. -/
def fileName? (path : String) : Option (String × List String) :=
  match (segments path).reverse.dropWhile isHere with
  | [] => none
  | name :: directories => if name == ".." then none else some (name, directories)

/-- A path without the extension of its file name, up to its last dot. -/
def dropExtension (path : String) : String :=
  match fileName? path >>= fun file => splitExtension? file.1 with
  | some (_, extension) =>
      String.ofList (path.toList.take (path.toList.length - extension.toList.length))
  | none => path

/-- A path whose file name has the given extension instead of its own. -/
def withExtension (path extension : String) : String :=
  -- dropping an extension can leave a path with no file name, such as `..`
  let path := dropExtension path
  match fileName? path with
  | none => path
  | some (name, directories) =>
      let stem := ((splitExtension? name).map Prod.fst).getD name
      "/".intercalate ((stem ++ "." ++ extension) :: directories).reverse

end MiniC.CommandLine.Path
