import MiniC.CommandLine.Run

/-!
# The program

Runs the command that the arguments say on the files of the system.
-/

namespace MiniC.CommandLine

/-- Whether a code of the system, which may come with its sign changed, is a
given one. -/
def isCode (code expected : UInt32) : Bool := code == expected || code == 0 - expected

/-- The fault that a failure of the system is, for those that a path brings about. -/
def systemFault? : IO.Error → Option FileFault
  | .noFileOrDirectory _ _ _ => some .notFound
  | .inappropriateType _ code _ => some (if isCode code 21 then .isDirectory else .notDirectory)
  | .invalidArgument _ code _ => if isCode code 36 then some .nameTooLong else none
  | _ => none

/-- The text that reports a failure of the system. -/
def systemMessage (error : IO.Error) : String :=
  match systemFault? error with
  | some fault => fault.message
  | none => toString error

/-- The files of the system. -/
def systemHost : Host IO where
  read path := do
    try
      return .ok (← IO.FS.readFile path)
    catch error => return .error (systemMessage error)
  write path text := do
    try
      IO.FS.writeFile path text
      return .ok ()
    catch error => return .error (systemMessage error)

/-- How the program is called. -/
def usage : String :=
  "usage: minic compile INPUT [-o FILE] [--config FILE] [--entry NAME] [--stack-size N]" ++
    " [--crlf] [--print]\n       minic check INPUT [--dump]\n"

end MiniC.CommandLine

open MiniC.CommandLine in
/-- Carries out the command of the arguments. -/
def main (arguments : List String) : IO UInt32 := do
  match Command.ofArguments? arguments with
  | none =>
      (← IO.getStderr).putStr usage
      return 2
  | some command =>
      let report ← run systemHost command
      IO.print report.output
      (← IO.getStderr).putStr report.errors
      return report.exit.toUInt32
