import MiniC.Ast.Json
import MiniC.CommandLine.Command
import MiniC.CommandLine.Files
import MiniC.Compiler
import MiniC.Json.Printer

/-!
# Running commands

`run` carries out a command on a `Host`, which reads and writes files in some
monad: the files of the system, or a set of files as a value.  A command that
fails writes nothing, and reports the first failure in the order options,
input, compilation, output.
-/

namespace MiniC.CommandLine

/-- How files are read and written.  A failure is the text that reports it. -/
structure Host (m : Type → Type) where
  read : String → m (Except String String)
  write : String → String → m (Except String Unit)

/-- What a command leaves behind, files apart. -/
structure Report where
  exit : UInt8
  output : String
  errors : String
deriving DecidableEq, Repr

section

variable {m : Type → Type} [Monad m] (host : Host m)

/-- The text of a file, or the failure to read it. -/
def readFile (path : String) : ExceptT String m String := ExceptT.mk (host.read path)

/-- The value of a computation, or the text of its error. -/
def orReport {α : Type} : Except Error α → ExceptT String m α
  | .ok value => pure value
  | .error error => throw error.message

/-- The options of a compilation.  What is said after the path of an invalid file stands for
the words of the reader of JSON, which `Asm.Options.read?` does not keep. -/
def loadOptions (arguments : CompileArguments) : ExceptT String m Asm.Options :=
  match arguments.config with
  | none => return arguments.override {}
  | some path => do
      let text ← readFile host path
      match Asm.Options.read? text with
      | some options => return arguments.override options
      | none => throw ("invalid config " ++ path ++ ": the text is not the JSON form of options")

/-- Compiles a file: what is shown for it. -/
def compile (arguments : CompileArguments) : ExceptT String m String := do
  let options ← loadOptions host arguments
  let text ← readFile host arguments.input
  -- nothing is written before the whole assembly text is there
  let assembly ← orReport (Compiler.compileText options arguments.input text)
  if arguments.print then return assembly
  let path := arguments.output.getD (Path.withExtension arguments.input "asm")
  ExceptT.mk (host.write path assembly)
  return "Assembly written to: " ++ path ++ "\n"

/-- Checks a file: what is shown for it. -/
def check (input : String) (dump : Bool) : ExceptT String m String := do
  let text ← readFile host input
  let arena ← orReport (Compiler.buildText input text)
  let shown := if dump then arena.toJson.pretty ++ "\n" else ""
  return shown ++ input ++ ": " ++ toString arena.size ++ " AST nodes\n"

/-- Carries out a command. -/
def run (command : Command) : m Report := do
  let result ←
    match command with
    | .compile arguments => (compile host arguments).run
    | .check input dump => (check host input dump).run
  match result with
  | .ok output => return ⟨0, output, ""⟩
  | .error error => return ⟨1, "", "error: " ++ error ++ "\n"⟩

end

/-- The host of a set of files. -/
def Files.host : Host (StateM Files) where
  read path := do
    return (← get).read path |>.mapError FileFault.message
  write path text := do
    match (← get).write path text with
    | .ok files =>
        set files
        return .ok ()
    | .error fault => return .error fault.message

/-- Carries out a command on a set of files: what it reports, and the files
after it. -/
def Files.run (files : Files) (command : Command) : Report × Files :=
  (CommandLine.run Files.host command : StateM Files Report).run files

end MiniC.CommandLine
