import MiniC.Asm.Options

/-!
# Commands

What the compiler is asked to do, and how that is said in the arguments of the
program.
-/

namespace MiniC.CommandLine

/-- What to compile, how, and where the result goes. -/
structure CompileArguments where
  /-- The file with the parse tree. -/
  input : String
  /-- The file for the assembly text, next to the input if it is not given. -/
  output : Option String := none
  /-- A file with options. -/
  config : Option String := none
  /-- The procedure named by the last line, instead of that of the options. -/
  entry : Option String := none
  /-- The operand of the `.stack` directive, instead of that of the options. -/
  stackSize : Option UInt32 := none
  /-- Whether lines end in carriage return and line feed. -/
  crlf : Bool := false
  /-- Whether the assembly text is shown and not written to a file. -/
  print : Bool := false

/-- What the compiler is asked to do. -/
inductive Command where
  /-- Compiles a parse tree. -/
  | compile (arguments : CompileArguments)
  /-- Builds a syntax tree, and shows it if asked to. -/
  | check (input : String) (dump : Bool)

namespace CompileArguments

/-- The options of a file, with those given by arguments in their place. -/
def override (arguments : CompileArguments) (options : Asm.Options) : Asm.Options :=
  { options with
    entryPoint := arguments.entry.getD options.entryPoint
    stackSize := arguments.stackSize.getD options.stackSize
    style :=
      if arguments.crlf then { options.style with ending := .crlf } else options.style }

end CompileArguments

namespace Command

/-- The arguments of a compilation that follow those already read. -/
def readCompile (input : Option String) (arguments : CompileArguments) :
    List String → Option Command
  | [] => input.map fun input => compile { arguments with input }
  | "--crlf" :: rest => readCompile input { arguments with crlf := true } rest
  | "--print" :: rest => readCompile input { arguments with print := true } rest
  | "--output" :: path :: rest | "-o" :: path :: rest =>
      readCompile input { arguments with output := some path } rest
  | "--config" :: path :: rest => readCompile input { arguments with config := some path } rest
  | "--entry" :: name :: rest => readCompile input { arguments with entry := some name } rest
  | "--stack-size" :: size :: rest =>
      match Text.natural? size.toList with
      | some size =>
          if size < UInt32.size then
            readCompile input { arguments with stackSize := some (UInt32.ofNat size) } rest
          else none
      | none => none
  | path :: rest =>
      if input.isSome || path.startsWith "-" then none else readCompile (some path) arguments rest

/-- The arguments of a check that follow those already read. -/
def readCheck (input : Option String) (dump : Bool) : List String → Option Command
  | [] => input.map fun input => check input dump
  | "--dump" :: rest => readCheck input true rest
  | path :: rest =>
      if input.isSome || path.startsWith "-" then none else readCheck (some path) dump rest

/-- The command that the arguments of the program say. -/
def ofArguments? : List String → Option Command
  | "compile" :: rest => readCompile none { input := "" } rest
  | "check" :: rest => readCheck none false rest
  | _ => none

end Command

end MiniC.CommandLine
