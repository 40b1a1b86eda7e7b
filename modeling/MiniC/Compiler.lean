import MiniC.Codegen.Generate
import MiniC.ParseTree.Json
import MiniC.Program.OfParseTree
import MiniC.Program.Tree

/-!
# The compiler

From a parse tree, or its JSON text, to the arena of its syntax tree and on to
assembly text.
-/

namespace MiniC.Compiler

open Ast (Arena)
open ParseTree (Production)

/-- The error for a text that is no parse tree.  A reader of JSON reports the line and the
column at which it gave up and its own words for the reason; `Production.read?` says no
more than that it failed, so that the place and the words here only stand for those.
There is no place in a program that the error is about. -/
def notParseTree (file : String) : Error :=
  .malformed "parse tree" ⟨file, 0, 0⟩ "the text is not the JSON form of a parse tree"

/-- The syntax tree of a parse tree. -/
def build (file : String) (production : Production) : Except Error Arena :=
  match CompileUnit.ofProduction file production with
  | .ok unit => .ok (Arena.ofTree unit.toTree)
  | .error malformation => .error malformation.toError

/-- The parse tree in a JSON text. -/
def read (file text : String) : Except Error Production :=
  match Production.read? text with
  | some production => .ok production
  | none => .error (notParseTree file)

/-- The syntax tree of the parse tree in a JSON text. -/
def buildText (file text : String) : Except Error Arena := read file text >>= build file

/-- The assembly text of the parse tree in a JSON text. -/
def compileText (options : Asm.Options) (file text : String) : Except Error String :=
  buildText file text >>= Codegen.assembly options

end MiniC.Compiler
