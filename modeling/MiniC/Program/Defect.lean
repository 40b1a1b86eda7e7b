import MiniC.Error
import MiniC.ParseTree.Basic

/-!
# Defects of parse trees

The ways in which a parse tree fails to be a program, and where.
-/

namespace MiniC.ParseTree

/-- What is wrong with a production or a token. -/
inductive Defect where
  /-- The root is no compile unit. -/
  | notCompileUnit
  /-- A production that cannot stand at the top of a file. -/
  | notFileItem
  /-- A part that the production needs is absent. -/
  | missing (part : String)
  /-- A type in a list of parameters with no name after it. -/
  | unnamedParameter
  /-- A name in a list of parameters with no type before it. -/
  | untypedParameter (name : String)
  /-- Something else in a list of parameters. -/
  | notParameter
  | notExpression
  | notStatement
  | emptyStatement
  /-- A number that is no integer of 32 bits. -/
  | numberRange (text : String)
  | unexpectedToken (text : String)
  | unknownBinary (text : String)
  | unknownUnary (text : String)
  /-- An operator between other than two operands. -/
  | operandCount (count : Nat)
  /-- An assignment that has not one target and one value. -/
  | notAssignment
  /-- An assignment to something that is no name. -/
  | notVariable
  /-- A condition with other than one or two blocks. -/
  | blockCount (count : Nat)
deriving DecidableEq

/-- The wording of a text that spells no binary operator. -/
def unknownBinaryMessage (text : String) : String := "unknown binary operator '" ++ text ++ "'"

/-- The wording of a text that spells no unary operator. -/
def unknownUnaryMessage (text : String) : String := "unknown unary operator '" ++ text ++ "'"

/-- The wording of a defect. -/
def Defect.message : Defect → String
  | notCompileUnit => "parse tree root is not a compile unit"
  | notFileItem => "expected a function definition or a declaration at file scope"
  | missing part => "missing " ++ part
  | unnamedParameter => "parameter type without a name"
  | untypedParameter name => "parameter '" ++ name ++ "' has no type"
  | notParameter => "unexpected element in parameter list"
  | notExpression => "expected an expression"
  | notStatement => "not a statement"
  | emptyStatement => "empty statement"
  | numberRange text => "number '" ++ text ++ "' does not fit in 32 bits"
  | unexpectedToken text => "unexpected token '" ++ text ++ "'"
  | unknownBinary text => unknownBinaryMessage text
  | unknownUnary text => unknownUnaryMessage text
  | operandCount count => "expected 2 operands, found " ++ toString count
  | notAssignment => "expected 'name = expression'"
  | notVariable => "assignment target is not a variable"
  | blockCount count => "expected 1 or 2 blocks, found " ++ toString count

/-- A defect of a construct, and where it is. -/
structure Malformation where
  construct : Rule
  location : Location
  defect : Defect
deriving DecidableEq

/-- A malformation, as an error of the compiler. -/
def Malformation.toError (malformation : Malformation) : Error :=
  .malformed malformation.construct.construct malformation.location malformation.defect.message

/-- The malformation of a production, at its start. -/
def Production.malformed (file : String) (production : Production) (defect : Defect) :
    Malformation :=
  ⟨production.rule, production.location file, defect⟩

end MiniC.ParseTree
