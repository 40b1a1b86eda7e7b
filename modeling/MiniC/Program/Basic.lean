import MiniC.Location
import MiniC.Operator

/-!
# Programs

A program of the language by its grammar, with the location of each construct.
Parentheses, statement lists and other wrappings of the text are gone; what is
optional in the grammar is an `Option` here.
-/

namespace MiniC

mutual

/-- An expression. -/
inductive Expr where
  | number (location : Location) (value : Int32)
  | name (location : Location) (name : String)
  | binary (location : Location) (op : BinaryOp) (left right : Expr)
  | unary (location : Location) (op : UnaryOp) (operand : Expr)
  | assign (location : Location) (targetLocation : Location) (target : String) (value : Expr)
  | call (location : Location) (callee : String) (arguments : Option ArgumentList)

/-- The list of arguments of a call. -/
structure ArgumentList where
  location : Location
  values : List Expr

end

/-- A parameter of a function. -/
structure Parameter where
  location : Location
  name : String
  typeName : String
deriving DecidableEq, Repr

/-- The list of parameters of a function. -/
structure ParameterList where
  location : Location
  parameters : List Parameter
deriving DecidableEq, Repr

/-- The declaration of a variable. -/
structure Declaration where
  location : Location
  typeLocation : Location
  typeName : String
  nameLocation : Location
  name : String
  initializer : Option Expr

mutual

/-- A statement. -/
inductive Stmt where
  | expression (value : Expr)
  | declaration (declared : Declaration)
  | block (block : Block)
  | ifElse (location : Location) (condition : Expr) (thenBlock : Block) (elseBlock : Option Block)
  | whileLoop (location : Location) (condition : Expr) (body : Stmt)
  | returnValue (location : Location) (value : Option Expr)
  | breakLoop (location : Location)

/-- A sequence of statements in braces. -/
structure Block where
  location : Location
  statements : List Stmt

end

/-- The definition of a function. -/
structure FunctionDefinition where
  location : Location
  name : String
  returnType : String
  returnTypeLocation : Location
  parameters : Option ParameterList
  body : Block

/-- The declaration of a function that is defined elsewhere. -/
structure FunctionDeclaration where
  location : Location
  name : String
  returnType : String
  parameters : Option ParameterList
deriving DecidableEq, Repr

/-- What may stand at the top of a file. -/
inductive Item where
  | function (definition : FunctionDefinition)
  | external (declared : FunctionDeclaration)
  | global (declared : Declaration)

/-- The contents of a file. -/
structure CompileUnit where
  location : Location
  items : List Item

end MiniC
