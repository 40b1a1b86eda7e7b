import MiniC.Operator

/-!
# Kinds of syntax tree nodes

What a node of a syntax tree stands for, with the payload that its children do
not carry.  Children are kept in numbered slots.  The slots of each kind are

| kind | slot 0 | slot 1 | slot 2 |
|------|--------|--------|--------|
| compile unit | file items | | |
| function definition | parameter list | body | return type |
| function declaration | parameter list | | |
| global, local declaration | type, name, initializer | | |
| block | statements | | |
| if | condition | block | block after `else` |
| while | condition | body | |
| return | value | | |
| binary | left operand | right operand | |
| unary | operand | | |
| assignment | target | value | |
| call | argument list | | |
| parameter, argument list | items | | |

and the other kinds have none.
-/

namespace MiniC.Ast

/-- What a node of a syntax tree stands for. -/
inductive Kind where
  | compileUnit
  | functionDefinition (name returnType : String)
  | functionDeclaration (name returnType : String)
  | globalDeclaration
  | localDeclaration
  | block
  | ifStatement
  | whileStatement
  | returnStatement
  | breakStatement
  | binary (op : BinaryOp)
  | unary (op : UnaryOp)
  | assignment
  | call (name : String)
  | number (value : Int32)
  | identifier (name : String)
  | typeSpecifier (text : String)
  | parameter (name typeName : String)
  | parameterList
  | argumentList
deriving DecidableEq

namespace Kind

/-- The number of slots that the nodes of a kind have. -/
def slotCount : Kind → Nat
  | functionDefinition _ _ | ifStatement => 3
  | whileStatement | binary _ | assignment => 2
  | breakStatement | number _ | identifier _ | typeSpecifier _ | parameter _ _ => 0
  | _ => 1

/-- The name of a kind, without its payload. -/
def tag : Kind → String
  | compileUnit => "CompileUnit"
  | functionDefinition _ _ => "FunctionDefinition"
  | functionDeclaration _ _ => "FunctionDeclaration"
  | globalDeclaration => "GlobalDeclaration"
  | localDeclaration => "LocalDeclaration"
  | block => "Block"
  | ifStatement => "IfStatement"
  | whileStatement => "WhileStatement"
  | returnStatement => "ReturnStatement"
  | breakStatement => "BreakStatement"
  | binary _ => "BinaryExpression"
  | unary _ => "UnaryExpression"
  | assignment => "AssignmentExpression"
  | call _ => "FunctionCallExpression"
  | number _ => "NumberLiteral"
  | identifier _ => "Identifier"
  | typeSpecifier _ => "TypeSpecifier"
  | parameter _ _ => "Parameter"
  | parameterList => "Fargs"
  | argumentList => "Args"

/-- The payload of a kind that a report shows. -/
def detail? : Kind → Option String
  | functionDefinition name _ | functionDeclaration name _ | call name | identifier name
  | parameter name _ => some name
  | binary op => some op.text
  | unary op => some op.text
  | number value => some (toString value.toInt)
  | typeSpecifier text => some text
  | _ => none

/-- How a report shows a kind: its tag, with its payload in parentheses. -/
def text (kind : Kind) : String :=
  match kind.detail? with
  | some detail => kind.tag ++ "(" ++ detail ++ ")"
  | none => kind.tag

/-- Whether nodes of a kind name a type. -/
def isType : Kind → Bool
  | typeSpecifier _ => true
  | _ => false

theorem slotCount_le (kind : Kind) : kind.slotCount ≤ 3 := by
  cases kind <;> simp [slotCount]

end Kind

end MiniC.Ast
