import MiniC.Ast.Arena
import MiniC.Json.Value

/-!
# The JSON form of syntax trees

A kind without payload is written as its tag, and one with a payload as an
object from its tag to the record of its payload.  An arena is written node by
node, with the children of each slot as numbers.
-/

namespace MiniC.Ast

open MiniC.Json

/-- The name of a binary operator in the JSON form. -/
def binaryKey : BinaryOp → String
  | .add => "Add"
  | .sub => "Sub"
  | .mul => "Mul"
  | .div => "Div"
  | .less => "Less"
  | .lessEqual => "LessEqual"
  | .greater => "Greater"
  | .greaterEqual => "GreaterEqual"
  | .equal => "Equal"
  | .notEqual => "NotEqual"
  | .logicalAnd => "LogicalAnd"
  | .logicalOr => "LogicalOr"

/-- The binary operator that a key names. -/
def binaryOfKey? (key : String) : Option BinaryOp := BinaryOp.all.find? (binaryKey · == key)

@[simp] theorem binaryOfKey?_binaryKey (op : BinaryOp) : binaryOfKey? (binaryKey op) = some op := by
  cases op <;> decide

/-- The name of a unary operator in the JSON form. -/
def unaryKey : UnaryOp → String
  | .plus => "Plus"
  | .minus => "Minus"
  | .logicalNot => "LogicalNot"

/-- The unary operator that a key names. -/
def unaryOfKey? (key : String) : Option UnaryOp := UnaryOp.all.find? (unaryKey · == key)

@[simp] theorem unaryOfKey?_unaryKey (op : UnaryOp) : unaryOfKey? (unaryKey op) = some op := by
  cases op <;> decide

namespace Kind

/-- The kinds that carry no payload. -/
def plain : List Kind :=
  [compileUnit, globalDeclaration, localDeclaration, block, ifStatement, whileStatement,
    returnStatement, breakStatement, assignment, parameterList, argumentList]

/-- A kind, as a JSON value. -/
def toJson (kind : Kind) : Value :=
  let tagged (fields : List (String × Value)) := Value.ofFields [(kind.tag, .ofFields fields)]
  match kind with
  | functionDefinition name returnType | functionDeclaration name returnType =>
      tagged [("name", .ofText name), ("return_type", .ofText returnType)]
  | binary op => tagged [("op", .ofText (binaryKey op))]
  | unary op => tagged [("op", .ofText (unaryKey op))]
  | call name | identifier name => tagged [("name", .ofText name)]
  | number value => tagged [("value", .ofInt value.toInt)]
  | typeSpecifier text => tagged [("text", .ofText text)]
  | parameter name typeName => tagged [("name", .ofText name), ("type_name", .ofText typeName)]
  | _ => .ofText kind.tag

/-- The kind with a tag and a payload.  A payload is an object, never the array
of its fields. -/
def withPayload? (budget : Nat) (tag : String) (payload : Value) : Option Kind := do
  let texts (names : List String) : Option (List String) := do
    (← payload.members? names).mapM fun field => field >>= Value.text?
  let only (name : String) : Option Value := do
    match ← payload.members? [name] with
    | [field] => field
    | _ => none
  match tag with
  | "FunctionDefinition" =>
      match ← texts ["name", "return_type"] with
      | [name, returnType] => some (functionDefinition name returnType)
      | _ => none
  | "FunctionDeclaration" =>
      match ← texts ["name", "return_type"] with
      | [name, returnType] => some (functionDeclaration name returnType)
      | _ => none
  | "BinaryExpression" => (((← only "op").plain? budget) >>= binaryOfKey?).map binary
  | "UnaryExpression" => (((← only "op").plain? budget) >>= unaryOfKey?).map unary
  | "FunctionCallExpression" => (← only "name").text?.map call
  | "NumberLiteral" => (← only "value").int32?.map number
  | "Identifier" => (← only "name").text?.map identifier
  | "TypeSpecifier" => (← only "text").text?.map typeSpecifier
  | "Parameter" =>
      match ← texts ["name", "type_name"] with
      | [name, typeName] => some (parameter name typeName)
      | _ => none
  | _ => none

/-- The kind that a JSON value describes. -/
def ofValue? (value : Value) : Option Kind :=
  match value.plain? value.depth with
  | some tag => plain.find? (·.tag == tag)
  | none => do
      let (tag, payload) ← value.tagged?
      withPayload? payload.depth tag payload

end Kind

/-- A location, as a JSON value. -/
def locationToJson (location : Location) : Value :=
  .ofFields
    [("filename", .ofText location.file), ("line", .ofInt location.line.toNat),
      ("column", .ofInt location.column.toNat)]

/-- The number of a node, as a JSON value. -/
def idToJson (id : Id) : Value := .ofInt id

/-- A node of an arena, as a JSON value. -/
def Node.toJson (node : Node) : Value :=
  .ofFields
    [("serial", .ofInt node.serial), ("kind", node.kind.toJson),
      ("location", locationToJson node.location),
      ("parent", .ofOption (node.parent.map idToJson)),
      ("slots", .array (node.slots.map fun slot => .array (slot.map idToJson)))]

/-- An arena, as a JSON value. -/
def Arena.toJson (arena : Arena) : Value :=
  .ofFields
    [("nodes", .array (arena.nodes.toList.map Node.toJson)),
      ("root", .ofOption (arena.root.map idToJson))]

end MiniC.Ast
