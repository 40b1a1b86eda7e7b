/-!
# Kinds of emission nodes

An emission node stands for a piece of the file under construction.  A leaf
holds lines of code.  A composite holds lists of other nodes, one list for each
context of its kind, and lays its own lines around them when it is assembled.
-/

namespace MiniC.Emission

/-- What the lines of a leaf do. -/
inductive Leaf where
  | expression | assignment | result | other
deriving DecidableEq, Repr

/-- The kinds of emission nodes. -/
inductive Kind where
  | file | function | conditional | loop | compound
  | leaf (sort : Leaf)
deriving DecidableEq, Repr

/-- The lists of child nodes that composites hold. -/
inductive Context where
  | fileData | fileCode
  | functionHeader | functionBody
  | ifCondition | ifThen | ifElse
  | whileCondition | whileBody
  | compoundBody
deriving DecidableEq, Repr

/-- The name of a context in a report. -/
def Context.text : Context → String
  | fileData => "FileData"
  | fileCode => "FileCode"
  | functionHeader => "FunctionHeader"
  | functionBody => "FunctionBody"
  | ifCondition => "IfCondition"
  | ifThen => "IfThen"
  | ifElse => "IfElse"
  | whileCondition => "WhileCondition"
  | whileBody => "WhileBody"
  | compoundBody => "CompoundBody"

namespace Kind

/-- The start of the names of nodes of a kind, and of the labels made from
them. -/
def label : Kind → String
  | file => "FILE"
  | function => "FUNCTION"
  | conditional => "IF"
  | loop => "WHILE"
  | compound => "COMPOUND"
  | leaf .expression => "EXPRESSION"
  | leaf .assignment => "ASSIGNMENT"
  | leaf .result => "RETURN"
  | leaf .other => "NA"

/-- The contexts of a kind, in the order in which they are assembled. -/
def contexts : Kind → List Context
  | file => [.fileData, .fileCode]
  | function => [.functionHeader, .functionBody]
  | conditional => [.ifCondition, .ifThen, .ifElse]
  | loop => [.whileCondition, .whileBody]
  | compound => [.compoundBody]
  | leaf _ => []

/-- Whether nodes of a kind hold other nodes. -/
def isComposite (kind : Kind) : Bool := !kind.contexts.isEmpty

end Kind

end MiniC.Emission
