import MiniC.Location

/-!
# Parse trees

What the parser hands over: a tree of grammar productions whose leaves are
tokens.  The grammar is

```text
compileUnit         : (functionDefinition | declaration | functionDeclaration)*
functionDefinition  : typeSpecifier IDENTIFIER '(' fargs? ')' block
functionDeclaration : typeSpecifier IDENTIFIER '(' fargs? ')' ';'
declaration         : typeSpecifier IDENTIFIER initializer? ';' | functionDeclaration
initializer         : '=' expression
localDeclaration    : typeSpecifier IDENTIFIER ('=' expression)? ';'
statement           : expression ';' | ifStatement | whileStatement | block
                    | 'return' expression? ';' | 'break' ';' | localDeclaration
ifStatement         : 'if' '(' expression ')' block ('else' block)?
whileStatement      : 'while' '(' expression ')' statement
block               : '{' statementList? '}'
statementList       : statement+
expression          : expression OP expression | OP expression
                    | IDENTIFIER '=' expression | IDENTIFIER '(' args? ')'
                    | '(' expression ')' | NUMBER | IDENTIFIER
args                : expression (',' expression)*
fargs               : typeSpecifier IDENTIFIER (',' typeSpecifier IDENTIFIER)*
```

Nothing here requires a tree to follow it.
-/

namespace MiniC.ParseTree

/-- The productions of the grammar. -/
inductive Rule where
  | compileUnit | functionDefinition | functionDeclaration | declaration | initializer
  | typeSpecifier | statement | localDeclaration | ifStatement | whileStatement | block
  | statementList
  | binaryExpression | unaryExpression | assignExpression | callExpression | parenExpression
  | primaryExpression
  | args | fargs
deriving DecidableEq, Repr

namespace Rule

/-- Every rule, in the order of declaration. -/
def all : List Rule :=
  [compileUnit, functionDefinition, functionDeclaration, declaration, initializer, typeSpecifier,
    statement, localDeclaration, ifStatement, whileStatement, block, statementList,
    binaryExpression, unaryExpression, assignExpression, callExpression, parenExpression,
    primaryExpression, args, fargs]

/-- Whether a rule is one of the alternatives of `expression`. -/
def isExpression : Rule → Bool
  | binaryExpression | unaryExpression | assignExpression | callExpression | parenExpression
  | primaryExpression => true
  | _ => false

/-- What a production is called in a report. -/
def construct : Rule → String
  | compileUnit => "compile unit"
  | functionDefinition => "function definition"
  | functionDeclaration => "function declaration"
  | declaration => "declaration"
  | initializer => "initializer"
  | typeSpecifier => "type specifier"
  | statement => "statement"
  | localDeclaration => "local declaration"
  | ifStatement => "if statement"
  | whileStatement => "while statement"
  | block => "block"
  | statementList => "statement list"
  | binaryExpression => "binary expression"
  | unaryExpression => "unary expression"
  | assignExpression => "assignment expression"
  | callExpression => "function call"
  | parenExpression => "parenthesized expression"
  | primaryExpression => "primary expression"
  | args => "argument list"
  | fargs => "parameter list"

/-- The name of a rule in the JSON form of a tree. -/
def key : Rule → String
  | compileUnit => "compile_unit"
  | functionDefinition => "function_definition"
  | functionDeclaration => "function_declaration"
  | declaration => "declaration"
  | initializer => "initializer"
  | typeSpecifier => "type_specifier"
  | statement => "statement"
  | localDeclaration => "local_declaration"
  | ifStatement => "if_statement"
  | whileStatement => "while_statement"
  | block => "block"
  | statementList => "statement_list"
  | binaryExpression => "binary_expression"
  | unaryExpression => "unary_expression"
  | assignExpression => "assign_expression"
  | callExpression => "call_expression"
  | parenExpression => "paren_expression"
  | primaryExpression => "primary_expression"
  | args => "args"
  | fargs => "fargs"

/-- The rule that a key names. -/
def ofKey? (key : String) : Option Rule := all.find? (·.key == key)

@[simp] theorem ofKey?_key (rule : Rule) : ofKey? rule.key = some rule := by
  cases rule <;> decide

end Rule

/-- The sorts of tokens. -/
inductive TokenKind where
  | identifier | number | typeName | keyword | operator | punctuation
deriving DecidableEq, Repr

namespace TokenKind

/-- Every sort of token, in the order of declaration. -/
def all : List TokenKind := [identifier, number, typeName, keyword, operator, punctuation]

/-- The name of a sort in the JSON form of a tree. -/
def key : TokenKind → String
  | identifier => "identifier"
  | number => "number"
  | typeName => "type_name"
  | keyword => "keyword"
  | operator => "operator"
  | punctuation => "punctuation"

/-- The sort that a key names. -/
def ofKey? (key : String) : Option TokenKind := all.find? (·.key == key)

@[simp] theorem ofKey?_key (kind : TokenKind) : ofKey? kind.key = some kind := by
  cases kind <;> decide

end TokenKind

/-- A leaf of a parse tree. -/
structure Token where
  kind : TokenKind
  text : String
  line : UInt32
  column : UInt32
deriving DecidableEq, Repr

namespace Token

/-- Whether a token is of a sort and has a text. -/
def is (token : Token) (kind : TokenKind) (text : String) : Bool :=
  token.kind == kind && token.text == text

/-- Where a token stands in a file. -/
def location (file : String) (token : Token) : Location := ⟨file, token.line, token.column⟩

/-- Whether a token is an expression by itself: a number or a name. -/
def isExpression (token : Token) : Bool :=
  token.kind == .number || token.kind == .identifier

end Token

mutual

/-- A child of a production. -/
inductive Element where
  | token (token : Token)
  | production (production : Production)

/-- A reduced production: its rule, where it starts, and its children. -/
structure Production where
  rule : Rule
  line : UInt32
  column : UInt32
  children : List Element

end

mutual

/-- Whether two elements are the same. -/
def Element.same : Element → Element → Bool
  | .token left, .token right => left == right
  | .production left, .production right => left.same right
  | _, _ => false

/-- Whether two productions are the same. -/
def Production.same : Production → Production → Bool
  | ⟨rule, line, column, children⟩, ⟨otherRule, otherLine, otherColumn, otherChildren⟩ =>
      rule == otherRule && line == otherLine && column == otherColumn &&
        sameChildren children otherChildren

/-- Whether two lists of children are the same. -/
def sameChildren : List Element → List Element → Bool
  | [], [] => true
  | left :: lefts, right :: rights => left.same right && sameChildren lefts rights
  | _, _ => false

end

mutual

theorem Element.same_iff (left right : Element) : left.same right = true ↔ left = right := by
  match left, right with
  | .token _, .token _ => simp [Element.same]
  | .production left, .production right => simp [Element.same, Production.same_iff left right]
  | .token _, .production _ => simp [Element.same]
  | .production _, .token _ => simp [Element.same]

theorem Production.same_iff (left right : Production) :
    left.same right = true ↔ left = right := by
  match left, right with
  | ⟨_, _, _, children⟩, ⟨_, _, _, otherChildren⟩ =>
      simp [Production.same, sameChildren_iff children otherChildren, and_assoc]

theorem sameChildren_iff (left right : List Element) :
    sameChildren left right = true ↔ left = right := by
  match left, right with
  | [], [] => simp [sameChildren]
  | [], _ :: _ => simp [sameChildren]
  | _ :: _, [] => simp [sameChildren]
  | first :: rest, other :: others =>
      simp [sameChildren, Element.same_iff first other, sameChildren_iff rest others]

end

instance : DecidableEq Element := fun left right =>
  decidable_of_iff (left.same right = true) (left.same_iff right)

instance : DecidableEq Production := fun left right =>
  decidable_of_iff (left.same right = true) (left.same_iff right)

namespace Production

/-- A production of a rule without children at the start of the text. -/
def ofRule (rule : Rule) : Production := ⟨rule, 0, 0, []⟩

/-- The same production at another place. -/
def moveTo (production : Production) (line column : UInt32) : Production :=
  { production with line, column }

/-- A production with one more child at the end. -/
def append (production : Production) (child : Element) : Production :=
  { production with children := production.children ++ [child] }

/-- A production with one more token at the end, which stands where the
production starts. -/
def appendToken (production : Production) (kind : TokenKind) (text : String) : Production :=
  production.append (.token ⟨kind, text, production.line, production.column⟩)

/-- Where a production starts in a file. -/
def location (file : String) (production : Production) : Location :=
  ⟨file, production.line, production.column⟩

end Production

namespace Element

/-- The token that an element is. -/
def token? : Element → Option Token
  | .token t => some t
  | .production _ => none

/-- The production that an element is. -/
def production? : Element → Option Production
  | .token _ => none
  | .production p => some p

/-- Whether an element can stand where the grammar has an expression. -/
def isExpression : Element → Bool
  | .token t => t.isExpression
  | .production p => p.rule.isExpression

/-- Where an element starts in a file. -/
def location (file : String) : Element → Location
  | .token t => t.location file
  | .production p => p.location file

/-- Whether an element is a token that only separates. -/
def isPunctuation : Element → Bool
  | .token t => t.kind == .punctuation
  | .production _ => false

/-- Whether an element is a token that separates or a keyword. -/
def isPunctuationOrKeyword : Element → Bool
  | .token t => t.kind == .punctuation || t.kind == .keyword
  | .production _ => false

/-- Whether an element is a token that reads `=`, of whatever sort. -/
def isAssign : Element → Bool
  | .token t => t.text == "="
  | .production _ => false

end Element

namespace Production

/-- The children that are productions, in order. -/
def productions (production : Production) : List Production :=
  production.children.filterMap Element.production?

/-- The children that are tokens, in order. -/
def tokens (production : Production) : List Token :=
  production.children.filterMap Element.token?

/-- The children that stand where an expression can stand, in order. -/
def expressions (production : Production) : List Element :=
  production.children.filter Element.isExpression

/-- The first child production of a rule. -/
def child? (production : Production) (rule : Rule) : Option Production :=
  production.productions.find? (·.rule == rule)

/-- The first token of a sort. -/
def firstToken? (production : Production) (kind : TokenKind) : Option Token :=
  production.tokens.find? (·.kind == kind)

/-- Whether some token is of a sort and has a text. -/
def hasToken (production : Production) (kind : TokenKind) (text : String) : Bool :=
  production.tokens.any (·.is kind text)

end Production

end MiniC.ParseTree
