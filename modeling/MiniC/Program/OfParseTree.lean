import MiniC.Program.Basic
import MiniC.Program.Defect
import MiniC.Text.Decimal

/-!
# Programs of parse trees

The program that a parse tree spells.  Every production looks among its
children for the parts it needs and leaves the rest aside; the first part that
is absent or malformed, in the order of the text of the production, is
reported.

A production that has to be read from its children reads them all and then
picks those it needs, so that the recursion is on the tree itself.  Reading a
child that turns out not to be needed has no effect.
-/

namespace MiniC

open ParseTree

/-- The result of reading a part of a parse tree. -/
abbrev Reading (α : Type) : Type := Except Malformation α

/-- A part that must be present. -/
def ParseTree.Production.required {α : Type} (file : String) (production : Production)
    (part : String) : Option α → Reading α
  | some value => .ok value
  | none => .error (production.malformed file (.missing part))

/-! ## Expressions -/

/-- The expression that a token is. -/
def Expr.ofToken (file : String) (token : Token) : Reading Expr :=
  let location := token.location file
  match token.kind with
  | .number =>
      match Text.int32? token.text with
      | some value => .ok (.number location value)
      | none => .error ⟨.primaryExpression, location, .numberRange token.text⟩
  | .identifier => .ok (.name location token.text)
  | _ => .error ⟨.primaryExpression, location, .unexpectedToken token.text⟩

mutual

/-- The token that an element is but for parentheses: the element itself or
the first expression in a parenthesized or primary expression, again and
again. -/
def innerToken? : Element → Option Token
  | .token token => some token
  | .production ⟨.primaryExpression, _, _, children⟩
  | .production ⟨.parenExpression, _, _, children⟩ => innerTokenOfFirst? children
  | .production _ => none

/-- The token that the first expression among elements is but for
parentheses. -/
def innerTokenOfFirst? : List Element → Option Token
  | [] => none
  | child :: children =>
      if child.isExpression then innerToken? child else innerTokenOfFirst? children

end

/-- The name that an element is but for parentheses. -/
def nameToken? (element : Element) : Option Token :=
  (innerToken? element).filter (·.kind == .identifier)

/-- The number that an element is but for parentheses. -/
def numberToken? (element : Element) : Option Token :=
  (innerToken? element).filter (·.kind == .number)

/-- Whether a number is 2³¹, whose negation fits in 32 bits while it does not. -/
def isMinimumMagnitude (text : String) : Bool := Text.integer? text == some 2147483648

/-- The number token of a negated operand that is to be read together with the
sign before it. -/
def negatedMinimum? (op : UnaryOp) (operand : Element) : Option Token :=
  if op = .minus then (numberToken? operand).filter fun token => isMinimumMagnitude token.text
  else none

/-- The text of the operator of a production. -/
def operatorText (file : String) (production : Production) : Reading String := do
  let token ← production.required file "operator" (production.firstToken? .operator)
  return token.text

/-- The name that a production mentions first. -/
def requiredIdentifier (file : String) (production : Production) : Reading Token :=
  production.required file "identifier" (production.firstToken? .identifier)

mutual

/-- The expression that an element spells. -/
def Expr.ofElement (file : String) : Element → Reading Expr
  | .token token => Expr.ofToken file token
  | .production production => Expr.ofProduction file production

/-- The expression that a production spells. -/
def Expr.ofProduction (file : String) : Production → Reading Expr
  | ⟨rule, line, column, children⟩ =>
      let production : Production := ⟨rule, line, column, children⟩
      let location := production.location file
      let operands := operandsOf file children
      match rule with
      | .primaryExpression | .parenExpression => do
          let inner ← production.required file "inner expression" operands.head?
          inner
      | .binaryExpression => do
          let text ← operatorText file production
          match BinaryOp.ofText? text with
          | none => .error (production.malformed file (.unknownBinary text))
          | some op =>
              match operands with
              | [left, right] => return .binary location op (← left) (← right)
              | _ => .error (production.malformed file (.operandCount operands.length))
      | .unaryExpression => do
          let text ← operatorText file production
          match UnaryOp.ofText? text with
          | none => .error (production.malformed file (.unknownUnary text))
          | some op =>
              let element ← production.required file "operand" production.expressions.head?
              -- 2³¹ is no number by itself, so its sign is read with it
              match negatedMinimum? op element with
              | some token => return .number (token.location file) Int32.minValue
              | none =>
                  let operand ← production.required file "operand" operands.head?
                  return .unary location op (← operand)
      | .assignExpression =>
          match production.expressions, operands with
          | [target, _], [_, value] =>
              match nameToken? target with
              | none => .error (production.malformed file .notVariable)
              | some token => return .assign location (token.location file) token.text (← value)
          | _, _ => .error (production.malformed file .notAssignment)
      | .callExpression => do
          let callee ← requiredIdentifier file production
          match argumentsOf? file children with
          | none => return .call location callee.text none
          | some (listLocation, values) =>
              return .call location callee.text (some ⟨listLocation, ← values.mapM id⟩)
      | _ => .error (production.malformed file .notExpression)

/-- The expressions among elements, in order. -/
def operandsOf (file : String) : List Element → List (Reading Expr)
  | [] => []
  | child :: children =>
      if child.isExpression then Expr.ofElement file child :: operandsOf file children
      else operandsOf file children

/-- The place and the expressions of the first list of arguments among
elements. -/
def argumentsOf? (file : String) : List Element → Option (Location × List (Reading Expr))
  | [] => none
  | .production ⟨.args, line, column, children⟩ :: _ =>
      some (⟨file, line, column⟩, operandsOf file children)
  | _ :: children => argumentsOf? file children

end

/-! ## Declarations -/

/-- The child production of a rule, which must be present. -/
def requiredChild (file : String) (production : Production) (rule : Rule) : Reading Production :=
  production.required file rule.construct (production.child? rule)

/-- The name of the type that a production spells. -/
def typeText (file : String) (production : Production) : Reading String := do
  let names := production.tokens.find? fun token =>
    token.kind == .typeName || token.kind == .keyword || token.kind == .identifier
  return (← production.required file "type name" names).text

/-- The first expression after the token `=` of a production. -/
def valueAfterAssign? (production : Production) : Option Element :=
  ((production.children.dropWhile (!·.isAssign)).drop 1).find? Element.isExpression

/-- The variable that a production declares with an initial value. -/
def Declaration.ofParts (file : String) (production : Production) (value : Option Element) :
    Reading Declaration := do
  let typeProduction ← requiredChild file production .typeSpecifier
  let typeName ← typeText file typeProduction
  let name ← requiredIdentifier file production
  let initializer ← value.mapM (Expr.ofElement file)
  return {
    location := production.location file
    typeLocation := typeProduction.location file
    typeName
    nameLocation := name.location file
    name := name.text
    initializer }

/-- The variable that a declaration in a function declares. -/
def Declaration.ofLocal (file : String) (production : Production) : Reading Declaration := do
  if production.children.any Element.isAssign then
    let value ← production.required file "initializer expression" (valueAfterAssign? production)
    Declaration.ofParts file production (some value)
  else Declaration.ofParts file production none

/-- The variable that a declaration at the top of a file declares. -/
def Declaration.ofGlobal (file : String) (production : Production) : Reading Declaration := do
  match production.child? .initializer with
  | some initializer =>
      let value ← initializer.required file "initializer expression" (valueAfterAssign? initializer)
      Declaration.ofParts file production (some value)
  | none => Declaration.ofParts file production none

/-- Reads on in a list of parameters: `pending` is a type whose name is still to
come, and `parameters` are those already read, the last one first. -/
def ParameterList.ofElements (file : String) (list : Production) (pending : Option String)
    (parameters : List Parameter) : List Element → Reading ParameterList
  | [] =>
      if pending.isSome then .error (list.malformed file .unnamedParameter)
      else .ok ⟨list.location file, parameters.reverse⟩
  | element :: elements =>
      match element with
      | .production production =>
          if production.rule = .typeSpecifier then
            if pending.isSome then .error (list.malformed file .unnamedParameter)
            else
              match typeText file production with
              | .ok typeName => ofElements file list (some typeName) parameters elements
              | .error malformation => .error malformation
          else .error ⟨list.rule, production.location file, .notParameter⟩
      | .token token =>
          if token.kind = .identifier then
            match pending with
            | none => .error (list.malformed file (.untypedParameter token.text))
            | some typeName =>
                let parameter : Parameter := ⟨token.location file, token.text, typeName⟩
                ofElements file list none (parameter :: parameters) elements
          else if token.text = "," then ofElements file list pending parameters elements
          else .error ⟨list.rule, token.location file, .notParameter⟩

/-- The parameters that a production lists. -/
def ParameterList.ofProduction (file : String) (production : Production) : Reading ParameterList :=
  ofElements file production none [] production.children

/-- The parameters of a function, if it has a list of them. -/
def parametersOf (file : String) (production : Production) : Reading (Option ParameterList) :=
  (production.child? .fargs).mapM (ParameterList.ofProduction file)

/-! ## Statements -/

mutual

/-- The statement that an element spells. -/
def Stmt.ofElement (file : String) : Element → Reading Stmt
  | .token token =>
      if token.isExpression then Stmt.expression <$> Expr.ofToken file token
      else .error ⟨.statement, token.location file, .unexpectedToken token.text⟩
  | .production production => Stmt.ofProduction file production

/-- The statement that a production spells. -/
def Stmt.ofProduction (file : String) : Production → Reading Stmt
  | ⟨rule, line, column, children⟩ =>
      let production : Production := ⟨rule, line, column, children⟩
      let location := production.location file
      match rule with
      | .statement =>
          if production.hasToken .keyword "return" then do
            let value ← production.expressions.head?.mapM (Expr.ofElement file)
            return .returnValue location value
          else if production.hasToken .keyword "break" then return .breakLoop location
          else
            match innerStatement? file children with
            | some inner => inner
            | none => .error (production.malformed file .emptyStatement)
      | .ifStatement => do
          let condition ←
            production.required file "condition expression" production.expressions.head?
          match blocksOf file children with
          | [thenBlock] =>
              return .ifElse location (← Expr.ofElement file condition) (← thenBlock) none
          | [thenBlock, elseBlock] =>
              return .ifElse location (← Expr.ofElement file condition) (← thenBlock)
                (some (← elseBlock))
          | blocks => .error (production.malformed file (.blockCount blocks.length))
      | .whileStatement => do
          let condition := (children.find? (!·.isPunctuationOrKeyword)).filter Element.isExpression
          let condition ← production.required file "condition expression" condition
          let body ← production.required file "loop body" (loopBody? file children)
          return .whileLoop location (← Expr.ofElement file condition) (← body)
      | .block => do
          return .block ⟨location, ← statementsOf file children⟩
      | .localDeclaration => Stmt.declaration <$> Declaration.ofLocal file production
      | rule =>
          if rule.isExpression then Stmt.expression <$> Expr.ofProduction file production
          else .error (production.malformed file .notStatement)

/-- The first statement among elements that are not punctuation. -/
def innerStatement? (file : String) : List Element → Option (Reading Stmt)
  | [] => none
  | child :: children =>
      if child.isPunctuation then innerStatement? file children
      else some (Stmt.ofElement file child)

/-- The blocks among elements, in order. -/
def blocksOf (file : String) : List Element → List (Reading Block)
  | [] => []
  | .production ⟨.block, line, column, children⟩ :: others =>
      ((statementsOf file children).map fun statements => ⟨⟨file, line, column⟩, statements⟩) ::
        blocksOf file others
  | _ :: others => blocksOf file others

/-- The statement after the condition of a loop, among elements that start
with the condition. -/
def loopBody? (file : String) : List Element → Option (Reading Stmt)
  | [] => none
  | child :: children =>
      if child.isPunctuationOrKeyword then loopBody? file children
      else firstPart? file children

/-- The first statement among elements that are neither punctuation nor
keywords. -/
def firstPart? (file : String) : List Element → Option (Reading Stmt)
  | [] => none
  | child :: children =>
      if child.isPunctuationOrKeyword then firstPart? file children
      else some (Stmt.ofElement file child)

/-- The statements of a block, those of the statement lists in it included. -/
def statementsOf (file : String) : List Element → Reading (List Stmt)
  | [] => .ok []
  | .production ⟨.statementList, _, _, listed⟩ :: children => do
      let front ← listedStatements file listed
      return front ++ (← statementsOf file children)
  | child :: children =>
      if child.isPunctuation then statementsOf file children
      else do
        let statement ← Stmt.ofElement file child
        return statement :: (← statementsOf file children)

/-- The statements of a statement list. -/
def listedStatements (file : String) : List Element → Reading (List Stmt)
  | [] => .ok []
  | child :: children =>
      if child.isPunctuation then listedStatements file children
      else do
        let statement ← Stmt.ofElement file child
        return statement :: (← listedStatements file children)

end

/-- The block that a production spells. -/
def Block.ofProduction (file : String) (production : Production) : Reading Block := do
  return ⟨production.location file, ← statementsOf file production.children⟩

/-! ## Files -/

/-- The function that a production defines. -/
def FunctionDefinition.ofProduction (file : String) (production : Production) :
    Reading FunctionDefinition := do
  let typeProduction ← requiredChild file production .typeSpecifier
  let returnType ← typeText file typeProduction
  let name ← requiredIdentifier file production
  let body ← requiredChild file production .block
  let parameters ← parametersOf file production
  let body ← Block.ofProduction file body
  return {
    location := production.location file
    name := name.text
    returnType
    returnTypeLocation := typeProduction.location file
    parameters
    body }

/-- The function that a production declares. -/
def FunctionDeclaration.ofProduction (file : String) (production : Production) :
    Reading FunctionDeclaration := do
  let typeProduction ← requiredChild file production .typeSpecifier
  let returnType ← typeText file typeProduction
  let name ← requiredIdentifier file production
  let parameters ← parametersOf file production
  return { location := production.location file, name := name.text, returnType, parameters }

/-- What a production at the top of a file spells. -/
def Item.ofProduction (file : String) (production : Production) : Reading Item :=
  match production.rule with
  | .functionDefinition => Item.function <$> FunctionDefinition.ofProduction file production
  | .functionDeclaration => Item.external <$> FunctionDeclaration.ofProduction file production
  | .declaration =>
      match production.child? .functionDeclaration with
      | some declared => Item.external <$> FunctionDeclaration.ofProduction file declared
      | none => Item.global <$> Declaration.ofGlobal file production
  | _ => .error (production.malformed file .notFileItem)

/-- The program that a parse tree spells.  Tokens at the top of a file stand
for nothing. -/
def CompileUnit.ofProduction (file : String) (production : Production) : Reading CompileUnit :=
  if production.rule = .compileUnit then do
    let items ← production.productions.mapM (Item.ofProduction file)
    return ⟨production.location file, items⟩
  else .error (production.malformed file .notCompileUnit)

end MiniC
