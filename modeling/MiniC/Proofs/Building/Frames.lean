import MiniC.Compiler

/-!
# Building a syntax tree step by step

`Compiler.build` first reads the whole program and then stores its tree.  The builder of
this module goes through the parse tree once and does both at the same time.  It keeps a
stack of frames; each node that it creates is attached, by `Arena.attach`, to the slot
that the top frame names, so that an attachment that is refused ends the construction, as
does a malformed production, with what comes before already in the arena.

The builder has the cases of `Expr.ofProduction`, `Stmt.ofProduction` and so on, and
reports the same malformations; where these give a construct it creates a node.
-/

namespace MiniC.Building

open Ast (Arena Id Kind)
open ParseTree

/-! ## Frames -/

/-- A slot of a node, where the nodes that are created next are attached. -/
structure Frame where
  parent : Id
  slot : Nat

/-- What is done to an arena under a stack of frames. -/
abbrev Builder (α : Type) := ReaderT (List Frame) (StateT Arena (Except Error)) α

/-- Creates a node and attaches it to the top frame, if there is one. -/
def create (kind : Kind) (location : Location) : Builder Id := do
  let id ← modifyGet (·.create kind location)
  match (← read).head? with
  | none => return id
  | some frame =>
      let attached ← (← get).attach frame.parent id frame.slot
      set attached
      return id

/-- Builds with one more frame on the stack. -/
def within {α : Type} (parent : Id) (slot : Nat) (action : Builder α) : Builder α :=
  withReader (⟨parent, slot⟩ :: ·) action

/-- Ends the construction. -/
def fail {α : Type} (malformation : Malformation) : Builder α := throw malformation.toError

/-- Reads a part of the parse tree. -/
def found {α : Type} : Reading α → Builder α
  | .ok value => pure value
  | .error malformation => fail malformation

/-- Creates a node and builds what is in its slots. -/
def node (kind : Kind) (location : Location)
    (first second third : Builder Unit := pure ()) : Builder Unit := do
  let id ← create kind location
  within id 0 first
  within id 1 second
  within id 2 third

/-! ## Expressions -/

/-- Builds the expression that a token is. -/
def operand (file : String) (token : Token) : Builder Unit :=
  let location := token.location file
  match token.kind with
  | .number =>
      match Text.int32? token.text with
      | some value => node (.number value) location
      | none => fail ⟨.primaryExpression, location, .numberRange token.text⟩
  | .identifier => node (.identifier token.text) location
  | _ => fail ⟨.primaryExpression, location, .unexpectedToken token.text⟩

mutual

/-- Builds the expression that an element spells. -/
def expression (file : String) : Element → Builder Unit
  | .token token => operand file token
  | .production production => expressionOf file production

/-- Builds the expression that a production spells. -/
def expressionOf (file : String) : Production → Builder Unit
  | ⟨rule, line, column, children⟩ =>
      let production : Production := ⟨rule, line, column, children⟩
      let location := production.location file
      let parts := operands file children
      match rule with
      | .primaryExpression | .parenExpression => do
          let inner ← found (production.required file "inner expression" parts.head?)
          inner
      | .binaryExpression => do
          let text ← found (operatorText file production)
          match BinaryOp.ofText? text with
          | none => fail (production.malformed file (.unknownBinary text))
          | some op =>
              match parts with
              | [left, right] => node (.binary op) location left right
              | _ => fail (production.malformed file (.operandCount parts.length))
      | .unaryExpression => do
          let text ← found (operatorText file production)
          match UnaryOp.ofText? text with
          | none => fail (production.malformed file (.unknownUnary text))
          | some op =>
              let element ← found (production.required file "operand" production.expressions.head?)
              match negatedMinimum? op element with
              | some token => node (.number Int32.minValue) (token.location file)
              | none =>
                  let part ← found (production.required file "operand" parts.head?)
                  node (.unary op) location part
      | .assignExpression =>
          match production.expressions, parts with
          | [target, _], [_, value] =>
              match nameToken? target with
              | none => fail (production.malformed file .notVariable)
              | some token => node .assignment location (operand file token) value
          | _, _ => fail (production.malformed file .notAssignment)
      | .callExpression => do
          let callee ← found (requiredIdentifier file production)
          match arguments? file children with
          | none => node (.call callee.text) location
          | some (listLocation, values) =>
              node (.call callee.text) location (node .argumentList listLocation (values.forM id))
      | _ => fail (production.malformed file .notExpression)

/-- How the expressions among elements are built, in order. -/
def operands (file : String) : List Element → List (Builder Unit)
  | [] => []
  | child :: children =>
      if child.isExpression then expression file child :: operands file children
      else operands file children

/-- The place of the first list of arguments among elements, and how its expressions are
built. -/
def arguments? (file : String) : List Element → Option (Location × List (Builder Unit))
  | [] => none
  | .production ⟨.args, line, column, children⟩ :: _ =>
      some (⟨file, line, column⟩, operands file children)
  | _ :: children => arguments? file children

end

/-- Builds the expression that an element spells, if there is one. -/
def expression? (file : String) : Option Element → Builder Unit
  | none => pure ()
  | some element => expression file element

/-! ## Declarations -/

/-- Builds the type, the name and the initial value of a declared variable. -/
def declaredVariable (file : String) (production : Production) (value : Option Element) :
    Builder Unit := do
  let type ← found (requiredChild file production .typeSpecifier)
  let typeName ← found (typeText file type)
  let name ← found (requiredIdentifier file production)
  node (.typeSpecifier typeName) (type.location file)
  node (.identifier name.text) (name.location file)
  expression? file value

/-- Builds the declaration of a variable in a function. -/
def localDeclaration (file : String) (production : Production) : Builder Unit := do
  let location := production.location file
  if production.children.any Element.isAssign then
    let value ← found <|
      production.required file "initializer expression" (valueAfterAssign? production)
    node .localDeclaration location (declaredVariable file production (some value))
  else node .localDeclaration location (declaredVariable file production none)

/-- Builds the declaration of a variable at the top of a file. -/
def globalDeclaration (file : String) (production : Production) : Builder Unit := do
  let location := production.location file
  match production.child? .initializer with
  | some initializer =>
      let value ← found <|
        initializer.required file "initializer expression" (valueAfterAssign? initializer)
      node .globalDeclaration location (declaredVariable file production (some value))
  | none => node .globalDeclaration location (declaredVariable file production none)

/-- Builds the parameters in a list, from where `pending` is a type whose name is still to
come. -/
def parametersFrom (file : String) (list : Production) (pending : Option String) :
    List Element → Builder Unit
  | [] =>
      if pending.isSome then fail (list.malformed file .unnamedParameter)
      else pure ()
  | element :: elements =>
      match element with
      | .production production =>
          if production.rule = .typeSpecifier then
            if pending.isSome then fail (list.malformed file .unnamedParameter)
            else do
              let typeName ← found (typeText file production)
              parametersFrom file list (some typeName) elements
          else fail ⟨list.rule, production.location file, .notParameter⟩
      | .token token =>
          if token.kind = .identifier then
            match pending with
            | none => fail (list.malformed file (.untypedParameter token.text))
            | some typeName => do
                node (.parameter token.text typeName) (token.location file)
                parametersFrom file list none elements
          else if token.text = "," then parametersFrom file list pending elements
          else fail ⟨list.rule, token.location file, .notParameter⟩

/-- Builds the list of parameters of a function, if it has one. -/
def parameters (file : String) (production : Production) : Builder Unit :=
  match production.child? .fargs with
  | none => pure ()
  | some list =>
      node .parameterList (list.location file) (parametersFrom file list none list.children)

/-! ## Statements -/

mutual

/-- Builds the statement that an element spells. -/
def statement (file : String) : Element → Builder Unit
  | .token token =>
      if token.isExpression then operand file token
      else fail ⟨.statement, token.location file, .unexpectedToken token.text⟩
  | .production production => statementOf file production

/-- Builds the statement that a production spells. -/
def statementOf (file : String) : Production → Builder Unit
  | ⟨rule, line, column, children⟩ =>
      let production : Production := ⟨rule, line, column, children⟩
      let location := production.location file
      match rule with
      | .statement =>
          if production.hasToken .keyword "return" then
            node .returnStatement location (expression? file production.expressions.head?)
          else if production.hasToken .keyword "break" then node .breakStatement location
          else
            match inner? file children with
            | some inner => inner
            | none => fail (production.malformed file .emptyStatement)
      | .ifStatement => do
          let condition ← found <|
            production.required file "condition expression" production.expressions.head?
          match blocks file children with
          | [thenBlock] => node .ifStatement location (expression file condition) thenBlock
          | [thenBlock, elseBlock] =>
              node .ifStatement location (expression file condition) thenBlock elseBlock
          | others => fail (production.malformed file (.blockCount others.length))
      | .whileStatement => do
          let condition := (children.find? (!·.isPunctuationOrKeyword)).filter Element.isExpression
          let condition ← found (production.required file "condition expression" condition)
          let body ← found (production.required file "loop body" (body? file children))
          node .whileStatement location (expression file condition) body
      | .block => node .block location (statements file children)
      | .localDeclaration => localDeclaration file production
      | rule =>
          if rule.isExpression then expressionOf file production
          else fail (production.malformed file .notStatement)

/-- How the first statement among elements that are not punctuation is built. -/
def inner? (file : String) : List Element → Option (Builder Unit)
  | [] => none
  | child :: children =>
      if child.isPunctuation then inner? file children
      else some (statement file child)

/-- How the blocks among elements are built, in order. -/
def blocks (file : String) : List Element → List (Builder Unit)
  | [] => []
  | .production ⟨.block, line, column, children⟩ :: others =>
      node .block ⟨file, line, column⟩ (statements file children) :: blocks file others
  | _ :: others => blocks file others

/-- How the statement after the condition of a loop is built, among elements that start
with the condition. -/
def body? (file : String) : List Element → Option (Builder Unit)
  | [] => none
  | child :: children =>
      if child.isPunctuationOrKeyword then body? file children
      else first? file children

/-- How the first statement among elements that are neither punctuation nor keywords is
built. -/
def first? (file : String) : List Element → Option (Builder Unit)
  | [] => none
  | child :: children =>
      if child.isPunctuationOrKeyword then first? file children
      else some (statement file child)

/-- Builds the statements of a block, those of the statement lists in it included. -/
def statements (file : String) : List Element → Builder Unit
  | [] => pure ()
  | .production ⟨.statementList, _, _, listed⟩ :: children => do
      listedStatements file listed
      statements file children
  | child :: children =>
      if child.isPunctuation then statements file children
      else do
        statement file child
        statements file children

/-- Builds the statements of a statement list. -/
def listedStatements (file : String) : List Element → Builder Unit
  | [] => pure ()
  | child :: children =>
      if child.isPunctuation then listedStatements file children
      else do
        statement file child
        listedStatements file children

end

/-! ## Files -/

/-- Builds the function that a production defines. -/
def functionDefinition (file : String) (production : Production) : Builder Unit := do
  let type ← found (requiredChild file production .typeSpecifier)
  let returnType ← found (typeText file type)
  let name ← found (requiredIdentifier file production)
  let body ← found (requiredChild file production .block)
  node (.functionDefinition name.text returnType) (production.location file)
    (parameters file production)
    (node .block (body.location file) (statements file body.children))
    (node (.typeSpecifier returnType) (type.location file))

/-- Builds the function that a production declares. -/
def functionDeclaration (file : String) (production : Production) : Builder Unit := do
  let type ← found (requiredChild file production .typeSpecifier)
  let returnType ← found (typeText file type)
  let name ← found (requiredIdentifier file production)
  node (.functionDeclaration name.text returnType) (production.location file)
    (parameters file production)

/-- Builds what a production at the top of a file spells. -/
def item (file : String) (production : Production) : Builder Unit :=
  match production.rule with
  | .functionDefinition => functionDefinition file production
  | .functionDeclaration => functionDeclaration file production
  | .declaration =>
      match production.child? .functionDeclaration with
      | some declared => functionDeclaration file declared
      | none => globalDeclaration file production
  | _ => fail (production.malformed file .notFileItem)

/-- Builds a file.  Its node is the root. -/
def compileUnit (file : String) (production : Production) : Builder Unit :=
  if production.rule = .compileUnit then do
    let id ← create .compileUnit (production.location file)
    modify (·.setRoot id)
    within id 0 (production.productions.forM (item file))
  else fail (production.malformed file .notCompileUnit)

/-- The arena that is built from a parse tree, without frames at the start. -/
def build (file : String) (production : Production) : Except Error Arena :=
  (compileUnit file production [] Arena.empty).map Prod.snd

end MiniC.Building
