import MiniC.Proofs.Reading.Parts

/-!
# The grammar

Which programs the parse trees of the grammar spell.  A production of the grammar has its
parts in the order of its rule, and each part is spelled in turn.  Symbols between the
parts are not counted: parentheses, braces and semicolons may stand where they like.
What matters of them is asked for by itself: the operator of an expression, the `=` of an
initial value, the `else` between two blocks, and the words `return` and `break`.

Every construct of the program is located at its production, and names, numbers and
parameters at their tokens.  Parentheses and the productions that only wrap another one
stand for what is in them.
-/

namespace MiniC

namespace ParseTree

/-- A number token writes an integer. -/
def Token.Writes (token : Token) (value : Int) : Prop :=
  token.kind = .number ∧ Text.integer? token.text = some value

/-- An element is a token, possibly in parentheses. -/
inductive Wraps (token : Token) : Element → Prop
  | token : Wraps token (.token token)
  | wrapper {production : Production} {inner : Element} : production.rule.isWrapper →
      production.parts = [inner] → Wraps token inner → Wraps token (.production production)

/-- The texts of the operators among the children of a production. -/
def Production.operators (production : Production) : List String :=
  (production.tokens.filter (·.kind == .operator)).map Token.text

/-- The children of a production before its first `=` that are no symbols. -/
def Production.beforeAssign (production : Production) : List Element :=
  partsOf (production.children.takeWhile (!·.isAssign))

/-- The children of a production after its first `=` that are no symbols. -/
def Production.afterAssign (production : Production) : List Element :=
  partsOf ((production.children.dropWhile (!·.isAssign)).drop 1)

theorem Production.parts_eq_beforeAssign (production : Production) :
    production.parts =
      production.beforeAssign ++ partsOf (production.children.dropWhile (!·.isAssign)) := by
  rw [beforeAssign, ← partsOf_append, List.takeWhile_append_dropWhile, parts]

/-- Whether an element is the word `else`. -/
def Element.isElse : Element → Bool
  | .token t => t.is .keyword "else"
  | .production _ => false

/-- The word `else` of a production, if it has one, stands after two parts, and one part
follows it. -/
def Production.ElseInPlace (production : Production) : Prop :=
  production.children.any Element.isElse →
    (partsOf (production.children.takeWhile (!·.isElse))).length = 2 ∧
      production.parts.length = 3

end ParseTree

open ParseTree

/-- The value of a variable is looked for among the parts after the `=`. -/
theorem valueAfterAssign?_eq (production : Production) :
    valueAfterAssign? production = production.afterAssign.find? Element.isExpression := by
  rw [valueAfterAssign?, Production.afterAssign, ← List.head?_filter, ← List.head?_filter,
    filter_partsOf fun _ h => Element.not_isSymbol_of_isExpression h]

variable (file : String)

/-! ## Expressions -/

mutual

/-- An element of a parse tree spells an expression. -/
inductive SpellsExpr : Element → Expr → Prop
  /-- A number of 32 bits. -/
  | number {token : Token} {value : Int} : token.Writes value → -2147483648 ≤ value →
      value < 2147483648 →
      SpellsExpr (.token token) (.number (token.location file) (Int32.ofInt value))
  | name {token : Token} : token.kind = .identifier →
      SpellsExpr (.token token) (.name (token.location file) token.text)
  | wrapper {production : Production} {inner : Element} {expr : Expr} :
      production.rule.isWrapper → production.parts = [inner] → SpellsExpr inner expr →
      SpellsExpr (.production production) expr
  | binary {production : Production} {left right : Element} {op : BinaryOp} {first second : Expr} :
      production.rule = .binaryExpression → production.parts = [left, right] →
      production.operators = [op.text] → SpellsExpr left first → SpellsExpr right second →
      SpellsExpr (.production production) (.binary (production.location file) op first second)
  | unary {production : Production} {operand : Element} {op : UnaryOp} {value : Expr} :
      production.rule = .unaryExpression → production.parts = [operand] →
      production.operators = [op.text] → SpellsExpr operand value →
      SpellsExpr (.production production) (.unary (production.location file) op value)
  /-- The least number of 32 bits is written with its sign apart. -/
  | minimum {production : Production} {operand : Element} {token : Token} :
      production.rule = .unaryExpression → production.parts = [operand] →
      production.operators = [UnaryOp.minus.text] → Wraps token operand →
      token.Writes 2147483648 →
      SpellsExpr (.production production) (.number (token.location file) Int32.minValue)
  | assign {production : Production} {target value : Element} {place : Location} {name : String}
      {assigned : Expr} :
      production.rule = .assignExpression → production.parts = [target, value] →
      SpellsExpr target (.name place name) → SpellsExpr value assigned →
      SpellsExpr (.production production)
        (.assign (production.location file) place name assigned)
  | call {production : Production} {callee : Token} :
      production.rule = .callExpression → production.parts = [.token callee] →
      callee.kind = .identifier →
      SpellsExpr (.production production) (.call (production.location file) callee.text none)
  | callWith {production list : Production} {callee : Token} {values : List Expr} :
      production.rule = .callExpression →
      production.parts = [.token callee, .production list] → callee.kind = .identifier →
      list.rule = .args → SpellsExprs list.parts values →
      SpellsExpr (.production production)
        (.call (production.location file) callee.text (some ⟨list.location file, values⟩))

/-- Elements spell expressions, one each. -/
inductive SpellsExprs : List Element → List Expr → Prop
  | nil : SpellsExprs [] []
  | cons {element : Element} {elements : List Element} {expr : Expr} {exprs : List Expr} :
      SpellsExpr element expr → SpellsExprs elements exprs →
      SpellsExprs (element :: elements) (expr :: exprs)

end

/-! ## Declarations -/

/-- A production spells the name of a type. -/
inductive SpellsType : Production → String → Prop
  | word {production : Production} {token : Token} : production.rule = .typeSpecifier →
      production.productions = [] → production.tokens.filter Token.isTypeWord = [token] →
      SpellsType production token.text

/-- A production spells the declaration of a variable in a function. -/
inductive SpellsLocal : Production → Declaration → Prop
  | plain {production type : Production} {name : Token} {typeName : String} :
      production.rule = .localDeclaration → production.children.any Element.isAssign = false →
      production.parts = [.production type, .token name] → SpellsType type typeName →
      name.kind = .identifier →
      SpellsLocal production ⟨production.location file, type.location file, typeName,
        name.location file, name.text, none⟩
  | valued {production type : Production} {name : Token} {typeName : String} {value : Element}
      {initial : Expr} :
      production.rule = .localDeclaration → production.children.any Element.isAssign = true →
      production.beforeAssign = [.production type, .token name] → SpellsType type typeName →
      name.kind = .identifier → production.afterAssign = [value] → SpellsExpr file value initial →
      SpellsLocal production ⟨production.location file, type.location file, typeName,
        name.location file, name.text, some initial⟩

/-- A production spells the declaration of a variable of the file. -/
inductive SpellsGlobal : Production → Declaration → Prop
  | plain {production type : Production} {name : Token} {typeName : String} :
      production.rule = .declaration → production.parts = [.production type, .token name] →
      SpellsType type typeName → name.kind = .identifier →
      SpellsGlobal production ⟨production.location file, type.location file, typeName,
        name.location file, name.text, none⟩
  | valued {production type initializer : Production} {name : Token} {typeName : String}
      {value : Element} {initial : Expr} :
      production.rule = .declaration →
      production.parts = [.production type, .token name, .production initializer] →
      SpellsType type typeName → name.kind = .identifier → initializer.rule = .initializer →
      initializer.children.any Element.isAssign = true → initializer.beforeAssign = [] →
      initializer.afterAssign = [value] → SpellsExpr file value initial →
      SpellsGlobal production ⟨production.location file, type.location file, typeName,
        name.location file, name.text, some initial⟩

/-- Types and names in turns spell parameters. -/
inductive SpellsParameters : List Element → List Parameter → Prop
  | nil : SpellsParameters [] []
  | cons {type : Production} {name : Token} {typeName : String} {elements : List Element}
      {parameters : List Parameter} :
      SpellsType type typeName → name.kind = .identifier → SpellsParameters elements parameters →
      SpellsParameters (.production type :: .token name :: elements)
        (⟨name.location file, name.text, typeName⟩ :: parameters)

/-- Elements spell the list of parameters of a function, if there is one. -/
inductive SpellsParameterList : List Element → Option ParameterList → Prop
  | none : SpellsParameterList [] none
  | some {list : Production} {parameters : List Parameter} : list.rule = .fargs →
      SpellsParameters file (list.children.filter (!·.isComma)) parameters →
      SpellsParameterList [.production list] (some ⟨list.location file, parameters⟩)

/-! ## Statements -/

mutual

/-- An element of a parse tree spells a statement. -/
inductive SpellsStmt : Element → Stmt → Prop
  | expression {element : Element} {expr : Expr} : SpellsExpr file element expr →
      SpellsStmt element (.expression expr)
  | wrapper {production : Production} {inner : Element} {statement : Stmt} :
      production.rule = .statement → production.hasToken .keyword "return" = false →
      production.hasToken .keyword "break" = false →
      production.children.filter (!·.isPunctuation) = [inner] → SpellsStmt inner statement →
      SpellsStmt (.production production) statement
  | declaration {production : Production} {declared : Declaration} :
      SpellsLocal file production declared →
      SpellsStmt (.production production) (.declaration declared)
  | block {production : Production} {block : Block} : SpellsBlock production block →
      SpellsStmt (.production production) (.block block)
  | ifThen {production chosen : Production} {condition : Element} {test : Expr}
      {thenBlock : Block} :
      production.rule = .ifStatement → production.parts = [condition, .production chosen] →
      production.ElseInPlace → SpellsExpr file condition test → SpellsBlock chosen thenBlock →
      SpellsStmt (.production production)
        (.ifElse (production.location file) test thenBlock none)
  | ifElse {production chosen other : Production} {condition : Element} {test : Expr}
      {thenBlock elseBlock : Block} :
      production.rule = .ifStatement →
      production.parts = [condition, .production chosen, .production other] →
      production.ElseInPlace → SpellsExpr file condition test → SpellsBlock chosen thenBlock →
      SpellsBlock other elseBlock →
      SpellsStmt (.production production)
        (.ifElse (production.location file) test thenBlock (some elseBlock))
  | whileLoop {production : Production} {condition body : Element} {test : Expr}
      {repeated : Stmt} :
      production.rule = .whileStatement →
      production.children.filter (!·.isPunctuationOrKeyword) = [condition, body] →
      SpellsExpr file condition test → SpellsStmt body repeated →
      SpellsStmt (.production production) (.whileLoop (production.location file) test repeated)
  | returnNone {production : Production} : production.rule = .statement →
      production.hasToken .keyword "return" = true → production.parts = [] →
      SpellsStmt (.production production) (.returnValue (production.location file) none)
  | returnValue {production : Production} {value : Element} {expr : Expr} :
      production.rule = .statement → production.hasToken .keyword "return" = true →
      production.parts = [value] → SpellsExpr file value expr →
      SpellsStmt (.production production) (.returnValue (production.location file) (some expr))
  | breakLoop {production : Production} : production.rule = .statement →
      production.hasToken .keyword "return" = false →
      production.hasToken .keyword "break" = true → production.parts = [] →
      SpellsStmt (.production production) (.breakLoop (production.location file))

/-- A production spells a block.  The statements may stand in lists of statements. -/
inductive SpellsBlock : Production → Block → Prop
  | block {production : Production} {statements : List Stmt} : production.rule = .block →
      SpellsStmts (statementElements production.children) statements →
      SpellsBlock production ⟨production.location file, statements⟩

/-- Elements spell statements, one each. -/
inductive SpellsStmts : List Element → List Stmt → Prop
  | nil : SpellsStmts [] []
  | cons {element : Element} {elements : List Element} {statement : Stmt}
      {statements : List Stmt} :
      SpellsStmt element statement → SpellsStmts elements statements →
      SpellsStmts (element :: elements) (statement :: statements)

end

/-! ## Files -/

/-- A production spells the declaration of a function that is defined elsewhere. -/
inductive SpellsFunction : Production → FunctionDeclaration → Prop
  | function {production type : Production} {name : Token} {typeName : String}
      {list : List Element} {parameters : Option ParameterList} :
      production.rule = .functionDeclaration →
      production.parts = .production type :: .token name :: list → SpellsType type typeName →
      name.kind = .identifier → SpellsParameterList file list parameters →
      SpellsFunction production ⟨production.location file, name.text, typeName, parameters⟩

/-- A production spells an item of a file. -/
inductive SpellsItem : Production → Item → Prop
  | function {production type body : Production} {name : Token} {typeName : String}
      {list : List Element} {parameters : Option ParameterList} {block : Block} :
      production.rule = .functionDefinition →
      production.parts = .production type :: .token name :: (list ++ [.production body]) →
      SpellsType type typeName → name.kind = .identifier →
      SpellsParameterList file list parameters → SpellsBlock file body block →
      SpellsItem production (.function ⟨production.location file, name.text, typeName,
        type.location file, parameters, block⟩)
  | external {production : Production} {declared : FunctionDeclaration} :
      SpellsFunction file production declared → SpellsItem production (.external declared)
  | wrapper {production inner : Production} {declared : FunctionDeclaration} :
      production.rule = .declaration → production.parts = [.production inner] →
      SpellsFunction file inner declared → SpellsItem production (.external declared)
  | global {production : Production} {declared : Declaration} :
      SpellsGlobal file production declared → SpellsItem production (.global declared)

/-- Productions spell the items of a file, one each. -/
inductive SpellsItems : List Production → List Item → Prop
  | nil : SpellsItems [] []
  | cons {production : Production} {productions : List Production} {item : Item}
      {items : List Item} :
      SpellsItem file production item → SpellsItems productions items →
      SpellsItems (production :: productions) (item :: items)

/-- **A parse tree spells a program.** -/
inductive SpellsUnit : Production → CompileUnit → Prop
  | unit {production : Production} {items : List Item} : production.rule = .compileUnit →
      SpellsItems file production.productions items →
      SpellsUnit production ⟨production.location file, items⟩

end MiniC
