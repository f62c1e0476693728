import Lox.Grammar.Expression
import Lox.Program.Statement

/-!
Reading statements and declarations. A mistake abandons the declaration in which it is found, and
reading goes on at the next boundary. Rules and depth are as they are for expressions.
-/

namespace Lox.Grammar

open Reader

/-- Records a mistake at a keyword that stands outside of functions. -/
def checkInside (keyword : Token) : Reader Unit := do
  if (← get).functionDepth = 0 then record (SyntaxError.atToken keyword .returnOutside)

section

variable (expression : Reader Expression)

/-- An expression and its semicolon. -/
def expressionStatement : Reader Statement := do
  let value ← expression
  let _ ← require .expressionEnd
  return .expression value

/-- What follows `print`. -/
def printStatement : Reader Statement := do
  let value ← expression
  let _ ← require .printEnd
  return .print value

/-- What follows `var`. -/
def variableDeclaration : Reader Statement := do
  let name ← require .variableName
  let initial ← ifAt .equal expression
  let _ ← require .variableEnd
  return .declareVar (ident name) initial

/-- What follows the keyword `return`. Outside of functions it is recorded as a mistake. -/
def returnStatement (keyword : Token) : Reader Statement := do
  checkInside keyword
  let value ← unlessAt .semicolon none (some <$> expression)
  let _ ← require .returnEnd
  return .returnFrom keyword.line value

/-- The condition of an `if` or a `while`, in its parentheses. -/
def condition (opening closing : Requirement) : Reader Expression := do
  let _ ← require opening
  let condition ← expression
  let _ ← require closing
  return condition

/-- The clauses of a `for`. -/
structure ForClauses where
  initializer : Option Statement
  condition : Option Expression
  increment : Option Expression

/-- The first clause of a `for`, with its semicolon. -/
def forInitializer : Reader (Option Statement) := do
  if ← accept .semicolon then return none
  else if ← accept .kwVar then some <$> variableDeclaration expression
  else some <$> expressionStatement expression

/-- What follows `for`, up to its body. -/
def forClauses : Reader ForClauses := do
  let _ ← require .forOpen
  let initializer ← forInitializer expression
  let condition ← unlessAt .semicolon none (some <$> expression)
  let _ ← require .forConditionEnd
  let increment ← unlessAt .rightParen none (some <$> expression)
  let _ ← require .forClose
  return ⟨initializer, condition, increment⟩

/-- What follows the keyword `loop`, up to its body. -/
def loopHead : Reader (Ident × Expression) := do
  let _ ← require .loopOpen
  let _ ← require .loopVar
  let name ← require .variableName
  let _ ← require .loopIn
  let iterable ← expression
  let _ ← require .loopClose
  return (ident name, iterable)

end

/-- The block that a `for` on a line stands for. Without a condition the loop never ends. -/
def forStatement (line : Nat) (clauses : ForClauses) (body : Statement) : Statement :=
  let body :=
    match clauses.increment with
    | some increment => .block [body, .expression increment]
    | none => body
  let always := Expression.single (.atom (.bool true) line)
  let loop := Statement.whileLoop (clauses.condition.getD always) body
  match clauses.initializer with
  | some initializer => .block [initializer, loop]
  | none => loop

/-- The parameters of a function, of which `count` are read. Each one over the limit is recorded. -/
def parametersOf (others : Reader (List Ident)) (count : Nat) : Reader (List Ident) := do
  limit count .tooManyParameters
  let parameter ← require .parameterName
  if ← accept .comma then
    let others ← others
    return ident parameter :: others
  else return [ident parameter]

/-- The parameters of a function, of which `count` are read. -/
def parameters : Nat → Nat → Reader (List Ident)
  | 0, _ => fail (.missing .parameterName)
  | depth + 1, count => parametersOf (parameters depth (count + 1)) count

/-- A function up to its body: what follows `fun`. -/
def functionHead (parameters : Reader (List Ident)) : Reader (Ident × List Ident) := do
  let name ← require .functionName
  let _ ← require .parametersOpen
  let names ← unlessAt .rightParen [] parameters
  let _ ← require .parametersClose
  let _ ← require .bodyOpen
  return (ident name, names)

/-- A statement, which is no declaration. -/
def statementOf (expression : Reader Expression) (statement : Reader Statement)
    (block : Reader (List Statement)) : Reader Statement := do
  let t ← current
  match t.kind with
  | .kwPrint =>
    let _ ← advance
    printStatement expression
  | .kwReturn =>
    let _ ← advance
    returnStatement expression t
  | .leftBrace =>
    let _ ← advance
    let body ← block
    return .block body
  | .kwIf =>
    let _ ← advance
    let condition ← condition expression .ifOpen .ifClose
    let success ← statement
    let failure ← ifAt .kwElse statement
    return .branch condition success failure
  | .kwWhile =>
    let _ ← advance
    let condition ← condition expression .whileOpen .whileClose
    let body ← statement
    return .whileLoop condition body
  | .kwFor =>
    let _ ← advance
    let clauses ← forClauses expression
    let body ← statement
    return forStatement t.line clauses body
  | .kwLoop =>
    let _ ← advance
    let (name, iterable) ← loopHead expression
    let body ← statement
    return .stringLoop name iterable body
  | _ => expressionStatement expression

/-- A declaration or a statement. -/
def declarationOf (expression : Reader Expression) (parameters : Reader (List Ident))
    (statement : Reader Statement) (block : Reader (List Statement)) : Reader Statement := do
  if ← accept .kwFun then
    let (name, parameters) ← functionHead parameters
    let body ← insideFunction block
    return .declareFun name parameters body
  else if ← accept .kwVar then variableDeclaration expression
  else statement

/-- What follows the brace that opens a block. -/
def blockOf (declarations : Reader (List Statement)) : Reader (List Statement) := do
  let body ← declarations
  let _ ← require .blockClose
  return body

/-- Declarations up to the end, or up to the brace that closes a block. -/
def declarationsOf (declaration : Reader Statement) (others : Reader (List Statement))
    (inBlock : Bool) : Reader (List Statement) := do
  if (← sees .eof) || (inBlock && (← sees .rightBrace)) then return []
  else
    match ← recovering declaration with
    | some statement =>
      let others ← others
      return statement :: others
    | none => others

mutual

/-- A statement, which is no declaration. -/
def statement : Nat → Reader Statement
  | 0 => fail .noExpression
  | depth + 1 => statementOf (expression depth) (statement depth) (block depth)

/-- A declaration or a statement. -/
def declaration : Nat → Reader Statement
  | 0 => fail .noExpression
  | depth + 1 =>
    declarationOf (expression depth) (parameters depth 0) (statement depth) (block depth)

/-- What follows the brace that opens a block. -/
def block : Nat → Reader (List Statement)
  | 0 => fail (.missing .blockClose)
  | depth + 1 => blockOf (declarations depth true)

/-- Declarations up to the end, or up to the brace that closes a block. -/
def declarations : Nat → Bool → Reader (List Statement)
  | 0, _ => pure []
  | depth + 1, inBlock => declarationsOf (declaration depth) (declarations depth inBlock) inBlock

end

/-- A depth that is enough for the tokens that are left. -/
def ample (s : Reading) : Nat :=
  4 * (s.rest.length + 2)

/-- Reads tokens as a program, or yields all mistakes. -/
def program (s : Reading) : Except (List SyntaxError) (List Statement) :=
  match declarations (ample s) false s with
  | .ok statements t => if t.errors.isEmpty then .ok statements else .error t.errors.toList
  | .error e t => .error (t.errors.push e).toList

end Lox.Grammar
