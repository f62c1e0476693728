import Lox.Token.Basic

/-!
Mistakes against the grammar. Some stop the declaration in which they are found, others are only
recorded.
-/

namespace Lox

/-- The most arguments of a call and parameters of a function. -/
def arityLimit : Nat :=
  255

/-- The places of the grammar at which one kind of token must stand. -/
inductive Requirement
  | floorOpen | floorClose | substringOpen | substringComma | substringClose | groupClose
  | argumentsClose | printEnd | expressionEnd | variableName | variableEnd | functionName
  | parametersOpen | parameterName | parametersClose | bodyOpen | blockClose | ifOpen | ifClose
  | whileOpen | whileClose | forOpen | forConditionEnd | forClose | returnEnd | loopOpen | loopVar
  | loopIn | loopClose
deriving DecidableEq, Inhabited

namespace Requirement

/-- The kind of token that must stand there. -/
def kind : Requirement → TokenKind
  | .floorOpen | .substringOpen | .parametersOpen | .ifOpen | .whileOpen | .forOpen | .loopOpen =>
    .leftParen
  | .floorClose | .substringClose | .groupClose | .argumentsClose | .parametersClose | .ifClose
  | .whileClose | .forClose | .loopClose => .rightParen
  | .substringComma => .comma
  | .printEnd | .expressionEnd | .variableEnd | .forConditionEnd | .returnEnd => .semicolon
  | .variableName | .functionName | .parameterName => .identifier
  | .bodyOpen => .leftBrace
  | .blockClose => .rightBrace
  | .loopVar => .kwVar
  | .loopIn => .kwIn

def message : Requirement → String
  | .floorOpen => "Expect '(' after 'floor'."
  | .floorClose => "Expect ')' after floor argument."
  | .substringOpen => "Expect '(' after 'substring'."
  | .substringComma => "Expect ',' after substring argument."
  | .substringClose => "Expect ')' after substring arguments."
  | .groupClose => "Expect ')' after expression."
  | .argumentsClose => "Expect ')' after arguments."
  | .printEnd => "Expect ';' after value."
  | .expressionEnd => "Expect ';' after expression."
  | .variableName => "Expect variable name."
  | .variableEnd => "Expect ';' after variable declaration."
  | .functionName => "Expect function name."
  | .parametersOpen => "Expect '(' after function name."
  | .parameterName => "Expect parameter name."
  | .parametersClose => "Expect ')' after parameters."
  | .bodyOpen => "Expect '\x7b' before function body."
  | .blockClose => "Expect '\x7d' after block."
  | .ifOpen => "Expect '(' after 'if'."
  | .ifClose => "Expect ')' after if condition."
  | .whileOpen => "Expect '(' after 'while'."
  | .whileClose => "Expect ')' after condition."
  | .forOpen => "Expect '(' after 'for'."
  | .forConditionEnd => "Expect ';' after loop condition."
  | .forClose => "Expect ')' after for clauses."
  | .returnEnd => "Expect ';' after return value."
  | .loopOpen => "Expect '(' after 'loop'."
  | .loopVar => "Expect 'var' after '('."
  | .loopIn => "Expect 'in' after variable name."
  | .loopClose => "Expect ')' after loop expression."

end Requirement

inductive SyntaxError.Cause
  | missing (what : Requirement) (found : TokenKind)
  | noExpression (found : TokenKind)
  | badTarget
  | tooManyArguments
  | tooManyParameters
  | returnOutside
deriving DecidableEq, Inhabited

/-- The token at which a mistake was found. -/
inductive SyntaxError.Site
  | atEnd
  | atLexeme (lexeme : String)
deriving DecidableEq, Inhabited

/-- A mistake with the place of its token. -/
structure SyntaxError where
  cause : SyntaxError.Cause
  site : SyntaxError.Site
  span : Span
  line : Nat
deriving DecidableEq, Inhabited

namespace SyntaxError

/-- What is wrong, in words. -/
def Cause.message : Cause → String
  | .missing what _ => what.message
  | .noExpression _ => "Expect expression."
  | .badTarget => "Invalid assignment target."
  | .tooManyArguments => "Can't have more than " ++ Nat.repr arityLimit ++ " arguments."
  | .tooManyParameters => "Can't have more than " ++ Nat.repr arityLimit ++ " parameters."
  | .returnOutside => "Can't return from top-level code."

/-- The number under which a mistake is documented. -/
def code (e : SyntaxError) : String :=
  match e.cause with
  | .missing _ _ => "PS001"
  | .noExpression _ => "PS002"
  | .badTarget => "PS003"
  | .tooManyArguments => "PS004"
  | .tooManyParameters => "PS005"
  | .returnOutside => "PS006"

/-- A mistake found at a token. -/
def atToken (t : Token) (cause : Cause) : SyntaxError :=
  ⟨cause, if t.kind = .eof then .atEnd else .atLexeme t.lexeme, t.span, t.line⟩

end SyntaxError

end Lox
