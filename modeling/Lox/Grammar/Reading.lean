import Lox.Grammar.Error
import Lox.Program.Expression

/-!
The state in which a list of tokens is read: the tokens that are left, what has been found wrong so
far, and the nodes of the expression under construction. A failed step keeps the state it reached,
so that reading can go on after it.
-/

namespace Lox

structure Reading where
  /-- The tokens that are left, without the one at the end. -/
  rest : List Token
  /-- The token at the end of the text, which is never passed. -/
  last : Token
  /-- The mistakes recorded, in the order in which they were found. -/
  errors : Array SyntaxError
  nodes : Array Node
  /-- How many function bodies enclose the current token. -/
  functionDepth : Nat
  /-- The last token is one for the end, so every token of another kind is passed. -/
  ends : last.kind = .eof

/-- A step of reading, which yields a result or stops at a mistake. -/
abbrev Reader := EStateM SyntaxError Reading

namespace Reading

/-- The state before the first token. If the tokens do not end in one for the end of the text, such
a token is put after them, on the line of the last one. -/
def start (length : Nat) (tokens : List Token) : Reading :=
  match tokens.getLast? with
  | none => ⟨[], Token.mk .eof ⟨length, 0⟩ 1 "" none, #[], #[], 0, rfl⟩
  | some t =>
    if h : t.kind = .eof then ⟨tokens.dropLast, t, #[], #[], 0, h⟩
    else ⟨tokens, Token.mk .eof ⟨length, 0⟩ t.line "" none, #[], #[], 0, rfl⟩

/-- The token to be read next. -/
def current (s : Reading) : Token :=
  s.rest.headD s.last

/-- The tokens after the current one; at the end nothing changes. -/
def passed : List Token → List Token
  | [] => []
  | t :: rest => if t.kind = .eof then t :: rest else rest

/-- Passes tokens up to a boundary: after a semicolon, or before a token that starts a statement.
`previous` is the kind of the token just passed. -/
def toBoundary (previous : TokenKind) : List Token → List Token
  | [] => []
  | t :: rest =>
    if t.kind = .eof || previous = .semicolon || t.kind.startsStatement then t :: rest
    else toBoundary t.kind rest

/-- Where reading goes on after a mistake: at the first boundary after the current token. -/
def recovered : List Token → List Token
  | [] => []
  | t :: rest => if t.kind = .eof then t :: rest else toBoundary t.kind rest

/-- The state in which the current token is passed. -/
def pass (s : Reading) : Reading :=
  { s with rest := passed s.rest }

/-- The state in which a mistake is recorded. -/
def note (s : Reading) (e : SyntaxError) : Reading :=
  { s with errors := s.errors.push e }

/-- The state in which the expression under construction has one more node. -/
def add (s : Reading) (node : Node) : Reading :=
  { s with nodes := s.nodes.push node }

/-- The state without the nodes of an expression. -/
def bare (s : Reading) : Reading :=
  { s with nodes := #[] }

/-- The state inside one more function body. -/
def deeper (s : Reading) : Reading :=
  { s with functionDepth := s.functionDepth + 1 }

/-- The state outside the innermost function body. -/
def shallower (s : Reading) : Reading :=
  { s with functionDepth := s.functionDepth - 1 }

/-- The state in which reading goes on after a mistake. -/
def resumed (s : Reading) : Reading :=
  { s with rest := recovered s.rest }

end Reading

namespace Reader

/-- The current token. -/
def current : Reader Token := do
  return (← get).current

/-- Whether the current token is of a kind. -/
def sees (kind : TokenKind) : Reader Bool := do
  return (← current).kind == kind

/-- Passes the current token and yields it. -/
def advance : Reader Token :=
  modifyGet fun s => (s.current, s.pass)

/-- Passes the current token if it is of a kind. -/
def accept (kind : TokenKind) : Reader Bool := do
  if ← sees kind then
    let _ ← advance
    return true
  else return false

/-- Reads unless the current token is of a kind. -/
def unlessAt {α : Type} (kind : TokenKind) (otherwise : α) (step : Reader α) : Reader α := do
  if ← sees kind then return otherwise else step

/-- Passes the current token and reads on if it is of a kind. -/
def ifAt {α : Type} (kind : TokenKind) (step : Reader α) : Reader (Option α) := do
  if ← accept kind then some <$> step else return none

/-- Stops at the current token. -/
def fail {α : Type} (cause : TokenKind → SyntaxError.Cause) : Reader α := do
  let t ← current
  throw (SyntaxError.atToken t (cause t.kind))

/-- Passes the token that must stand here, or stops. -/
def require (what : Requirement) : Reader Token := do
  if ← sees what.kind then advance else fail (.missing what)

/-- Records a mistake and goes on. -/
def record (e : SyntaxError) : Reader Unit :=
  modify fun s => s.note e

/-- Records a mistake at the current token if as many items as `count` are too many. -/
def limit (count : Nat) (cause : SyntaxError.Cause) : Reader Unit := do
  if arityLimit ≤ count then record (SyntaxError.atToken (← current) cause)

/-- Adds a node to the expression under construction. -/
def push (node : Node) : Reader NodeRef :=
  modifyGet fun s => (s.nodes.size, s.add node)

/-- The name that an identifier token writes. -/
def ident (t : Token) : Ident :=
  ⟨t.lexeme, t.span, t.line⟩

/-- Reads the body of a function. The depth goes back on both ways out. -/
def insideFunction {α : Type} (body : Reader α) : Reader α := fun s =>
  match body s.deeper with
  | .ok a t => .ok a t.shallower
  | .error e t => .error e t.shallower

/-- Records the mistake at which a step stops, and goes on at the next boundary. -/
def recovering {α : Type} (step : Reader α) : Reader (Option α) := fun s =>
  match step s with
  | .ok a t => .ok (some a) t
  | .error e t => .ok none (t.note e).resumed

end Reader

end Lox
