import Lox.Text.Span
import Lox.Token.Kind

/-!
Tokens, and the two mistakes a text can contain below the level of tokens.
-/

namespace Lox

/-- The value that a number or string token denotes. -/
inductive Literal
  | number (value : Float)
  | string (text : String)
deriving DecidableEq, Inhabited

/-- A token with its place. The line is the one on which the token ends. -/
structure Token where
  kind : TokenKind
  span : Span
  line : Nat
  lexeme : String
  literal : Option Literal
deriving DecidableEq, Inhabited

/-- Why a part of the text is no token. -/
inductive LexicalError.Cause
  | strayCharacter (c : Char)
  | unclosedString
deriving DecidableEq, Inhabited

/-- A part of the text that is no token, with its place. The line is the one on which it ends. -/
structure LexicalError where
  cause : LexicalError.Cause
  span : Span
  line : Nat
deriving DecidableEq, Inhabited

namespace LexicalError

/-- What is wrong, in words. -/
def Cause.message : Cause → String
  | .strayCharacter _ => "Unexpected character."
  | .unclosedString => "Unterminated string."

/-- The number under which a mistake is documented. -/
def code (e : LexicalError) : String :=
  match e.cause with
  | .strayCharacter _ => "LX001"
  | .unclosedString => "LX002"

end LexicalError

end Lox
