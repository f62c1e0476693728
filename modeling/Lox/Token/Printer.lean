import Lox.Dump
import Lox.Text.Lines
import Lox.Token.Basic

/-!
The written forms of tokens and of lexical mistakes.
-/

namespace Lox

namespace Literal

/-- A string stands for itself, a number has the layout of literals. -/
def text : Literal → String
  | .number x => Layout.literal.text x
  | .string s => s

def dump : Literal → String
  | .number x => Dump.applied "Number" [Dump.number x]
  | .string s => Dump.applied "String" [Quoted.string s]

end Literal

namespace Token

/-- Kind, lexeme and literal. -/
def plain (t : Token) : String :=
  t.kind.name ++ " " ++ t.lexeme ++ " " ++ (t.literal.map Literal.text).getD "null"

/-- The plain form after the number of the line on which the token starts, in four columns. -/
def numbered (lines : Lines) (t : Token) : String :=
  let number := Nat.repr (lines.lineOf t.span.start)
  String.ofList (List.replicate (4 - number.length) ' ') ++ number ++ " " ++ t.plain

def dump (t : Token) : String :=
  Dump.record "Token" [("kind", t.kind.dump), ("span", Dump.span t.span),
    ("line", Dump.nat t.line), ("literal", Dump.option (t.literal.map Literal.dump))]

end Token

namespace LexicalError

/-- The message with its line. -/
def plain (e : LexicalError) : String :=
  "[line " ++ Nat.repr e.line ++ "] Error: " ++ e.cause.message

def Cause.dump : Cause → String
  | .strayCharacter c => Dump.applied "Unrecognized" [Quoted.char c]
  | .unclosedString => "UnclosedString"

def dump (e : LexicalError) : String :=
  Dump.record "LexicalError" [("kind", e.cause.dump), ("span", Dump.span e.span),
    ("line", Dump.nat e.line)]

/-- What a report writes beside the marked text. -/
def label (e : LexicalError) : String :=
  match e.cause with
  | .strayCharacter c => "Unexpected character " ++ Quoted.char c
  | .unclosedString => "String starts here and never ends"

end LexicalError

end Lox
