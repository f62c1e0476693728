import Lox.Dump
import Lox.Grammar.Error

/-!
The written forms of mistakes against the grammar.
-/

namespace Lox

namespace SyntaxError

def Site.text : Site → String
  | .atEnd => " at end"
  | .atLexeme lexeme => " at '" ++ lexeme ++ "'"

/-- The message with its line and token. -/
def plain (e : SyntaxError) : String :=
  "[line " ++ Nat.repr e.line ++ "] Error" ++ e.site.text ++ ": " ++ e.cause.message

def Cause.dump : Cause → String
  | .missing what found =>
    Dump.record "UnexpectedToken"
      [("actual", found.dump), ("message", Quoted.string what.message)]
  | .noExpression found => Dump.applied "NonExpression" [found.dump]
  | .badTarget => "InvalidLValue"
  | .tooManyArguments => Dump.record "TooManyArguments" [("limit", Dump.nat arityLimit)]
  | .tooManyParameters => Dump.record "TooManyParameters" [("limit", Dump.nat arityLimit)]
  | .returnOutside => "TopLevelReturn"

def Site.dump : Site → String
  | .atEnd => "AtEnd"
  | .atLexeme lexeme => Dump.applied "AtLexeme" [Quoted.string lexeme]

def dump (e : SyntaxError) : String :=
  Dump.record "ParserError"
    [("kind", e.cause.dump), ("location", e.site.dump), ("span", Dump.span e.span),
      ("line", Dump.nat e.line)]

/-- What a report writes beside the marked token. -/
def label (e : SyntaxError) : String :=
  match e.cause with
  | .missing _ found => "Found " ++ found.name ++ " here"
  | .noExpression found => found.name ++ " does not start an expression"
  | .badTarget => "Left hand side is not a variable"
  | .tooManyArguments => "This argument is over the limit"
  | .tooManyParameters => "This parameter is over the limit"
  | .returnOutside => "Not inside a function"

end SyntaxError

end Lox
