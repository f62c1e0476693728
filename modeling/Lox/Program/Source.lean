import Lox.Grammar.Printer
import Lox.Grammar.Statement
import Lox.Token.Printer
import Lox.Token.Scan

/-!
From a text to a program. All lexical mistakes come before all mistakes against the grammar, and a
text with any mistake has no program.
-/

namespace Lox

/-- A mistake found before a program runs. -/
inductive Diagnostic
  | lexical (e : LexicalError)
  | grammatical (e : SyntaxError)
deriving DecidableEq, Inhabited

namespace Diagnostic

def code : Diagnostic → String
  | .lexical e => e.code
  | .grammatical e => e.code

def line : Diagnostic → Nat
  | .lexical e => e.line
  | .grammatical e => e.line

def span : Diagnostic → Span
  | .lexical e => e.span
  | .grammatical e => e.span

/-- What is wrong, in words. -/
def message : Diagnostic → String
  | .lexical e => e.cause.message
  | .grammatical e => e.cause.message

/-- The message with its line. -/
def plain : Diagnostic → String
  | .lexical e => e.plain
  | .grammatical e => e.plain

def dump : Diagnostic → String
  | .lexical e => e.dump
  | .grammatical e => e.dump

/-- What a report writes beside the marked text. -/
def label : Diagnostic → String
  | .lexical e => e.label
  | .grammatical e => e.label

end Diagnostic

namespace Source

/-- The program that the tokens of a text of the given length make up. -/
def programOfTokens (length : Nat) (tokens : List Token) :
    Except (List SyntaxError) (List Statement) :=
  Grammar.program (Reading.start length tokens)

/-- The program of a text, or its mistakes. -/
def program (text : List Char) : Except (List Diagnostic) (List Statement) :=
  let scan := Scan.items text
  let lexical := (Scan.errors scan).map Diagnostic.lexical
  match programOfTokens (utf8Length text) (Scan.tokens scan) with
  | .ok statements => if lexical.isEmpty then .ok statements else .error lexical
  | .error errors => .error (lexical ++ errors.map Diagnostic.grammatical)

/-- The expression at the start of a text. Lexical mistakes, what follows the expression, and
mistakes that do not stop it are passed over. -/
def expression (text : List Char) : Except SyntaxError Expression :=
  let s := Reading.start (utf8Length text) (Scan.tokens (Scan.items text))
  match Grammar.expression (Grammar.ample s) s with
  | .ok e _ => .ok e
  | .error e _ => .error e

end Source

end Lox
