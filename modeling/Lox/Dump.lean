import Lox.Decimal.Layout
import Lox.Text.Quoted
import Lox.Text.Span

/-!
Dumps show a value with the names of its constructors and fields, on one line. Here are the forms
from which the dump of each type is put together.
-/

namespace Lox.Dump

/-- The items with a comma between them. -/
def separated (items : List String) : String :=
  ", ".intercalate items

/-- A name with named fields in braces. -/
def record (name : String) (fields : List (String × String)) : String :=
  name ++ " \x7b " ++ separated (fields.map fun (field, value) => field ++ ": " ++ value) ++ " \x7d"

/-- A name with unnamed arguments. -/
def applied (name : String) (arguments : List String) : String :=
  name ++ "(" ++ separated arguments ++ ")"

/-- A list in brackets. -/
def list (items : List String) : String :=
  "[" ++ separated items ++ "]"

/-- An optional value. -/
def option : Option String → String
  | some value => applied "Some" [value]
  | none => "None"

/-- A truth value. -/
def bool (b : Bool) : String :=
  if b then "true" else "false"

/-- A count, an offset or a line. -/
def nat (n : Nat) : String :=
  Nat.repr n

/-- A number, in the layout of literals. -/
def number (x : Float) : String :=
  Layout.literal.text x

/-- A span by its start and length. -/
def span (s : Span) : String :=
  record "Span" [("start", nat s.start), ("length", nat s.length)]

end Lox.Dump
