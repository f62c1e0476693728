import Lox.Text.Printable

/-!
Quoted text: the delimiter and the backslash are escaped, four controls have a letter, and all other
characters that do not show are written as their code point in braces.
-/

namespace Lox.Quoted

/-- The code point of a character in lower-case hexadecimal, in braces. -/
def byNumber (c : Char) : List Char :=
  '\\' :: 'u' :: '\x7b' :: Nat.toDigits 16 c.toNat ++ ['\x7d']

/-- One character inside a text delimited by `delimiter`. -/
def encodeChar (delimiter c : Char) : List Char :=
  if c = delimiter || c = '\\' then ['\\', c]
  else if c = '\n' then ['\\', 'n']
  else if c = '\t' then ['\\', 't']
  else if c = '\r' then ['\\', 'r']
  else if c = Char.ofNat 0 then ['\\', '0']
  else if Printable.shows c then [c]
  else byNumber c

/-- A text between double quotes. -/
def string (s : String) : String :=
  String.ofList ('\x22' :: s.toList.flatMap (encodeChar '\x22') ++ ['\x22'])

/-- A character between single quotes. -/
def char (c : Char) : String :=
  String.ofList ('\x27' :: encodeChar '\x27' c ++ ['\x27'])

end Lox.Quoted
