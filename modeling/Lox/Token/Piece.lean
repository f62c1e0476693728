import Lox.Decimal.Numeral
import Lox.Token.Basic

/-!
A text is cut into pieces, each the longest its first character allows: a blank, a comment, a token,
or a mistake. Cutting knows nothing of places, and no character is lost.
-/

namespace Lox

/-- What a piece of text is. -/
inductive Piece.Sort
  | blank
  | comment
  | token (kind : TokenKind) (literal : Option Literal)
  | mistake (cause : LexicalError.Cause)
deriving DecidableEq, Inhabited

/-- A piece of a text. -/
structure Piece where
  sort : Piece.Sort
  text : List Char
deriving DecidableEq, Inhabited

namespace Piece

/-- Characters that only separate. -/
def isBlank (c : Char) : Bool :=
  c = ' ' || c = '\t' || c = '\r' || c = '\n'

/-- Characters that may start a word. -/
def startsWord (c : Char) : Bool :=
  ('a' ≤ c && c ≤ 'z') || ('A' ≤ c && c ≤ 'Z') || c = '_'

/-- Characters that may continue a word. -/
def continuesWord (c : Char) : Bool :=
  startsWord c || Numeral.isDigit c

/-- Whether a text starts with a character of a class. -/
def startsWith (p : Char → Bool) : List Char → Bool
  | c :: _ => p c
  | [] => false

/-- A comment runs to the end of its line; `rest` follows its two slashes. -/
def comment (rest : List Char) : Piece × List Char :=
  (⟨.comment, '/' :: '/' :: rest.takeWhile (· ≠ '\n')⟩, rest.dropWhile (· ≠ '\n'))

/-- A string runs to the next quote, over line ends too; `rest` follows its first quote. -/
def string (rest : List Char) : Piece × List Char :=
  let body := rest.takeWhile (· ≠ '\x22')
  match rest.dropWhile (· ≠ '\x22') with
  | [] => (⟨.mistake .unclosedString, '\x22' :: body⟩, [])
  | q :: after => (⟨.token .string (some (.string (String.ofList body))), '\x22' :: body ++ [q]⟩, after)

/-- A number is digits, and after a point more digits; a point without a digit after it is not
taken. -/
def number (cs : List Char) : Piece × List Char :=
  let whole := cs.takeWhile Numeral.isDigit
  let plain := (⟨.token .number (some (.number (Numeral.decimal whole []))), whole⟩,
    cs.dropWhile Numeral.isDigit)
  match cs.dropWhile Numeral.isDigit with
  | '.' :: after =>
    if startsWith Numeral.isDigit after then
      let fraction := after.takeWhile Numeral.isDigit
      (⟨.token .number (some (.number (Numeral.decimal whole fraction))), whole ++ '.' :: fraction⟩,
        after.dropWhile Numeral.isDigit)
    else plain
  | _ => plain

/-- A number in base eight; `rest` follows the letter that marks it. -/
def octal (rest : List Char) : Piece × List Char :=
  let digits := rest.takeWhile Numeral.isOctalDigit
  (⟨.token .number (some (.number (Numeral.octal digits))), 'o' :: digits⟩,
    rest.dropWhile Numeral.isOctalDigit)

/-- A word is a keyword if it is reserved, and else an identifier. -/
def word (cs : List Char) : Piece × List Char :=
  let text := cs.takeWhile continuesWord
  let kind := (TokenKind.ofKeyword? (String.ofList text)).getD .identifier
  (⟨.token kind none, text⟩, cs.dropWhile continuesWord)

/-- A symbol of one character, or else a stray character. -/
def single (c : Char) (rest : List Char) : Piece × List Char :=
  match TokenKind.ofSymbol? [c] with
  | some kind => (⟨.token kind none, [c]⟩, rest)
  | none => (⟨.mistake (.strayCharacter c), [c]⟩, rest)

/-- A symbol of two characters goes before one of one. -/
def symbol (c : Char) (rest : List Char) : Piece × List Char :=
  match rest with
  | [] => single c rest
  | d :: after =>
    match TokenKind.ofSymbol? [c, d] with
    | some kind => (⟨.token kind none, [c, d]⟩, after)
    | none => single c rest

/-- The first piece of the text `c :: rest`, and the text after it. -/
def first (c : Char) (rest : List Char) : Piece × List Char :=
  if isBlank c then (⟨.blank, [c]⟩, rest)
  else if c = '/' && startsWith (· = '/') rest then comment rest.tail
  else if c = '\x22' then string rest
  else if Numeral.isDigit c then number (c :: rest)
  else if c = 'o' && startsWith Numeral.isOctalDigit rest then octal rest
  else if startsWord c then word (c :: rest)
  else symbol c rest

/-- The first `n` pieces of a text. -/
def cut : Nat → List Char → List Piece
  | _, [] => []
  | 0, _ :: _ => []
  | n + 1, c :: rest =>
    let (piece, after) := first c rest
    piece :: cut n after

/-- All pieces of a text. A text has no more pieces than characters. -/
def ofText (cs : List Char) : List Piece :=
  cut cs.length cs

end Piece

end Lox
