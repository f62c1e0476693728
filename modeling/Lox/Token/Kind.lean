/-!
The kinds of tokens, their names, and the two tables that spell them: keywords and symbols.
-/

namespace Lox

inductive TokenKind
  | leftParen | rightParen | leftBrace | rightBrace | comma | dot | minus | plus | semicolon
  | star | bang | bangEqual | equal | equalEqual | less | lessEqual | greater | greaterEqual
  | slash | number | string | identifier | kwAnd | kwClass | kwElse | kwFalse | kwFor | kwFun
  | kwIf | kwNil | kwOr | kwPrint | kwReturn | kwSuper | kwThis | kwTrue | kwVar | kwWhile
  | kwRead | kwRand | kwFloor | kwSubstring | kwLoop | kwIn | eof
deriving DecidableEq, Inhabited

namespace TokenKind

/-- The name of a kind in token listings and messages. -/
def name : TokenKind → String
  | .leftParen => "LEFT_PAREN"
  | .rightParen => "RIGHT_PAREN"
  | .leftBrace => "LEFT_BRACE"
  | .rightBrace => "RIGHT_BRACE"
  | .comma => "COMMA"
  | .dot => "DOT"
  | .minus => "MINUS"
  | .plus => "PLUS"
  | .semicolon => "SEMICOLON"
  | .star => "STAR"
  | .bang => "BANG"
  | .bangEqual => "BANG_EQUAL"
  | .equal => "EQUAL"
  | .equalEqual => "EQUAL_EQUAL"
  | .less => "LESS"
  | .lessEqual => "LESS_EQUAL"
  | .greater => "GREATER"
  | .greaterEqual => "GREATER_EQUAL"
  | .slash => "SLASH"
  | .number => "NUMBER"
  | .string => "STRING"
  | .identifier => "IDENTIFIER"
  | .kwAnd => "AND"
  | .kwClass => "CLASS"
  | .kwElse => "ELSE"
  | .kwFalse => "FALSE"
  | .kwFor => "FOR"
  | .kwFun => "FUN"
  | .kwIf => "IF"
  | .kwNil => "NIL"
  | .kwOr => "OR"
  | .kwPrint => "PRINT"
  | .kwReturn => "RETURN"
  | .kwSuper => "SUPER"
  | .kwThis => "THIS"
  | .kwTrue => "TRUE"
  | .kwVar => "VAR"
  | .kwWhile => "WHILE"
  | .kwRead => "READ"
  | .kwRand => "RAND"
  | .kwFloor => "FLOOR"
  | .kwSubstring => "SUBSTRING"
  | .kwLoop => "LOOP"
  | .kwIn => "IN"
  | .eof => "EOF"

/-- The name of a kind in dumps. -/
def dump : TokenKind → String
  | .leftParen => "LeftParenthesis"
  | .rightParen => "RightParenthesis"
  | .leftBrace => "LeftBrace"
  | .rightBrace => "RightBrace"
  | .comma => "Comma"
  | .dot => "Dot"
  | .minus => "Minus"
  | .plus => "Plus"
  | .semicolon => "Semicolon"
  | .star => "Star"
  | .bang => "Bang"
  | .bangEqual => "BangEqual"
  | .equal => "Equal"
  | .equalEqual => "EqualEqual"
  | .less => "LessThan"
  | .lessEqual => "LessThanEqual"
  | .greater => "GreaterThan"
  | .greaterEqual => "GreaterThanEqual"
  | .slash => "Slash"
  | .number => "NumericLiteral"
  | .string => "StringLiteral"
  | .identifier => "Ident"
  | .kwAnd => "KeywordAnd"
  | .kwClass => "KeywordClass"
  | .kwElse => "KeywordElse"
  | .kwFalse => "KeywordFalse"
  | .kwFor => "KeywordFor"
  | .kwFun => "KeywordFun"
  | .kwIf => "KeywordIf"
  | .kwNil => "KeywordNil"
  | .kwOr => "KeywordOr"
  | .kwPrint => "KeywordPrint"
  | .kwReturn => "KeywordReturn"
  | .kwSuper => "KeywordSuper"
  | .kwThis => "KeywordThis"
  | .kwTrue => "KeywordTrue"
  | .kwVar => "KeywordVar"
  | .kwWhile => "KeywordWhile"
  | .kwRead => "KeywordRead"
  | .kwRand => "KeywordRand"
  | .kwFloor => "KeywordFloor"
  | .kwSubstring => "KeywordSubstring"
  | .kwLoop => "KeywordLoop"
  | .kwIn => "KeywordIn"
  | .eof => "Eof"

/-- Whether a token of this kind opens a declaration or statement; reading goes on there after a
mistake. -/
def startsStatement : TokenKind → Bool
  | .kwClass | .kwFun | .kwVar | .kwFor | .kwIf | .kwWhile | .kwPrint | .kwReturn | .kwLoop => true
  | _ => false

/-- The reserved words. -/
def keywords : List (String × TokenKind) :=
  [("and", .kwAnd), ("class", .kwClass), ("else", .kwElse), ("false", .kwFalse), ("for", .kwFor),
    ("fun", .kwFun), ("if", .kwIf), ("nil", .kwNil), ("or", .kwOr), ("print", .kwPrint),
    ("return", .kwReturn), ("super", .kwSuper), ("this", .kwThis), ("true", .kwTrue),
    ("var", .kwVar), ("while", .kwWhile), ("read", .kwRead), ("rand", .kwRand),
    ("floor", .kwFloor), ("substring", .kwSubstring), ("loop", .kwLoop), ("in", .kwIn)]

/-- The kind of a word that is reserved. -/
def ofKeyword? (word : String) : Option TokenKind :=
  keywords.lookup word

/-- The spellings of one or two characters. Two of them stand for keywords. -/
def symbols : List (List Char × TokenKind) :=
  [(['('], .leftParen), ([')'], .rightParen), (['\x7b'], .leftBrace), (['\x7d'], .rightBrace),
    ([','], .comma), (['.'], .dot), (['-'], .minus), (['+'], .plus), ([';'], .semicolon),
    (['*'], .star), (['!'], .bang), (['!', '='], .bangEqual), (['!', '!'], .kwRand),
    (['='], .equal), (['=', '='], .equalEqual), (['<'], .less), (['<', '='], .lessEqual),
    (['<', '-'], .kwRead), (['>'], .greater), (['>', '='], .greaterEqual), (['/'], .slash)]

/-- The kind that a spelling stands for. -/
def ofSymbol? (cs : List Char) : Option TokenKind :=
  symbols.lookup cs

end TokenKind

end Lox
