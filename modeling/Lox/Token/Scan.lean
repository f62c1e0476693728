import Lox.Token.Piece

/-!
Scanning: the pieces of a text get their places, blanks and comments are dropped, and a last token
marks the end. Mistakes do not stop the scan.
-/

namespace Lox

/-- What a scan reports: a token or a mistake. -/
abbrev Scanned := Except LexicalError Token

namespace Piece

/-- What a piece between two points is reported as. -/
def scanned? (piece : Piece) (before after : Position) : Option Scanned :=
  match piece.sort with
  | .blank | .comment => none
  | .token kind literal =>
    some (.ok ⟨kind, before.spanTo after, after.line, String.ofList piece.text, literal⟩)
  | .mistake cause => some (.error ⟨cause, before.spanTo after, after.line⟩)

end Piece

namespace Token

/-- The token at the end of a text. -/
def atEnd (p : Position) : Token :=
  ⟨.eof, ⟨p.offset, 0⟩, p.line, "", none⟩

end Token

namespace Scan

/-- Gives pieces their places, from a point on. -/
def locate (p : Position) : List Piece → List Scanned
  | [] => [.ok (Token.atEnd p)]
  | piece :: rest =>
    let q := p.after piece.text
    match piece.scanned? p q with
    | some item => item :: locate q rest
    | none => locate q rest

/-- Everything found in a text, in order. -/
def items (cs : List Char) : List Scanned :=
  locate Position.start (Piece.ofText cs)

/-- The tokens of a scan. -/
def tokens (scan : List Scanned) : List Token :=
  scan.filterMap fun
    | .ok token => some token
    | .error _ => none

/-- The mistakes of a scan. -/
def errors (scan : List Scanned) : List LexicalError :=
  scan.filterMap fun
    | .ok _ => none
    | .error e => some e

end Scan

end Lox
