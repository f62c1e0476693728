/-!
Places in a text. Offsets and lengths count UTF-8 bytes, while a text is a list of characters: a
span that starts or stops inside a character, or that leaves the text, names no part of it.
-/

namespace Lox

/-- How many bytes a text takes in UTF-8. -/
def utf8Length (cs : List Char) : Nat :=
  cs.foldr (fun c n => c.utf8Size + n) 0

/-- What follows the first `n` bytes, if a character starts there. -/
def dropBytes? : Nat → List Char → Option (List Char)
  | 0, cs => some cs
  | _ + 1, [] => none
  | n + 1, c :: cs => if c.utf8Size ≤ n + 1 then dropBytes? (n + 1 - c.utf8Size) cs else none

/-- The first `n` bytes, if they are whole characters. -/
def takeBytes? : Nat → List Char → Option (List Char)
  | 0, _ => some []
  | _ + 1, [] => none
  | n + 1, c :: cs =>
    if c.utf8Size ≤ n + 1 then (takeBytes? (n + 1 - c.utf8Size) cs).map (c :: ·) else none

/-- A run of bytes of a text. -/
structure Span where
  start : Nat
  length : Nat
deriving DecidableEq, Inhabited

namespace Span

/-- The offset just after the span. -/
def stop (s : Span) : Nat :=
  s.start + s.length

/-- The part of a text that a span names. -/
def textIn? (s : Span) (cs : List Char) : Option (List Char) :=
  (dropBytes? s.start cs).bind (takeBytes? s.length)

end Span

/-- A point of a text that is being read: the bytes passed, and the number of the line, from 1. -/
structure Position where
  offset : Nat
  line : Nat
deriving DecidableEq, Inhabited

namespace Position

/-- Where every text starts. -/
def start : Position :=
  ⟨0, 1⟩

/-- The point reached when `cs` is passed. -/
def after (p : Position) (cs : List Char) : Position :=
  ⟨p.offset + utf8Length cs, p.line + cs.count '\n'⟩

/-- The span between two points. -/
def spanTo (p q : Position) : Span :=
  ⟨p.offset, q.offset - p.offset⟩

end Position

end Lox
