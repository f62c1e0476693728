import Lox.Text.Span

/-!
The lines of a text as ranges of byte offsets. A range takes its newline in; the last line of a
text that does not end in a newline takes one offset more, so that the end of the text lies on it.
-/

namespace Lox

/-- A range of offsets, without `stop`. -/
structure Range where
  start : Nat
  stop : Nat
deriving DecidableEq, Inhabited

/-- The lines of a text, first line first. -/
structure Lines where
  ranges : List Range
deriving DecidableEq, Inhabited

namespace Lines

/-- The ranges of the lines that are left, where the current line began at `start`. -/
def rangesFrom (start offset : Nat) : List Char → List Range
  | [] => if start = offset then [] else [⟨start, offset + 1⟩]
  | c :: cs =>
    if c = '\n' then ⟨start, offset + 1⟩ :: rangesFrom (offset + 1) (offset + 1) cs
    else rangesFrom start (offset + c.utf8Size) cs

/-- The lines of a text; the empty text has one. -/
def ofText (cs : List Char) : Lines :=
  if cs.isEmpty then ⟨[⟨0, 1⟩]⟩ else ⟨rangesFrom 0 0 cs⟩

/-- One more than the number of lines: the answer for an offset past the end. -/
def past (ls : Lines) : Nat :=
  ls.ranges.length + 1

/-- The number of the line that holds an offset. -/
def lineOf (ls : Lines) (offset : Nat) : Nat :=
  match ls.ranges.findIdx? fun r => r.start ≤ offset && offset < r.stop with
  | some i => i + 1
  | none => ls.past

/-- A whole line without its newline. A number past the last line names an empty span just before
the end of the last range. -/
def spanOf (ls : Lines) (line : Nat) : Span :=
  match ls.ranges[max line 1 - 1]? with
  | some r => ⟨r.start, max (r.stop - 1) r.start - r.start⟩
  | none => ⟨(ls.ranges.getLast?.map (·.stop - 1)).getD 0, 0⟩

/-- Line and column, both from 1, of an offset. The end of a text lies on its last line. -/
def placeOf (ls : Lines) (offset : Nat) : Nat × Nat :=
  match (ls.ranges.takeWhile (·.start ≤ offset)).getLast? with
  | some r => ((ls.ranges.takeWhile (·.start ≤ offset)).length, offset - r.start + 1)
  | none => (1, offset + 1)

end Lines

end Lox
