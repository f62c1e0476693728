import Mathlib.Algebra.Group.Nat.Defs
import Lox.Proofs.Reading.Diagnostics
import Lox.Proofs.Scan.Lines
import Lox.Proofs.Text.LineNumbers

/-!
Lines are told in two ways: a scan counts newlines as it passes them, and the table of the lines of
a text is searched for an offset. Both give the same line for the end of whatever is found in a
text.
-/

namespace Lox

/-- The line of the end of a span, as a table of lines tells it and every search of the table finds
it. It fits into 32 bits. -/
structure Lines.EndsOn (ls : Lines) (span : Span) (line : Nat) : Prop where
  lineOf : ls.lineOf span.stop = line
  found : ∀ answer, ls.Answers span.stop answer ↔ answer = line
  fits : line < 2 ^ 32

namespace Scan

/-- A span stops, and its line is counted, at a point of the text. -/
def Counted (text : List Char) (span : Span) (line : Nat) : Prop :=
  ∃ upto after, text = upto ++ after ∧ span.stop = utf8Length upto ∧ line = upto.count '\n' + 1

/-- The line of a token or a mistake. -/
def line : Scanned → Nat
  | .ok t => t.line
  | .error e => e.line

lemma scanned?_counted (before : List Char) (piece : Piece) (after : List Char) :
    ∀ item, piece.scanned? (Position.start.after before)
      ((Position.start.after before).after piece.text) = some item →
    Counted (before ++ (piece.text ++ after)) item.span (line item) := by
  have stop :
      ((Position.start.after before).spanTo ((Position.start.after before).after piece.text)).stop =
        utf8Length (before ++ piece.text) := by
    simp only [Position.spanTo, Position.after, Position.start, Span.stop, utf8Length_append]
    omega
  intro item found
  refine ⟨before ++ piece.text, after, (List.append_assoc ..).symm, ?_⟩
  obtain ⟨sort, text⟩ := piece
  rw [after_after] at found stop
  cases sort with
  | blank | comment => cases found
  | token kind literal | mistake cause =>
    cases found
    exact ⟨stop, after_line _⟩

lemma locate_counted (before : List Char) (pieces : List Piece) :
    ∀ item ∈ locate (Position.start.after before) pieces,
      Counted (before ++ (pieces.map Piece.text).flatten) item.span (line item) := by
  induction pieces generalizing before with
  | nil =>
    simp only [locate, List.mem_singleton, forall_eq]
    refine ⟨before, [], rfl, ?_, after_line before⟩
    simp [Scanned.span, Token.atEnd, Span.stop, Position.after, Position.start]
  | cons piece pieces ih =>
    have here := scanned?_counted before piece (pieces.map Piece.text).flatten
    have others := ih (before ++ piece.text)
    rw [← after_after, List.append_assoc] at others
    simp only [List.map_cons, List.flatten_cons, locate]
    split
    · next item found =>
      simp only [List.mem_cons, forall_eq_or_imp]
      exact ⟨here item found, others⟩
    · exact others

lemma items_counted (text : List Char) :
    ∀ item ∈ items text, Counted text item.span (line item) := by
  have counted := locate_counted [] (Piece.ofText text)
  rw [(Piece.ofText_splits text).2] at counted
  exact counted

lemma Counted.endsOn {text : List Char} {span : Span} {line : Nat} (h : Counted text span line)
    (few : text.count '\n' < 2 ^ 32 - 2) : (Lines.ofText text).EndsOn span line := by
  obtain ⟨upto, after, rfl, stop, rfl⟩ := h
  have same : (Lines.ofText (upto ++ after)).lineOf span.stop = upto.count '\n' + 1 := by
    rw [stop, Lines.lineOf_reached]
  refine ⟨same, fun answer => ?_, ?_⟩
  · rw [Lines.answers_iff, same]
  · rw [List.count_append] at few
    omega

end Scan

namespace Source

variable {text : List Char}

lemma token_counted {t : Token} (found : t ∈ Scan.tokens (Scan.items text)) :
    Scan.Counted text t.span t.line :=
  Scan.items_counted text _ (Scan.mem_tokens found)

/-- A mistake takes its place from a token, or from what the scan made of a part of the text. -/
lemma diagnostic_counted {d : Diagnostic} (found : d ∈ diagnostics text) :
    Scan.Counted text d.span d.line := by
  rw [diagnostics_eq] at found
  rcases List.mem_append.mp found with lexical | grammatical
  · obtain ⟨e, within, rfl⟩ := List.mem_map.mp lexical
    exact Scan.items_counted text _ (Scan.mem_errors within)
  · obtain ⟨e, within, rfl⟩ := List.mem_map.mp grammatical
    obtain ⟨t, cause, there, rfl⟩ := (grammatical_found text).2 e within
    exact token_counted there

/-- The line of a token, and that of a mistake of either kind, is the line of its end in the table
of the lines of the text. The table is in order, and its numbers fit into 32 bits. -/
theorem ends_on_lines (text : List Char) (few : text.count '\n' < 2 ^ 32 - 2) :
    ((Lines.ofText text).ranges.Pairwise fun r q => r.stop ≤ q.start) ∧
    (Lines.ofText text).past < 2 ^ 32 ∧
    (∀ t ∈ Scan.tokens (Scan.items text), (Lines.ofText text).EndsOn t.span t.line) ∧
    (∀ e ∈ Scan.errors (Scan.items text), (Lines.ofText text).EndsOn e.span e.line) ∧
    ∀ d ∈ diagnostics text, (Lines.ofText text).EndsOn d.span d.line := by
  have past : (Lines.ofText text).past < 2 ^ 32 := by
    have most := Lines.past_le text
    omega
  refine ⟨Lines.ofText_ordered text, past, fun t found => ?_, fun e found => ?_, fun d found => ?_⟩
  · exact (token_counted found).endsOn few
  · exact (Scan.items_counted text _ (Scan.mem_errors found)).endsOn few
  · exact (diagnostic_counted found).endsOn few

/-- At the end of a text that ends in a newline, the line is past those of the table. -/
theorem ends_on_lines_missing_semicolon :
    (Diagnostic.grammatical ⟨.missing .printEnd .eof, .atEnd, ⟨8, 0⟩, 2⟩) ∈
      diagnostics "print 1\n".toList ∧
    (Lines.ofText "print 1\n".toList).EndsOn ⟨8, 0⟩ 2 := by
  have reported : (Diagnostic.grammatical ⟨.missing .printEnd .eof, .atEnd, ⟨8, 0⟩, 2⟩) ∈
      diagnostics "print 1\n".toList := by decide +kernel
  have few : "print 1\n".toList.count '\n' < 2 ^ 32 - 2 := by decide +kernel
  exact ⟨reported, (ends_on_lines "print 1\n".toList few).2.2.2.2 _ reported⟩

end Source

end Lox
