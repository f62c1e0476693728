import Lox.Proofs.Scan.Pieces
import Lox.Proofs.Text.Slices

/-!
Every slice of a text that a scan takes is there: the spans of tokens and of mistakes start and stop
between characters, and the literals are made from what stands in them.
-/

namespace Lox

/-- The slices of a text from which a token is made: its own, and inside it what a string holds
between its quotes and an octal number after its mark. -/
structure Token.Sliced (text : List Char) (t : Token) : Prop where
  lexeme : t.span.textIn? text = some t.lexeme.toList
  written : Token.Written t.kind t.literal t.lexeme.toList
  quoted : ∀ value, t.literal = some (.string value) →
    (Span.mk (t.span.start + 1) (t.span.length - 2)).textIn? text = some value.toList
  marked : ∀ digits, t.kind = .number → t.lexeme.toList = 'o' :: digits →
    (Span.mk (t.span.start + 1) (t.span.length - 1)).textIn? text = some digits

namespace Token

variable {text : List Char} {t : Token}

lemma Sliced.of_written (lexeme : t.span.textIn? text = some t.lexeme.toList)
    (written : Token.Written t.kind t.literal t.lexeme.toList) : t.Sliced text := by
  have length : t.span.length = utf8Length t.lexeme.toList := by
    obtain ⟨before, after, -, same⟩ := Span.textIn?_eq_some.mp lexeme
    rw [same]
  refine ⟨lexeme, written, fun value carries => ?_, fun digits _ mark => ?_⟩
  · rw [carries] at written
    generalize t.kind = kind, hw : t.lexeme.toList = cs at written lexeme length
    cases written with
    | string body _ =>
      have inner := Span.textIn?_inner ['\x22'] lexeme
      have two : t.span.length - 2 = utf8Length body := by
        rw [length, List.cons_append, utf8Length_cons, utf8Length_append]
        change 1 + (_ + 1) - 2 = _
        omega
      rw [two, String.toList_ofList]
      exact inner
  · rw [mark] at lexeme length
    have inner : (Span.mk (t.span.start + 1) (utf8Length digits)).textIn? text = some digits := by
      have whole : t.span.textIn? text = some (['o'] ++ digits ++ []) := by
        rw [lexeme, List.append_nil]
        rfl
      exact Span.textIn?_inner ['o'] whole
    have one : t.span.length - 1 = utf8Length digits := by
      rw [length, utf8Length_cons]
      change 1 + _ - 1 = _
      omega
    rw [one]
    exact inner

end Token

namespace Scan

lemma after_after (p : Position) (as bs : List Char) :
    (p.after as).after bs = p.after (as ++ bs) := by
  simp only [Position.after, utf8Length_append, List.count_append, Nat.add_assoc]

/-- The span of a part of a text, between the points before and after it, names the part. -/
lemma spanTo_textIn? (before part after : List Char) :
    Span.textIn? ((Position.start.after before).spanTo ((Position.start.after before).after part))
      (before ++ part ++ after) = some part := by
  refine Span.textIn?_eq_some.mpr ⟨before, after, rfl, ?_⟩
  simp only [Position.spanTo, Position.after, Position.start, Span.mk.injEq]
  omega

/-- What a scan reports has its place in the text. -/
def InText (text : List Char) : Scanned → Prop
  | .ok t => t.Sliced text
  | .error e => ∃ part, e.span.textIn? text = some part

lemma atEnd_sliced (text : List Char) :
    (Token.atEnd (Position.start.after text)).Sliced text := by
  refine .of_written (Span.textIn?_eq_some.mpr ⟨text, [], by simp [Token.atEnd], ?_⟩) ?_
  · simp [Token.atEnd, Position.after, Position.start, utf8Length]
  · exact .plain _ (by simp [Token.atEnd]) (by simp [Token.atEnd])

lemma scanned_inText {piece : Piece} (h : piece.sort.Written piece.text)
    (before after : List Char) : ∀ item, piece.scanned? (Position.start.after before)
      ((Position.start.after before).after piece.text) = some item →
    InText (before ++ piece.text ++ after) item := by
  intro item found
  have named := spanTo_textIn? before piece.text after
  obtain ⟨sort, text⟩ := piece
  cases sort with
  | blank | comment => cases found
  | mistake cause =>
    cases found
    exact ⟨text, named⟩
  | token kind literal =>
    cases found
    refine Token.Sliced.of_written ?_ ?_
    · rw [String.toList_ofList]
      exact named
    · rw [String.toList_ofList]
      exact h.2

lemma locate_inText (before : List Char) (pieces : List Piece)
    (h : ∀ piece ∈ pieces, piece.sort.Written piece.text) :
    ∀ item ∈ locate (Position.start.after before) pieces,
      InText (before ++ (pieces.map Piece.text).flatten) item := by
  induction pieces generalizing before with
  | nil =>
    simp only [locate, List.mem_singleton, forall_eq, List.map_nil, List.flatten_nil,
      List.append_nil]
    exact atEnd_sliced before
  | cons piece pieces ih =>
    have here := scanned_inText (h piece List.mem_cons_self) before
      ((pieces.map Piece.text).flatten)
    have others := ih (before ++ piece.text) fun piece hp => h piece (List.mem_cons_of_mem _ hp)
    simp only [List.map_cons, List.flatten_cons, locate]
    rw [← after_after, List.append_assoc] at others
    rw [List.append_assoc] at here
    split
    · next item found =>
      simp only [List.mem_cons, forall_eq_or_imp]
      exact ⟨here item found, others⟩
    · exact others

/-- Whatever a scan reports has its place in the text. -/
theorem items_inText (text : List Char) : ∀ item ∈ items text, InText text item := by
  obtain ⟨written, joined⟩ := Piece.ofText_splits text
  have within := locate_inText [] (Piece.ofText text) written
  rw [joined] at within
  exact within

end Scan

end Lox
