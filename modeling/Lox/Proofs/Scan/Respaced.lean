import Lox.Proofs.Derivation.Program
import Lox.Proofs.Scan.Cut
import Lox.Proofs.Scan.Partition
import Mathlib.Data.List.Basic

/-!
A scan undoes the writing of lexemes. A token is made of the characters of its lexeme alone, and a
space ends every token, so the lexemes of a text with single spaces between them are scanned as the
same tokens.
-/

namespace Lox

/-- What a token is apart from its place. -/
def Token.content (t : Token) : TokenKind × String × Option Literal :=
  (t.kind, t.lexeme, t.literal)

namespace Piece

variable {c : Char} {cs rest : List Char} {piece : Piece} {pieces : List Piece}

/-- What is reported of a piece that is a token, apart from its place. -/
def content? (piece : Piece) : Option (TokenKind × String × Option Literal) :=
  match piece.sort with
  | .token kind literal => some (kind, String.ofList piece.text, literal)
  | _ => none

/-- A token that is all of the text that it is written as. -/
structure Alone (piece : Piece) : Prop where
  told : ∃ kind literal, piece.sort = .token kind literal
  first : ∃ c rest, piece.text = c :: rest ∧ Piece.first c rest = (piece, [])

/-- A space. -/
def space : Piece :=
  ⟨.blank, [' ']⟩

lemma sort_of_content (h : piece.content?.isSome) :
    ∃ kind literal, piece.sort = .token kind literal := by
  unfold content? at h
  split at h
  · next kind literal same => exact ⟨kind, literal, same⟩
  · cases h

/-- A token does not depend on the text behind it, so it can be cut off there. -/
lemma first_alone {kind : TokenKind} {literal : Option Literal}
    (told : (first c rest).1.sort = .token kind literal) : Alone (first c rest).1 := by
  obtain ⟨-, some, split⟩ := first_splits c rest
  generalize found : first c rest = result at told some split
  obtain ⟨piece, after⟩ := result
  simp only at told some split
  obtain ⟨d, body, written⟩ := List.exists_cons_of_ne_nil some
  rw [written, List.cons_append] at split
  obtain ⟨rfl, rfl⟩ := List.cons.inj split
  exact ⟨⟨kind, literal, told⟩, d, body, written, first_cut found (by simp [told])⟩

lemma ofText_alone (h : piece.Alone) : ofText piece.text = [piece] := by
  obtain ⟨c, rest, written, alone⟩ := h.first
  rw [written, ofText_cons, alone]
  rfl

/-- A space ends a token. -/
lemma ofText_spaced (h : piece.Alone) (after : List Char) :
    ofText (piece.text ++ ' ' :: after) = piece :: space :: ofText after := by
  obtain ⟨⟨kind, literal, told⟩, c, rest, written, alone⟩ := h
  have closed : (first c rest).1.sort ≠ .mistake .unclosedString := by simp [alone, told]
  have noComment : (first c rest).1.sort ≠ .comment := by simp [alone, told]
  rw [written, List.cons_append, ofText_cons, first_then (ends_of_blank rfl) c rest after closed
    (fun _ comment => absurd comment noComment) (fun slash => absurd slash (by decide)), alone]
  exact congrArg (List.cons piece) (ofText_cons ' ' after)

/-- Tokens with spaces between them are the pieces of what they are written as. -/
lemma ofText_intercalate (h : ∀ piece ∈ pieces, piece.Alone) :
    ofText ([' '].intercalate (pieces.map text)) = pieces.intersperse space := by
  induction pieces with
  | nil => rfl
  | cons piece pieces ih =>
    simp only [List.mem_cons, forall_eq_or_imp] at h
    cases pieces with
    | nil => simpa [List.intercalate] using ofText_alone h.1
    | cons next pieces =>
      have joined : [' '].intercalate ((piece :: next :: pieces).map text) =
          piece.text ++ ' ' :: [' '].intercalate ((next :: pieces).map text) := by
        simp [List.intercalate]
      rw [joined, ofText_spaced h.1, ih h.2, List.intersperse_cons_cons]

/-- The tokens among the pieces of a text. -/
def tokensOf (cs : List Char) : List Piece :=
  (ofText cs).filter fun piece => piece.content?.isSome

lemma tokensOf_alone (cs : List Char) : ∀ piece ∈ tokensOf cs, piece.Alone := by
  intro piece within
  obtain ⟨inside, told⟩ := List.mem_filter.mp within
  obtain ⟨c, rest, rfl⟩ := mem_ofText inside
  obtain ⟨kind, literal, sort⟩ := sort_of_content told
  exact first_alone sort

lemma tokensOf_content (cs : List Char) :
    (tokensOf cs).filterMap content? = (ofText cs).filterMap content? := by
  rw [tokensOf, List.filterMap_filter]
  refine List.filterMap_congr fun piece _ => ?_
  cases piece.content? <;> rfl

/-- Spaces are not reported. -/
lemma intersperse_content (pieces : List Piece) :
    (pieces.intersperse space).filterMap content? = pieces.filterMap content? := by
  induction pieces with
  | nil => rfl
  | cons piece pieces ih =>
    cases pieces with
    | nil => rfl
    | cons next pieces =>
      have none : space.content? = none := rfl
      rw [List.intersperse_cons_cons, List.filterMap_cons, List.filterMap_cons_none none, ih,
        ← List.filterMap_cons]

lemma mem_intersperse (h : piece ∈ pieces.intersperse space) : piece ∈ pieces ∨ piece = space := by
  induction pieces with
  | nil => cases h
  | cons first pieces ih =>
    cases pieces with
    | nil => exact .inl h
    | cons next pieces =>
      rw [List.intersperse_cons_cons, List.mem_cons, List.mem_cons] at h
      rcases h with rfl | rfl | later
      · exact .inl List.mem_cons_self
      · exact .inr rfl
      · exact (ih later).imp_left (List.mem_cons_of_mem first)

lemma Alone.content (h : piece.Alone) :
    ∃ kind literal, piece.content? = some (kind, String.ofList piece.text, literal) := by
  obtain ⟨kind, literal, told⟩ := h.told
  exact ⟨kind, literal, by simp only [content?, told]⟩

/-- A token is written as its piece. -/
lemma content_lexemes (h : ∀ piece ∈ pieces, piece.Alone) :
    (pieces.filterMap content?).map (fun content => content.2.1.toList) = pieces.map text := by
  induction pieces with
  | nil => rfl
  | cons piece pieces ih =>
    simp only [List.mem_cons, forall_eq_or_imp] at h
    obtain ⟨kind, literal, content⟩ := h.1.content
    rw [List.filterMap_cons_some content, List.map_cons, ih h.2, String.toList_ofList,
      List.map_cons]

end Piece

namespace Scan

/-- What the scan of some pieces reports, apart from places. -/
lemma locate_content (p : Position) (pieces : List Piece) : ∃ ts q,
    tokens (locate p pieces) = ts ++ [Token.atEnd q] ∧
      ts.map Token.content = pieces.filterMap Piece.content? := by
  induction pieces generalizing p with
  | nil => exact ⟨[], p, rfl, rfl⟩
  | cons piece pieces ih =>
    obtain ⟨ts, q, same, contents⟩ := ih (p.after piece.text)
    obtain ⟨sort, text⟩ := piece
    cases sort with
    | blank | comment | mistake => exact ⟨ts, q, same, contents⟩
    | token kind literal =>
      exact ⟨_ :: ts, q, congrArg (List.cons _) same, congrArg (List.cons _) contents⟩

/-- Tokens with spaces between them are scanned as themselves. -/
lemma yields_spaced {pieces : List Piece} (h : ∀ piece ∈ pieces, piece.Alone) : ∃ ts,
    Yields ([' '].intercalate (pieces.map Piece.text)) ts ∧
      ts.map Token.content = pieces.filterMap Piece.content? := by
  have cut := Piece.ofText_intercalate h
  obtain ⟨ts, q, same, contents⟩ := locate_content .start (pieces.intersperse Piece.space)
  refine ⟨ts, ⟨?_, q, by rw [items, cut, same]⟩, contents.trans (Piece.intersperse_content _)⟩
  rw [items, cut]
  refine locate_errors_nil .start fun piece within cause mistake => ?_
  rcases Piece.mem_intersperse within with inside | rfl
  · obtain ⟨kind, literal, told⟩ := (h piece inside).told
    rw [told] at mistake
    cases mistake
  · cases mistake

end Scan

namespace Source

/-- The lexemes of the tokens of a text, with single spaces between them. -/
def respaced (text : List Char) : List Char :=
  (" ".intercalate ((proper text).map Token.lexeme)).toList

lemma proper_content (text : List Char) :
    (proper text).map Token.content = (Piece.tokensOf text).filterMap Piece.content? := by
  obtain ⟨ts, q, same, contents⟩ := Scan.locate_content .start (Piece.ofText text)
  rw [Piece.tokensOf_content, ← contents, proper, Scan.items, same, List.dropLast_concat]

lemma respaced_eq (text : List Char) :
    respaced text = [' '].intercalate ((Piece.tokensOf text).map Piece.text) := by
  have lexemes : (proper text).map (fun t => t.lexeme.toList) =
      (Piece.tokensOf text).map Piece.text := by
    rw [← Piece.content_lexemes (Piece.tokensOf_alone text), ← proper_content, List.map_map]
    rfl
  rw [respaced, String.toList_intercalate, List.map_map, ← lexemes]
  rfl

/-- The lexemes of a text, with single spaces between them, are scanned without a mistake as the
tokens that they are the lexemes of; and so is each of them alone. -/
theorem lexemes_respaced (text : List Char) :
    (∃ ts, Scan.Yields (respaced text) ts ∧
      ts.map Token.content = (proper text).map Token.content) ∧
    ∀ t ∈ proper text, ∃ u, Scan.Yields t.lexeme.toList [u] ∧ u.content = t.content := by
  constructor
  · rw [respaced_eq, proper_content]
    exact Scan.yields_spaced (Piece.tokensOf_alone text)
  · intro t within
    have content := List.mem_map_of_mem (f := Token.content) within
    rw [proper_content] at content
    obtain ⟨piece, inside, told⟩ := List.mem_filterMap.mp content
    have alone := Piece.tokensOf_alone text piece inside
    have lexeme : t.lexeme.toList = piece.text := by
      obtain ⟨kind, literal, content⟩ := alone.content
      have same := Option.some.inj (content.symm.trans told)
      rw [show t.lexeme = t.content.2.1 from rfl, ← same, String.toList_ofList]
    obtain ⟨ts, yields, contents⟩ := Scan.yields_spaced (List.forall_mem_singleton.mpr alone)
    rw [List.filterMap_cons_some told] at contents
    obtain ⟨u, rfl, same⟩ := List.map_eq_singleton_iff.mp contents
    refine ⟨u, ?_, same⟩
    rw [lexeme]
    simpa [List.intercalate] using yields

example : String.ofList (respaced "if(a!=o17)//\n\"x y\"@1.".toList) =
    "if ( a != o17 ) \"x y\" 1 ." := by
  decide +kernel

end Source

end Lox
