import Lox.Proofs.Scan.Cut
import Lox.Proofs.Scan.Partition

/-!
A text without its last semicolon. Behind it there are only blanks and comments. They move up to the
tokens before it and change none of them, unless a slash comes to stand before a comment.
-/

namespace Lox

namespace Piece

variable {cs after : List Char} {ps qs : List Piece} {piece : Piece}

/-- The pieces behind a cut between two pieces are those of the text that begins there. -/
lemma ofText_behind (split : ofText cs = ps ++ qs) : ofText (qs.map text).flatten = qs := by
  induction ps generalizing cs with
  | nil =>
    rw [List.nil_append] at split
    rw [← split, (ofText_splits cs).2]
  | cons piece ps ih =>
    cases cs with
    | nil => cases split
    | cons c rest =>
      rw [ofText_cons] at split
      exact ih (List.cons.inj split).2

lemma first_semicolon (after : List Char) :
    first ';' after = (⟨.token .semicolon none, [';']⟩, after) := by
  cases after <;> rfl

/-- The last piece before a semicolon is a token, if it is no blank. A slash is one for a slash. -/
lemma last_before_semicolon (split : ofText cs = ps ++ piece :: qs)
    (behind : (qs.map text).flatten = ';' :: after) :
    piece.sort ≠ .comment ∧ (piece.text = ['/'] → piece = ⟨.token .slash none, ['/']⟩) := by
  have here := ofText_behind split
  rw [List.map_cons, List.flatten_cons, behind] at here
  have written : piece.text ≠ [] := by
    cases cs with
    | nil => simp [ofText, cut] at split
    | cons c rest =>
      have within : piece ∈ ofText (c :: rest) := by simp [split]
      obtain ⟨d, others, rfl⟩ := mem_ofText within
      exact (first_splits d others).2.1
  obtain ⟨c, rest, found⟩ := List.exists_cons_of_ne_nil written
  rw [found, List.cons_append, ofText_cons] at here
  have same : (first c (rest ++ ';' :: after)).1 = piece := (List.cons.inj here).1
  obtain ⟨-, -, whole⟩ := first_splits c (rest ++ ';' :: after)
  rw [same, found, List.cons_append] at whole
  have left := List.append_cancel_left (List.cons.inj whole).2
  have told := first_told c (rest ++ ';' :: after)
  rw [same, left] at told
  constructor
  · intro comment
    simp only [Told, comment] at told
    obtain ⟨-, -, -, nothing | ⟨more, newline⟩⟩ := told
    · cases nothing
    · cases newline
  · intro slash
    obtain ⟨rfl, rfl⟩ : c = '/' ∧ rest = [] := by simpa [found] using slash
    rw [← same]
    rfl

/-- A piece that is a blank or a comment begins with a character that ends what is before it. -/
lemma silent_ends (within : piece ∈ ofText cs)
    (silent : piece.sort = .blank ∨ piece.sort = .comment) :
    ∃ sep more, piece.text = sep :: more ∧ Ends sep := by
  obtain ⟨c, rest, rfl⟩ := mem_ofText within
  have told := first_told c rest
  rcases silent with blank | comment
  · simp only [Told, blank] at told
    obtain ⟨sep, separates, written⟩ := told
    exact ⟨sep, [], written, ends_of_blank separates⟩
  · simp only [Told, comment] at told
    obtain ⟨body, written, -⟩ := told
    exact ⟨'/', _, written, ends_slash⟩

/-- Where a semicolon before blanks and comments is taken out, the other pieces stay what they
were. -/
lemma ofText_unended (split : ofText cs = ps ++ piece :: qs)
    (semicolon : ((piece :: qs).map text).flatten = ';' :: after)
    (closed : ∀ piece ∈ ps, piece.sort ≠ .mistake .unclosedString)
    (silent : ∀ piece ∈ qs, piece.sort = .blank ∨ piece.sort = .comment)
    (apart : ∀ piece, ps.getLast? = some piece → piece ≠ ⟨.token .slash none, ['/']⟩) :
    ofText ((ps.map text).flatten ++ (qs.map text).flatten) = ps ++ qs := by
  have before : ofText (ps.map text).flatten = ps := ofText_cut split closed
  have last : ∀ last, ps.getLast? = some last → last.sort ≠ .comment ∧ last.text ≠ ['/'] := by
    intro last found
    obtain ⟨others, rfl⟩ := List.getLast?_eq_some_iff.mp found
    rw [List.append_assoc, List.singleton_append] at split
    obtain ⟨noComment, slash⟩ := last_before_semicolon split semicolon
    exact ⟨noComment, fun same => apart last found (slash same)⟩
  have behind : ofText (qs.map text).flatten = qs :=
    ofText_behind (split.trans (List.append_cons ps piece qs))
  cases qs with
  | nil => simpa using before
  | cons next qs =>
    have within : next ∈ ofText cs := by
      rw [split]
      simp
    obtain ⟨sep, more, written, ends⟩ := silent_ends within (silent next List.mem_cons_self)
    rw [List.map_cons, List.flatten_cons, written, List.cons_append] at behind ⊢
    rw [ofText_then ends, before, behind]
    · rwa [before]
    · intro _ piece found
      rw [before] at found
      exact (last piece found).1
    · intro _ piece found
      rw [before] at found
      exact (last piece found).2

end Piece

namespace Scan

variable {before after : List Char} {ts : List Token} {t : Token}

/-- Pieces among which no token is found, and no mistake, are blanks and comments. -/
lemma silent_of_tokens {p q : Position} {pieces : List Piece}
    (clean : ∀ piece ∈ pieces, ∀ cause, piece.sort ≠ .mistake cause)
    (none : tokens (locate p pieces) = [Token.atEnd q]) :
    ∀ piece ∈ pieces, piece.sort = .blank ∨ piece.sort = .comment := by
  induction pieces generalizing p with
  | nil => exact List.forall_mem_nil _
  | cons piece pieces ih =>
    obtain ⟨sort, text⟩ := piece
    simp only [List.mem_cons, forall_eq_or_imp] at clean ⊢
    cases sort with
    | blank => exact ⟨.inl rfl, ih clean.2 none⟩
    | comment => exact ⟨.inr rfl, ih clean.2 none⟩
    | mistake cause => exact absurd rfl (clean.1 cause)
    | token kind literal =>
      obtain ⟨found, r, -, same, -⟩ := locate_append (p.after text) pieces []
      have nothing : tokens (locate (p.after text) pieces) = [] := (List.cons.inj none).2
      rw [same, tokens_append] at nothing
      exact absurd nothing (List.append_ne_nil_of_right_ne_nil _ (List.cons_ne_nil _ _))

lemma tokens_of_silent (p : Position) {pieces : List Piece}
    (silent : ∀ piece ∈ pieces, piece.sort = .blank ∨ piece.sort = .comment) :
    ∃ q, tokens (locate p pieces) = [Token.atEnd q] := by
  induction pieces generalizing p with
  | nil => exact ⟨p, rfl⟩
  | cons piece pieces ih =>
    simp only [List.mem_cons, forall_eq_or_imp] at silent
    obtain ⟨sort, text⟩ := piece
    cases sort with
    | blank | comment => exact ih (p.after text) silent.2
    | token | mistake => simp at silent

/-- Where the last piece is a token, it is the last of the tokens. -/
lemma locate_last {p q : Position} {pieces : List Piece} {kind : TokenKind}
    {literal : Option Literal} {text : List Char}
    (last : pieces.getLast? = some ⟨.token kind literal, text⟩)
    (found : tokens (locate p pieces) = ts ++ [Token.atEnd q]) :
    ∃ u, ts.getLast? = some u ∧ u.kind = kind := by
  obtain ⟨others, rfl⟩ := List.getLast?_eq_some_iff.mp last
  obtain ⟨front, r, -, -, joined⟩ := locate_append p others [⟨.token kind literal, text⟩]
  rw [joined, tokens_append] at found
  let u : Token := ⟨kind, r.spanTo (r.after text), (r.after text).line, String.ofList text, literal⟩
  have same : (tokens front ++ [u]) ++ [Token.atEnd (r.after text)] = ts ++ [Token.atEnd q] := by
    rw [List.append_assoc]
    exact found
  refine ⟨u, ?_, rfl⟩
  rw [← (List.append_inj' same rfl).1, List.getLast?_concat]

/-- The semicolon among the pieces, with only blanks and comments behind it. -/
lemma split_at_semicolon (whole : Yields (before ++ ';' :: after) (ts ++ [t]))
    (place : t.span.start = utf8Length before) : t.kind = .semicolon ∧ ∃ ps q,
      Piece.ofText (before ++ ';' :: after) =
        ps ++ ⟨.token .semicolon none, [';']⟩ :: Piece.ofText after ∧
      (ps.map Piece.text).flatten = before ∧ tokens (locate .start ps) = ts ++ [Token.atEnd q] ∧
      ∀ piece ∈ Piece.ofText after, piece.sort = .blank ∨ piece.sort = .comment := by
  obtain ⟨quiet, q, split⟩ := whole
  rw [List.append_assoc, List.singleton_append] at split
  have clean := sort_of_errors_nil quiet
  rcases locate_token split with ⟨ps, piece, qs, r, pieces, hr, found, here⟩ | ⟨nothing, -⟩
  · have joined := (Piece.ofText_splits (before ++ ';' :: after)).2
    rw [pieces, List.map_append, List.flatten_append] at joined
    have length : utf8Length (ps.map Piece.text).flatten = utf8Length before := by
      rw [← place, scanned?_token here, hr]
      simp [Position.after, Position.start]
    obtain ⟨same, semicolon⟩ := utf8Length_inj joined length
    have behind := Piece.ofText_behind pieces
    rw [semicolon, Piece.ofText_cons, Piece.first_semicolon] at behind
    obtain ⟨rfl, rfl⟩ : ⟨.token .semicolon none, [';']⟩ = piece ∧ Piece.ofText after = qs :=
      List.cons.inj behind
    obtain ⟨front, r', hr', alone, both⟩ := locate_append .start ps
      (⟨.token .semicolon none, [';']⟩ :: Piece.ofText after)
    have first : tokens front = ts := by
      rw [alone, tokens_append] at found
      exact (List.append_inj' found rfl).1
    rw [items, pieces, both, tokens_append, first] at split
    obtain ⟨rfl, nothing⟩ := List.cons.inj (List.append_cancel_left split)
    rw [pieces] at clean
    have silent := silent_of_tokens (fun piece within => clean piece (by simp [within])) nothing
    exact ⟨rfl, ps, r, pieces, same, found, silent⟩
  · cases nothing

/-- A text without lexical mistakes that ends with a semicolon, and maybe with blanks and comments
behind it: without the semicolon it has the other tokens, if they do not end with a slash. -/
lemma yields_unended (whole : Yields (before ++ ';' :: after) (ts ++ [t]))
    (place : t.span.start = utf8Length before)
    (apart : ∀ u, ts.getLast? = some u → u.kind ≠ .slash) : Yields (before ++ after) ts := by
  obtain ⟨-, ps, q, pieces, same, found, silent⟩ := split_at_semicolon whole place
  have clean := sort_of_errors_nil whole.1
  rw [pieces] at clean
  have kept : Piece.ofText (before ++ after) = ps ++ Piece.ofText after := by
    have semicolon : ((⟨.token .semicolon none, [';']⟩ :: Piece.ofText after).map
        Piece.text).flatten = ';' :: after := by
      rw [List.map_cons, List.flatten_cons, (Piece.ofText_splits after).2]
      rfl
    have moved := Piece.ofText_unended pieces semicolon
      (fun piece within => clean piece (by simp [within]) _) silent ?_
    · rwa [same, (Piece.ofText_splits after).2] at moved
    · rintro piece last rfl
      obtain ⟨u, ends, slash⟩ := locate_last last found
      exact apart u ends slash
  constructor
  · rw [items, kept]
    refine locate_errors_nil .start fun piece within => clean piece ?_
    rcases List.mem_append.mp within with earlier | later
    · exact List.mem_append_left _ earlier
    · exact List.mem_append_right _ (List.mem_cons_of_mem _ later)
  · obtain ⟨front, r, -, alone, both⟩ := locate_append .start ps (Piece.ofText after)
    obtain ⟨q', ends⟩ := tokens_of_silent r silent
    rw [alone, tokens_append] at found
    refine ⟨q', ?_⟩
    rw [items, kept, both, tokens_append, ends, (List.append_inj' found rfl).1]

end Scan

end Lox
