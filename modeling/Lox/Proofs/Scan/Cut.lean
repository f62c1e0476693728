import Lox.Proofs.Scan.Joined

/-!
A text that ends early. What is cut off behind a piece was not seen by it, so the pieces before the
cut stay as they were.
-/

namespace Lox

open Located (moved)
open Numeral (isDigit isOctalDigit)

namespace Piece

variable {p : Char → Bool} {c : Char} {cs rest more r : List Char} {piece : Piece}

/-- A run that leaves over all that was cut off, and `r` before it, leaves over `r`. -/
lemma span_cut (h : (cs ++ more).dropWhile p = r ++ more) :
    cs.takeWhile p = (cs ++ more).takeWhile p ∧ cs.dropWhile p = r := by
  by_cases some : cs.dropWhile p ≠ []
  · obtain ⟨taken, dropped⟩ := span_append cs more (.inl some)
    exact ⟨taken.symm, List.append_cancel_right (dropped.symm.trans h)⟩
  · have none : cs.dropWhile p = [] := not_not.mp some
    have left : more.dropWhile p = r ++ more := by
      rwa [List.dropWhile_append, none] at h
    have shorter := (List.dropWhile_suffix (l := more) p).length_le
    have lengths := congrArg List.length left
    simp only [List.length_append] at lengths
    obtain rfl : r = [] := List.length_eq_zero_iff.mp (by omega)
    have stops : startsWith p more = false := by
      have ends := List.head?_dropWhile_not p more
      rw [left] at ends
      cases more with
      | nil => rfl
      | cons d more => simpa [startsWith] using ends
    exact ⟨(span_append cs more (.inr stops)).1.symm, none⟩

lemma startsWith_append (h : startsWith p cs = true) : startsWith p (cs ++ more) = true := by
  obtain ⟨d, others, rfl, holds⟩ := startsWith_split h
  exact holds

lemma word_cut (h : word (cs ++ more) = (piece, r ++ more)) : word cs = (piece, r) := by
  obtain ⟨rfl, left⟩ := Prod.mk.inj h
  obtain ⟨taken, dropped⟩ := span_cut left
  simp only [word, taken, dropped]

lemma octal_cut (h : octal (cs ++ more) = (piece, r ++ more)) : octal cs = (piece, r) := by
  obtain ⟨rfl, left⟩ := Prod.mk.inj h
  obtain ⟨taken, dropped⟩ := span_cut left
  simp only [octal, taken, dropped]

lemma comment_cut (h : comment (cs ++ more) = (piece, r ++ more)) :
    comment cs = (piece, r) := by
  obtain ⟨rfl, left⟩ := Prod.mk.inj h
  obtain ⟨taken, dropped⟩ := span_cut left
  simp only [comment, taken, dropped]

lemma string_cut (h : string (cs ++ more) = (piece, r ++ more))
    (closed : piece.sort ≠ .mistake .unclosedString) : string cs = (piece, r) := by
  unfold string at h
  split at h
  · obtain ⟨rfl, -⟩ := Prod.mk.inj h
    exact absurd rfl closed
  · next q after found =>
    obtain ⟨rfl, rfl⟩ := Prod.mk.inj h
    obtain ⟨taken, dropped⟩ := span_cut (r := q :: r) found
    simp only [string, taken, dropped]

lemma number_point {after : List Char} (point : cs.dropWhile isDigit = '.' :: after)
    (digits : startsWith isDigit after = true) : number cs =
      (⟨.token .number (some (.number (Numeral.decimal (cs.takeWhile isDigit)
        (after.takeWhile isDigit)))), cs.takeWhile isDigit ++ '.' :: after.takeWhile isDigit⟩,
        after.dropWhile isDigit) := by
  simp only [number, point, digits, if_true]

lemma number_plain (plain : ∀ after, cs.dropWhile isDigit = '.' :: after →
      startsWith isDigit after = false) : number cs =
      (⟨.token .number (some (.number (Numeral.decimal (cs.takeWhile isDigit) []))),
        cs.takeWhile isDigit⟩, cs.dropWhile isDigit) := by
  simp only [number]
  split
  · next after point => rw [plain after point, if_neg Bool.false_ne_true]
  · rfl

lemma number_cut (h : number (cs ++ more) = (piece, r ++ more)) : number cs = (piece, r) := by
  by_cases point : ∃ after, (cs ++ more).dropWhile isDigit = '.' :: after ∧
      startsWith isDigit after = true
  · obtain ⟨after, point, digits⟩ := point
    rw [number_point point digits] at h
    obtain ⟨rfl, left⟩ := Prod.mk.inj h
    -- the fraction and what is left over stand before what was cut off
    have some := takeWhile_ne_nil digits
    have whole : after = (after.takeWhile isDigit ++ r) ++ more := by
      rw [List.append_assoc, ← left, List.takeWhile_append_dropWhile]
    generalize taken : after.takeWhile isDigit = fraction at *
    rw [whole] at point left taken
    obtain ⟨taken', dropped⟩ := span_cut (r := '.' :: (fraction ++ r)) point
    obtain ⟨fraction', rest⟩ := span_cut left
    have digits : startsWith isDigit (fraction ++ r) = true := by
      obtain ⟨d, others, rfl⟩ := List.exists_cons_of_ne_nil some
      have within : d ∈ (d :: others ++ r ++ more).takeWhile isDigit := by
        rw [taken]
        exact List.mem_cons_self
      exact all_takeWhile _ d within
    rw [number_point dropped digits, taken', fraction', taken, rest]
  · have plain : ∀ after, (cs ++ more).dropWhile isDigit = '.' :: after →
        startsWith isDigit after = false := fun after found =>
      Bool.eq_false_iff.mpr fun digits => point ⟨after, found, digits⟩
    rw [number_plain plain] at h
    obtain ⟨rfl, left⟩ := Prod.mk.inj h
    obtain ⟨taken, dropped⟩ := span_cut left
    rw [number_plain, taken, dropped]
    intro after found
    have longer := plain (after ++ more) (by rw [left, ← dropped, found]; rfl)
    exact Bool.eq_false_iff.mpr fun digits =>
      Bool.eq_false_iff.mp longer (startsWith_append digits)

lemma single_cut (h : single c (cs ++ more) = (piece, r ++ more)) :
    single c cs = (piece, r) := by
  unfold single at h ⊢
  split at h
  · obtain ⟨rfl, left⟩ := Prod.mk.inj h
    rw [List.append_cancel_right left]
  · obtain ⟨rfl, left⟩ := Prod.mk.inj h
    rw [List.append_cancel_right left]

lemma symbol_cut (h : symbol c (cs ++ more) = (piece, r ++ more)) : symbol c cs = (piece, r) := by
  cases cs with
  | cons d cs =>
    simp only [List.cons_append, symbol] at h ⊢
    split at h
    · obtain ⟨rfl, left⟩ := Prod.mk.inj h
      rw [List.append_cancel_right left]
    · exact single_cut (show single c (d :: cs ++ more) = _ from h)
  | nil =>
    cases more with
    | nil => simpa using h
    | cons d more =>
      simp only [List.nil_append, symbol] at h ⊢
      split at h
      · have lengths := congrArg (fun found => found.2.length) h
        simp only [List.length_append, List.length_cons] at lengths
        omega
      · exact single_cut (show single c ([] ++ d :: more) = _ from h)

/-- What a reader of at least one more character leaves over is less than there was. -/
lemma startsWith_cut {found : List Char} (h : startsWith p (cs ++ more) = true)
    (shorter : found.length ≤ (cs ++ more).tail.length) (left : found = r ++ more) :
    startsWith p cs = true := by
  cases cs with
  | cons d cs => exact h
  | nil =>
    obtain ⟨d, others, rfl, -⟩ := startsWith_split h
    subst left
    simp only [List.nil_append, List.length_append, List.length_cons, List.tail_cons] at shorter
    omega

/-- A piece does not depend on what is cut off behind it. -/
lemma first_cut (h : first c (rest ++ more) = (piece, r ++ more))
    (closed : piece.sort ≠ .mistake .unclosedString) : first c rest = (piece, r) := by
  have left : (first c (rest ++ more)).2 = r ++ more := congrArg Prod.snd h
  unfold first at h left ⊢
  split_ifs at h left with blank slashes quote digit mark letter
  · obtain ⟨rfl, left⟩ := Prod.mk.inj h
    rw [if_pos blank, List.append_cancel_right left]
  · simp only [Bool.and_eq_true, decide_eq_true_eq] at slashes
    have second := startsWith_cut slashes.2 (List.dropWhile_suffix _).length_le left
    rw [if_neg blank, if_pos (by simp [slashes.1, second])]
    obtain ⟨d, others, rfl, -⟩ := startsWith_split second
    exact comment_cut h
  all_goals
    have noComment : ¬(c = '/' && startsWith (· = '/') rest) = true := fun both => by
      simp only [Bool.and_eq_true, decide_eq_true_eq] at both slashes
      exact slashes ⟨both.1, startsWith_append both.2⟩
    rw [if_neg blank, if_neg noComment]
  · rw [if_pos quote]
    exact string_cut h closed
  · rw [if_neg quote, if_pos digit]
    exact number_cut (show number (c :: rest ++ more) = _ from h)
  · simp only [Bool.and_eq_true, decide_eq_true_eq] at mark
    have shorter : ((rest ++ more).dropWhile isOctalDigit).length ≤ (rest ++ more).tail.length := by
      obtain ⟨d, others, split, holds⟩ := startsWith_split mark.2
      rw [split, List.dropWhile_cons_of_pos holds]
      exact (List.dropWhile_suffix _).length_le
    have second := startsWith_cut mark.2 shorter left
    rw [if_neg quote, if_neg digit, if_pos (by simp [mark.1, second])]
    exact octal_cut h
  all_goals
    have noMark : ¬(c = 'o' && startsWith isOctalDigit rest) = true := fun both => by
      simp only [Bool.and_eq_true, decide_eq_true_eq] at both mark
      exact mark ⟨both.1, startsWith_append both.2⟩
    rw [if_neg quote, if_neg digit, if_neg noMark]
  · rw [if_pos letter]
    exact word_cut (show word (c :: rest ++ more) = _ from h)
  · rw [if_neg letter]
    exact symbol_cut h

/-- The pieces before a cut between two pieces are those of the text that ends there. -/
lemma ofText_cut {ps qs : List Piece} (split : ofText cs = ps ++ qs)
    (closed : ∀ piece ∈ ps, piece.sort ≠ .mistake .unclosedString) :
    ofText (ps.map text).flatten = ps := by
  induction ps generalizing cs with
  | nil => rfl
  | cons piece ps ih =>
    cases cs with
    | nil => cases split
    | cons c rest =>
      simp only [List.mem_cons, forall_eq_or_imp] at closed
      rw [ofText_cons, List.cons_append] at split
      obtain ⟨here, others⟩ := List.cons.inj split
      obtain ⟨-, some, whole⟩ := first_splits c rest
      rw [here] at some whole
      have joined := (ofText_splits (first c rest).2).2
      rw [others, List.map_append, List.flatten_append] at joined
      rw [← joined, ← List.append_assoc] at whole
      obtain ⟨d, body, first_text⟩ := List.exists_cons_of_ne_nil some
      rw [first_text, List.cons_append, List.cons_append] at whole
      obtain ⟨rfl, rfl⟩ := List.cons.inj whole
      have cut : first d (body ++ (ps.map text).flatten) = (piece, (ps.map text).flatten) :=
        first_cut (Prod.ext here joined.symm) closed.1
      rw [List.map_cons, List.flatten_cons, first_text, List.cons_append, ofText_cons, cut,
        ih others closed.2]

end Piece

namespace Scan

variable {text : List Char} {ts us : List Token} {t : Token} {p : Position}

lemma tokens_append (found others : List Scanned) :
    tokens (found ++ others) = tokens found ++ tokens others :=
  List.filterMap_append

lemma errors_append (found others : List Scanned) :
    errors (found ++ others) = errors found ++ errors others :=
  List.filterMap_append

/-- A piece is one token or none. -/
lemma tokens_locate_cons (p : Position) (piece : Piece) :
    (∃ t, piece.scanned? p (p.after piece.text) = some (.ok t) ∧
      ∀ pieces, tokens (locate p (piece :: pieces)) =
        t :: tokens (locate (p.after piece.text) pieces)) ∨
    ∀ pieces, tokens (locate p (piece :: pieces)) =
      tokens (locate (p.after piece.text) pieces) := by
  simp only [locate]
  cases piece.scanned? p (p.after piece.text) with
  | none => exact .inr fun _ => rfl
  | some item =>
    cases item with
    | ok t => exact .inl ⟨t, rfl, fun _ => rfl⟩
    | error e => exact .inr fun _ => rfl

/-- A token of some pieces is that of one of them, or the one at the end. -/
lemma locate_token {pieces : List Piece} (split : tokens (locate p pieces) = ts ++ t :: us) :
    (∃ ps piece qs q, pieces = ps ++ piece :: qs ∧ q = p.after (ps.map Piece.text).flatten ∧
      tokens (locate p ps) = ts ++ [Token.atEnd q] ∧
      piece.scanned? q (q.after piece.text) = some (.ok t)) ∨
    us = [] ∧ t = Token.atEnd (p.after (pieces.map Piece.text).flatten) := by
  induction pieces generalizing p ts with
  | nil =>
    cases ts with
    | nil =>
      obtain ⟨rfl, rfl⟩ := List.cons.inj split
      exact .inr ⟨rfl, by simp [Position.after, utf8Length]⟩
    | cons u ts =>
      obtain ⟨-, none⟩ := List.cons.inj split
      exact absurd none.symm (by simp)
  | cons piece pieces ih =>
    have texts (ps : List Piece) : p.after ((piece :: ps).map Piece.text).flatten =
        (p.after piece.text).after (ps.map Piece.text).flatten := by
      rw [List.map_cons, List.flatten_cons, after_after]
    rw [texts]
    rcases tokens_locate_cons p piece with ⟨u, here, same⟩ | same
    · rw [same] at split
      cases ts with
      | nil =>
        obtain ⟨rfl, -⟩ := List.cons.inj split
        exact .inl ⟨[], piece, pieces, p, rfl, by simp [Position.after, utf8Length], rfl, here⟩
      | cons v ts =>
        obtain ⟨rfl, behind⟩ := List.cons.inj split
        refine (ih behind).imp_left ?_
        rintro ⟨ps, next, qs, q, rfl, hq, before, found⟩
        exact ⟨piece :: ps, next, qs, q, rfl, hq.trans (texts ps).symm, by rw [same, before]; rfl,
          found⟩
    · rw [same] at split
      refine (ih split).imp_left ?_
      rintro ⟨ps, next, qs, q, rfl, hq, before, found⟩
      exact ⟨piece :: ps, next, qs, q, rfl, hq.trans (texts ps).symm, by rw [same, before], found⟩

/-- A text without lexical mistakes whose tokens are `ts`, up to the one for the end. -/
def Yields (text : List Char) (ts : List Token) : Prop :=
  errors (items text) = [] ∧ ∃ q, tokens (items text) = ts ++ [Token.atEnd q]

lemma yields_of_pieces {cs : List Char} {ps qs : List Piece} (none : errors (items cs) = [])
    (split : Piece.ofText cs = ps ++ qs) {q : Position}
    (found : tokens (locate .start ps) = ts ++ [Token.atEnd q]) :
    Yields (ps.map Piece.text).flatten ts := by
  have closed : ∀ piece ∈ ps, piece.sort ≠ .mistake .unclosedString := by
    intro piece within
    refine sort_of_errors_nil none piece ?_ _
    rw [split]
    exact List.mem_append_left qs within
  have same : items (ps.map Piece.text).flatten = locate .start ps := by
    rw [items, Piece.ofText_cut split closed]
  obtain ⟨front, q', -, alone, joined⟩ := locate_append .start ps qs
  rw [items, split, joined, errors_append] at none
  refine ⟨?_, q, same ▸ found⟩
  rw [same, alone, errors_append, (List.append_eq_nil_iff.mp none).1]
  rfl

lemma scanned?_token {piece : Piece} {q : Position}
    (h : piece.scanned? q (q.after piece.text) = some (.ok t)) :
    t.span = ⟨q.offset, utf8Length piece.text⟩ := by
  obtain ⟨sort, text⟩ := piece
  cases sort with
  | blank | comment | mistake => cases h
  | token kind literal =>
    cases h
    simp [Position.spanTo, Position.after]

/-- A text without lexical mistakes can be cut before each of its tokens, and behind it. -/
lemma yields_cut (none : errors (items text) = [])
    (split : tokens (items text) = ts ++ t :: us) : ∃ before part after,
    text = before ++ part ++ after ∧ t.span = ⟨utf8Length before, utf8Length part⟩ ∧
      Yields before ts ∧ (t.kind ≠ .eof → Yields (before ++ part) (ts ++ [t])) := by
  have whole := (Piece.ofText_splits text).2
  rcases locate_token split with ⟨ps, piece, qs, q, pieces, hq, found, here⟩ | ⟨rfl, rfl⟩
  · refine ⟨(ps.map Piece.text).flatten, piece.text, (qs.map Piece.text).flatten, ?_, ?_,
      yields_of_pieces none pieces found, fun _ => ?_⟩
    · rw [← whole, pieces]
      simp
    · rw [scanned?_token here, hq]
      simp [Position.after, Position.start]
    · obtain ⟨front, q', hq', alone, joined⟩ := locate_append .start ps [piece]
      obtain rfl : q = q' := hq.trans hq'.symm
      have before : tokens front = ts := by
        rw [alone, tokens_append] at found
        exact List.append_cancel_right found
      have both : tokens (locate .start (ps ++ [piece])) =
          (ts ++ [t]) ++ [Token.atEnd (q.after piece.text)] := by
        rw [joined, tokens_append, before, List.append_assoc]
        simp only [locate, here]
        rfl
      have texts : ((ps ++ [piece]).map Piece.text).flatten =
          (ps.map Piece.text).flatten ++ piece.text := by simp
      rw [← texts]
      exact yields_of_pieces none (pieces.trans (List.append_cons ps piece qs)) both
  · refine ⟨text, [], [], by simp, ?_, ⟨none, _, split⟩, fun proper => absurd rfl proper⟩
    rw [whole]
    simp [Token.atEnd, Position.after, Position.start, utf8Length]

/-! Texts that are written for the sake of the kinds of their tokens. -/

/-- A text for each kind of token that a text can have. -/
def spellings : List (List Char × TokenKind) :=
  TokenKind.symbols ++ TokenKind.keywords.map (fun entry => (entry.1.toList, entry.2)) ++
    [(['0'], .number), (['\x22', '\x22'], .string), (['a'], .identifier)]

lemma spellings_scan : ∀ entry ∈ spellings, errors (items entry.1) = [] ∧
    (tokens (items entry.1)).map Token.kind = [entry.2, .eof] := by
  decide +kernel

lemma exists_spelling {kind : TokenKind} (proper : kind ≠ .eof) :
    ∃ cs, (cs, kind) ∈ spellings := by
  have listed : kind ∈ spellings.map Prod.snd := by
    cases kind <;> first | exact absurd rfl proper | decide
  obtain ⟨⟨cs, _⟩, within, rfl⟩ := List.mem_map.mp listed
  exact ⟨cs, within⟩

lemma moved_kinds (m : Relocation) (ts : List Token) :
    (moved m ts).map Token.kind = ts.map Token.kind :=
  List.map_map

/-- The tokens of a text on the lines after another one come after those, with their kinds. -/
lemma Yields.newline {cs : List Char} (h : Yields cs ts) (ds : List Char) : ∃ vs q,
    tokens (items (cs ++ '\n' :: ds)) = (ts ++ vs) ++ [Token.atEnd q] ∧
      vs.map Token.kind ++ [.eof] = (tokens (items ds)).map Token.kind ∧
      (errors (items ds) = [] → errors (items (cs ++ '\n' :: ds)) = []) := by
  obtain ⟨none, q, alone⟩ := h
  obtain ⟨ts', q', alone', joined, mistakes⟩ := tokens_newline cs ds none
  obtain rfl : ts' = ts := (List.append_inj' (alone'.symm.trans alone) rfl).1
  obtain ⟨us, r, split, -⟩ := tokens_items ds
  rw [split] at joined
  refine ⟨moved (movedBehind cs) us,
    ⟨r.offset + (utf8Length cs + 1), r.line + (cs.count '\n' + 1)⟩, ?_, ?_, ?_⟩
  · rw [joined, List.append_assoc]
    exact congrArg (ts' ++ ·) List.map_append
  · rw [split, List.map_append, moved_kinds]
    rfl
  · intro clean
    rw [mistakes, clean]
    rfl

/-- Every list of kinds but that of the end is the list of the kinds of a text. -/
lemma exists_text (cs : List TokenKind) (proper : .eof ∉ cs) :
    ∃ text ts, Yields text ts ∧ ts.map Token.kind = cs := by
  induction cs with
  | nil => exact ⟨[], [], ⟨rfl, .start, rfl⟩, rfl⟩
  | cons kind cs ih =>
    simp only [List.mem_cons, not_or] at proper
    have other : kind ≠ .eof := fun same => proper.1 same.symm
    obtain ⟨word, within⟩ := exists_spelling other
    obtain ⟨none, kinds⟩ := spellings_scan _ within
    obtain ⟨text, ts, ⟨none', q, split'⟩, rfl⟩ := ih proper.2
    obtain ⟨us, r, split, -⟩ := tokens_items word
    obtain ⟨vs, r', joined, kinds', clean⟩ := Yields.newline ⟨none, r, split⟩ text
    refine ⟨word ++ '\n' :: text, us ++ vs, ⟨clean none', r', joined⟩, ?_⟩
    have first : us.map Token.kind = [kind] := by
      rw [split, List.map_append] at kinds
      exact (List.append_inj' kinds rfl).1
    have others : vs.map Token.kind = ts.map Token.kind := by
      rw [split', List.map_append] at kinds'
      exact (List.append_inj' kinds' rfl).1
    rw [List.map_append, first, others]
    rfl

end Scan

end Lox
