import Lox.Proofs.Place.Located
import Lox.Proofs.Scan.Slices

/-!
What stands before a blank or a comment. A blank ends every token, a slash every token but another
slash, and a newline ends comments too. So if a text closes all its strings, no piece reaches over a
newline behind it: the scan of two texts, one on the lines after the other, is the scan of the first
and that of the second, moved behind the first.
-/

namespace Lox

open Located (moved)
open Numeral (isDigit isOctalDigit)

namespace Piece

variable {p : Char → Bool} {sep : Char}

/-- A run of characters ends where it ended, if it did, or else where what follows begins. -/
lemma span_append (cs after : List Char)
    (h : cs.dropWhile p ≠ [] ∨ startsWith p after = false) :
    (cs ++ after).takeWhile p = cs.takeWhile p ∧
      (cs ++ after).dropWhile p = cs.dropWhile p ++ after := by
  induction cs with
  | nil =>
    have stops := h.resolve_left fun some => some rfl
    cases after with
    | nil => exact ⟨rfl, rfl⟩
    | cons d after =>
      have stops : ¬p d = true := Bool.eq_false_iff.mp stops
      exact ⟨List.takeWhile_cons_of_neg stops, List.dropWhile_cons_of_neg stops⟩
  | cons c cs ih =>
    by_cases holds : p c = true
    · rw [List.dropWhile_cons_of_pos holds] at h
      obtain ⟨taken, dropped⟩ := ih h
      simp only [List.cons_append, List.takeWhile_cons_of_pos holds,
        List.dropWhile_cons_of_pos holds, taken, dropped, and_self]
    · simp only [List.cons_append, List.takeWhile_cons_of_neg holds,
        List.dropWhile_cons_of_neg holds, and_self]

/-- A character with which no word, numeral or symbol goes on. -/
structure Ends (sep : Char) : Prop where
  word : continuesWord sep = false
  digit : isDigit sep = false
  octal : isOctalDigit sep = false
  point : sep ≠ '.'
  symbol : ∀ c, TokenKind.ofSymbol? [c, sep] = none

/-- The second characters of symbols. -/
lemma symbols_second :
    ∀ entry ∈ TokenKind.symbols, entry.1.tail.all (· ∈ ['=', '!', '-']) = true := by
  decide

lemma ofSymbol?_other (other : sep ∉ ['=', '!', '-']) (c : Char) :
    TokenKind.ofSymbol? [c, sep] = none := by
  cases found : TokenKind.ofSymbol? [c, sep] with
  | none => rfl
  | some kind =>
    have listed := symbols_second ([c, sep], kind) (TokenKind.mem_of_lookup found)
    have second := List.all_eq_true.mp listed sep
    exact absurd (decide_eq_true_iff.mp (second List.mem_cons_self)) other

lemma ends_of_blank (blank : isBlank sep = true) : Ends sep := by
  simp only [isBlank, Bool.or_eq_true, decide_eq_true_eq] at blank
  rcases blank with ((rfl | rfl) | rfl) | rfl <;>
    exact ⟨by decide, by decide, by decide, by decide, ofSymbol?_other (by decide)⟩

lemma ends_slash : Ends '/' :=
  ⟨by decide, by decide, by decide, by decide, ofSymbol?_other (by decide)⟩

lemma takeWhile_stop (h : p sep = false) (cs after : List Char) :
    (cs ++ sep :: after).takeWhile p = cs.takeWhile p :=
  (span_append cs (sep :: after) (.inr h)).1

lemma dropWhile_stop (h : p sep = false) (cs after : List Char) :
    (cs ++ sep :: after).dropWhile p = cs.dropWhile p ++ sep :: after :=
  (span_append cs (sep :: after) (.inr h)).2

lemma startsWith_stop (h : p sep = false) (cs after : List Char) :
    startsWith p (cs ++ sep :: after) = startsWith p cs := by
  cases cs with
  | nil => exact h
  | cons c cs => rfl

/-- The text after the first piece is shorter. -/
lemma first_shorter (c : Char) (rest : List Char) : (first c rest).2.length ≤ rest.length := by
  obtain ⟨-, some, split⟩ := first_splits c rest
  have lengths := congrArg List.length split
  have positive := List.length_pos_iff.mpr some
  simp only [List.length_append, List.length_cons] at lengths
  omega

/-- A piece and what follows it, with more behind. -/
def farther (more : List Char) (found : Piece × List Char) : Piece × List Char :=
  (found.1, found.2 ++ more)

lemma single_more (c : Char) (rest more : List Char) :
    single c (rest ++ more) = farther more (single c rest) := by
  unfold single
  split <;> rfl

lemma symbol_then (ends : Ends sep) (c : Char) (rest after : List Char) :
    symbol c (rest ++ sep :: after) = farther (sep :: after) (symbol c rest) := by
  cases rest with
  | nil =>
    simp only [List.nil_append, symbol, ends.symbol]
    exact single_more c [] (sep :: after)
  | cons d rest =>
    simp only [List.cons_append, symbol]
    split
    · rfl
    · exact single_more c (d :: rest) (sep :: after)

lemma word_then (ends : Ends sep) (rest after : List Char) :
    word (rest ++ sep :: after) = farther (sep :: after) (word rest) := by
  simp only [word, takeWhile_stop ends.word, dropWhile_stop ends.word, farther]

lemma octal_then (ends : Ends sep) (rest after : List Char) :
    octal (rest ++ sep :: after) = farther (sep :: after) (octal rest) := by
  simp only [octal, takeWhile_stop ends.octal, dropWhile_stop ends.octal, farther]

lemma number_then (ends : Ends sep) (rest after : List Char) :
    number (rest ++ sep :: after) = farther (sep :: after) (number rest) := by
  have stops := ends.digit
  simp only [number, takeWhile_stop stops, dropWhile_stop stops]
  cases rest.dropWhile isDigit with
  | nil => simp [ends.point, farther]
  | cons d others =>
    by_cases point : d = '.'
    · subst point
      simp only [List.cons_append, startsWith_stop stops, takeWhile_stop stops,
        dropWhile_stop stops]
      split <;> rfl
    · simp [point, farther]

/-- A comment ends where its line ends. -/
lemma comment_then (rest after : List Char) (ends : sep ≠ '\n' → (comment rest).2 ≠ []) :
    comment (rest ++ sep :: after) = farther (sep :: after) (comment rest) := by
  have stops : rest.dropWhile (· ≠ '\n') ≠ [] ∨ startsWith (· ≠ '\n') (sep :: after) = false := by
    by_cases newline : sep = '\n'
    · right
      simp [startsWith, newline]
    · left
      exact ends newline
  obtain ⟨taken, dropped⟩ := span_append rest (sep :: after) stops
  simp only [comment, taken, dropped, farther]

/-- A string that is closed does not see what stands behind it. -/
lemma string_more (rest more : List Char)
    (closed : (string rest).1.sort ≠ .mistake .unclosedString) :
    string (rest ++ more) = farther more (string rest) := by
  cases found : rest.dropWhile (· ≠ '\x22') with
  | nil =>
    simp only [string, found] at closed
    exact absurd rfl closed
  | cons q others =>
    obtain ⟨taken, dropped⟩ := span_append rest more (p := (· ≠ '\x22'))
      (.inl (by rw [found]; exact List.cons_ne_nil q others))
    simp only [string, taken, dropped, found, List.cons_append, farther]

/-- No piece reaches over a character that ends all but strings and comments, if it is a string that
is closed or a comment with a line end behind it. A slash may not become the first of two. -/
lemma first_then (ends : Ends sep) (c : Char) (rest after : List Char)
    (closed : (first c rest).1.sort ≠ .mistake .unclosedString)
    (line : sep ≠ '\n' → (first c rest).1.sort = .comment → (first c rest).2 ≠ [])
    (apart : sep = '/' → c = '/' → rest ≠ []) :
    first c (rest ++ sep :: after) = farther (sep :: after) (first c rest) := by
  have slash : (decide (c = '/') && startsWith (· = '/') (rest ++ sep :: after)) =
      (decide (c = '/') && startsWith (· = '/') rest) := by
    cases rest with
    | cons d rest => rfl
    | nil =>
      by_cases here : c = '/'
      · have other : sep ≠ '/' := fun same => apart same here rfl
        simp [startsWith, other]
      · simp [here]
  unfold first at closed line ⊢
  rw [slash, startsWith_stop ends.octal]
  split_ifs at closed line ⊢ with blank slashes quote digit mark letter
  · rfl
  · simp only [Bool.and_eq_true] at slashes
    obtain ⟨d, others, rfl, -⟩ := startsWith_split slashes.2
    exact comment_then others after fun other => line other rfl
  · exact string_more rest (sep :: after) closed
  · exact number_then ends (c :: rest) after
  · exact octal_then ends rest after
  · exact word_then ends (c :: rest) after
  · exact symbol_then ends c rest after

/-- More fuel than characters changes nothing. -/
lemma cut_enough {n m : Nat} {cs : List Char} (hn : cs.length ≤ n) (hm : cs.length ≤ m) :
    cut n cs = cut m cs := by
  induction n generalizing m cs with
  | zero =>
    obtain rfl := List.length_eq_zero_iff.mp (Nat.le_zero.mp hn)
    cases m <;> rfl
  | succ n ih =>
    cases cs with
    | nil => cases m <;> rfl
    | cons c rest =>
      cases m with
      | zero => cases hm
      | succ m =>
        have shorter := first_shorter c rest
        simp only [List.length_cons] at hn hm
        simp only [cut]
        rw [ih (Nat.le_trans shorter (Nat.le_of_succ_le_succ hn))
          (Nat.le_trans shorter (Nat.le_of_succ_le_succ hm))]

lemma ofText_cons (c : Char) (rest : List Char) :
    ofText (c :: rest) = (first c rest).1 :: ofText (first c rest).2 := by
  have shorter := first_shorter c rest
  simp only [ofText, List.length_cons, cut]
  rw [cut_enough shorter (Nat.le_refl _)]

/-- Where the last piece of a text is not joined with what follows, the pieces of the text come
before those of what follows. -/
lemma ofText_then (ends : Ends sep) (cs after : List Char)
    (closed : ∀ piece ∈ ofText cs, piece.sort ≠ .mistake .unclosedString)
    (line : sep ≠ '\n' → ∀ piece, (ofText cs).getLast? = some piece → piece.sort ≠ .comment)
    (apart : sep = '/' → ∀ piece, (ofText cs).getLast? = some piece → piece.text ≠ ['/']) :
    ofText (cs ++ sep :: after) = ofText cs ++ ofText (sep :: after) := by
  induction hn : cs.length using Nat.strongRecOn generalizing cs with
  | _ n ih =>
    cases cs with
    | nil => rfl
    | cons c rest =>
      have shorter := first_shorter c rest
      obtain ⟨-, -, split⟩ := first_splits c rest
      rw [ofText_cons] at closed line apart ⊢
      simp only [List.mem_cons, forall_eq_or_imp] at closed
      have alone : (first c rest).2 = [] → ((first c rest).1 :: ofText (first c rest).2).getLast? =
          some (first c rest).1 := by
        intro nothing
        rw [nothing]
        rfl
      have later : ∀ piece, (ofText (first c rest).2).getLast? = some piece →
          ((first c rest).1 :: ofText (first c rest).2).getLast? = some piece := by
        intro piece last
        rw [List.getLast?_cons, last]
        rfl
      have here : first c (rest ++ sep :: after) = farther (sep :: after) (first c rest) := by
        refine first_then ends c rest after closed.1 ?_ ?_
        · intro other comment nothing
          exact line other _ (alone nothing) comment
        · rintro slash rfl rfl
          exact apart slash _ (alone rfl) rfl
      rw [List.cons_append, ofText_cons, here, List.cons_append]
      refine congrArg (List.cons _) (ih _ ?_ _ closed.2 ?_ ?_ rfl)
      · simp only [List.length_cons] at hn
        omega
      · exact fun other piece last => line other piece (later piece last)
      · exact fun slash piece last => apart slash piece (later piece last)

/-- No piece reaches over a newline after a text that closes its strings. -/
lemma ofText_newline (cs after : List Char)
    (closed : ∀ piece ∈ ofText cs, piece.sort ≠ .mistake .unclosedString) :
    ofText (cs ++ '\n' :: after) = ofText cs ++ ⟨.blank, ['\n']⟩ :: ofText after := by
  have newline : ofText ('\n' :: after) = ⟨.blank, ['\n']⟩ :: ofText after := ofText_cons '\n' after
  rw [← newline]
  refine ofText_then (ends_of_blank rfl) cs after closed ?_ ?_
  · intro other
    exact absurd rfl other
  · intro slash
    exact absurd slash (by decide)

end Piece

namespace Position

/-- A point, moved behind so many bytes, which end so many lines. -/
def moved (bytes lines : Nat) (p : Position) : Position :=
  ⟨p.offset + bytes, p.line + lines⟩

lemma after_moved (bytes lines : Nat) (p : Position) (cs : List Char) :
    (p.moved bytes lines).after cs = (p.after cs).moved bytes lines := by
  simp only [Position.after, moved, Nat.add_right_comm]

lemma spanTo_moved (bytes lines : Nat) (p q : Position) :
    (p.moved bytes lines).spanTo (q.moved bytes lines) =
      (Relocation.behind bytes lines).span (p.spanTo q) := by
  simp only [Position.spanTo, moved, Relocation.behind, Nat.add_sub_add_right]

end Position

namespace Scan

lemma scanned?_moved (bytes lines : Nat) (piece : Piece) (p q : Position) :
    piece.scanned? (p.moved bytes lines) (q.moved bytes lines) =
      moved (.behind bytes lines) (piece.scanned? p q) := by
  obtain ⟨sort, text⟩ := piece
  cases sort with
  | blank | comment => rfl
  | token | mistake =>
    simp only [Piece.scanned?, Position.spanTo_moved]
    rfl

lemma locate_moved (bytes lines : Nat) (pieces : List Piece) (p : Position) :
    locate (p.moved bytes lines) pieces = moved (.behind bytes lines) (locate p pieces) := by
  induction pieces generalizing p with
  | nil => rfl
  | cons piece pieces ih =>
    simp only [locate, Position.after_moved, scanned?_moved, ih]
    cases piece.scanned? p (p.after piece.text) <;> rfl

/-- What is found in some pieces comes before what is found in those that follow. -/
lemma locate_append (p : Position) (pieces others : List Piece) :
    ∃ found q, q = p.after (pieces.map Piece.text).flatten ∧
      locate p pieces = found ++ [.ok (Token.atEnd q)] ∧
      locate p (pieces ++ others) = found ++ locate q others := by
  induction pieces generalizing p with
  | nil => exact ⟨[], p, by simp [Position.after, utf8Length], rfl, rfl⟩
  | cons piece pieces ih =>
    obtain ⟨found, q, hq, same, same'⟩ := ih (p.after piece.text)
    rw [after_after, ← List.flatten_cons, ← List.map_cons] at hq
    simp only [List.cons_append, locate, same, same']
    cases piece.scanned? p (p.after piece.text) with
    | none => exact ⟨found, q, hq, rfl, rfl⟩
    | some item => exact ⟨item :: found, q, hq, rfl, rfl⟩

lemma tokens_moved (m : Relocation) (scan : List Scanned) :
    tokens (moved m scan) = moved m (tokens scan) := by
  induction scan with
  | nil => rfl
  | cons item scan ih =>
    cases item with
    | ok t => exact congrArg (List.cons (moved m t)) ih
    | error e => exact ih

lemma errors_moved (m : Relocation) (scan : List Scanned) :
    errors (moved m scan) = moved m (errors scan) := by
  induction scan with
  | nil => rfl
  | cons item scan ih =>
    cases item with
    | ok t => exact ih
    | error e => exact congrArg (List.cons (moved m e)) ih

/-- Without lexical mistakes, no piece is a mistake. -/
lemma sort_of_errors_nil {p : Position} {pieces : List Piece}
    (none : errors (locate p pieces) = []) :
    ∀ piece ∈ pieces, ∀ cause, piece.sort ≠ .mistake cause := by
  induction pieces generalizing p with
  | nil => exact List.forall_mem_nil _
  | cons piece pieces ih =>
    obtain ⟨sort, text⟩ := piece
    simp only [List.mem_cons, forall_eq_or_imp]
    cases sort with
    | blank | comment => exact ⟨nofun, ih none⟩
    | token kind literal => exact ⟨nofun, ih none⟩
    | mistake cause => cases none

lemma locate_errors_nil (p : Position) {pieces : List Piece}
    (h : ∀ piece ∈ pieces, ∀ cause, piece.sort ≠ .mistake cause) :
    errors (locate p pieces) = [] := by
  induction pieces generalizing p with
  | nil => rfl
  | cons piece pieces ih =>
    simp only [List.mem_cons, forall_eq_or_imp] at h
    obtain ⟨sort, text⟩ := piece
    cases sort with
    | blank | comment | token => exact ih _ h.2
    | mistake cause => exact absurd rfl (h.1 cause)

/-- How a text moves what stands on the lines after it. -/
def movedBehind (text : List Char) : Relocation :=
  .behind (utf8Length text + 1) (text.count '\n' + 1)

/-- The scan of two texts, of which the first has no lexical mistakes. -/
lemma items_newline (first second : List Char) (none : errors (items first) = []) :
    ∃ found q, items first = found ++ [.ok (Token.atEnd q)] ∧
      items (first ++ '\n' :: second) = found ++ moved (movedBehind first) (items second) := by
  have closed : ∀ piece ∈ Piece.ofText first, piece.sort ≠ .mistake .unclosedString :=
    fun piece within => sort_of_errors_nil none piece within _
  obtain ⟨found, q, hq, same, same'⟩ :=
    locate_append .start (Piece.ofText first) (⟨.blank, ['\n']⟩ :: Piece.ofText second)
  refine ⟨found, q, same, ?_⟩
  rw [items, Piece.ofText_newline first second closed, same']
  have newline : q.after ['\n'] = Position.start.moved (utf8Length first + 1)
      (first.count '\n' + 1) := by
    have one : '\n'.utf8Size = 1 := rfl
    rw [hq, (Piece.ofText_splits first).2]
    simp [Position.after, Position.start, Position.moved, utf8Length, one, Nat.add_assoc]
  have here : locate q (⟨.blank, ['\n']⟩ :: Piece.ofText second) =
      locate (q.after ['\n']) (Piece.ofText second) := rfl
  rw [here, newline, locate_moved]
  rfl

/-- The tokens and the mistakes of a text come after the tokens of a text above it that has no
lexical mistakes. -/
lemma tokens_newline (first second : List Char) (none : errors (items first) = []) :
    ∃ ts q, tokens (items first) = ts ++ [Token.atEnd q] ∧
      tokens (items (first ++ '\n' :: second)) =
        ts ++ moved (movedBehind first) (tokens (items second)) ∧
      errors (items (first ++ '\n' :: second)) =
        moved (movedBehind first) (errors (items second)) := by
  obtain ⟨found, q, alone, joined⟩ := items_newline first second none
  have errors_found : errors found = [] := by
    rw [alone, errors, List.filterMap_append] at none
    exact (List.append_eq_nil_iff.mp none).1
  refine ⟨tokens found, q, ?_, ?_, ?_⟩
  · rw [alone, tokens, List.filterMap_append]
    rfl
  · rw [joined, ← tokens_moved]
    exact List.filterMap_append
  · rw [joined, ← errors_moved]
    have apart : errors (found ++ moved (movedBehind first) (items second)) =
        errors found ++ errors (moved (movedBehind first) (items second)) := List.filterMap_append
    rw [apart, errors_found, List.nil_append]

end Scan

end Lox
