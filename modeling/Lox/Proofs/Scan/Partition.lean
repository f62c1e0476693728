import Lox.Proofs.Scan.Joined
import Lox.Proofs.Scan.Literals
import Mathlib.Data.List.Pairwise

/-!
A scan loses nothing. Put in the order of the text, its tokens and its mistakes cut the text into
parts that do not overlap, and between the parts there are blanks and comments only.
-/

namespace Lox

/-- Blanks and comments that stand before the text `rest`. A comment runs to a newline, which is not
part of it, or to the end of the text. -/
inductive Trivia (rest : List Char) : List Char → Prop
  | nil : Trivia rest []
  | blank {c : Char} {cs : List Char} :
    c = ' ' ∨ c = '\t' ∨ c = '\r' ∨ c = '\n' → Trivia rest cs → Trivia rest (c :: cs)
  | comment {body cs : List Char} :
    '\n' ∉ body → (cs ++ rest = [] ∨ ∃ more, cs ++ rest = '\n' :: more) → Trivia rest cs →
    Trivia rest ('/' :: '/' :: body ++ cs)

/-- The part of the text in which something was found. -/
def Scanned.span : Scanned → Span
  | .ok t => t.span
  | .error e => e.span

/-- Whether a string was found that is not closed. -/
def Scanned.isUnclosed : Scanned → Bool
  | .error ⟨.unclosedString, _, _⟩ => true
  | _ => false

open Numeral (isDigit)

namespace Piece

/-- No text that begins with this character begins with a token, a blank or a comment. -/
def Stray (c : Char) : Prop :=
  ∀ rest, (first c rest).1.sort = .mistake (.strayCharacter c)

/-- What a piece is that is no token, and what may come after it. -/
def Told (piece : Piece) (after : List Char) : Prop :=
  match piece.sort with
  | .blank => ∃ c, isBlank c = true ∧ piece.text = [c]
  | .comment => ∃ body, piece.text = '/' :: '/' :: body ∧ '\n' ∉ body ∧
      (after = [] ∨ ∃ more, after = '\n' :: more)
  | .token _ _ => True
  | .mistake (.strayCharacter c) => piece.text = [c] ∧ Stray c
  | .mistake .unclosedString => ∃ body, piece.text = '\x22' :: body ∧ '\x22' ∉ body ∧ after = []

lemma not_mem_takeWhile (stop : Char) (cs : List Char) : stop ∉ cs.takeWhile (· ≠ stop) := by
  intro within
  simpa using all_takeWhile cs stop within

lemma comment_told (rest : List Char) : Told (comment rest).1 (comment rest).2 := by
  refine ⟨_, rfl, not_mem_takeWhile '\n' rest, ?_⟩
  have stops := List.head?_dropWhile_not (· ≠ '\n') rest
  change rest.dropWhile (· ≠ '\n') = [] ∨ ∃ more, rest.dropWhile (· ≠ '\n') = '\n' :: more
  cases found : rest.dropWhile (· ≠ '\n') with
  | nil => exact .inl rfl
  | cons c more =>
    rw [found] at stops
    obtain rfl : c = '\n' := by simpa using stops
    exact .inr ⟨more, rfl⟩

lemma string_told (rest : List Char) : Told (string rest).1 (string rest).2 := by
  unfold string
  split
  · exact ⟨_, rfl, not_mem_takeWhile '\x22' rest, rfl⟩
  · trivial

lemma number_told (cs : List Char) : Told (number cs).1 (number cs).2 := by
  simp only [number]
  split
  · split <;> trivial
  · trivial

lemma symbols_begin : ∀ entry ∈ TokenKind.symbols,
    (entry.1.head?.bind fun c => TokenKind.ofSymbol? [c]).isSome = true := by
  decide

/-- A character that is no symbol alone is none together with another one. -/
lemma ofSymbol?_pair {c : Char} (alone : TokenKind.ofSymbol? [c] = none) (d : Char) :
    TokenKind.ofSymbol? [c, d] = none := by
  cases found : TokenKind.ofSymbol? [c, d] with
  | none => rfl
  | some kind =>
    have begins := symbols_begin ([c, d], kind) (TokenKind.mem_of_lookup found)
    simp [alone] at begins

lemma single_stray {c : Char} (alone : TokenKind.ofSymbol? [c] = none) (rest : List Char) :
    single c rest = (⟨.mistake (.strayCharacter c), [c]⟩, rest) := by
  simp only [single, alone]

lemma stray_of_none {c : Char} (blank : isBlank c = false) (quote : c ≠ '\x22')
    (digit : isDigit c = false) (letter : startsWord c = false)
    (alone : TokenKind.ofSymbol? [c] = none) : Stray c := by
  intro rest
  have slash : c ≠ '/' := by
    rintro rfl
    exact absurd alone (by decide)
  have mark : c ≠ 'o' := by
    rintro rfl
    exact absurd letter (by decide)
  have symbolic : first c rest = symbol c rest := by
    simp [first, blank, slash, quote, digit, mark, letter]
  rw [symbolic]
  cases rest with
  | nil => rw [symbol, single_stray alone]
  | cons d rest => simp only [symbol, ofSymbol?_pair alone d, single_stray alone]

lemma symbol_told {c : Char} (stray : TokenKind.ofSymbol? [c] = none → Stray c)
    (rest : List Char) : Told (symbol c rest).1 (symbol c rest).2 := by
  have one (rest : List Char) : Told (single c rest).1 (single c rest).2 := by
    cases alone : TokenKind.ofSymbol? [c] with
    | none =>
      rw [single_stray alone]
      exact ⟨rfl, stray alone⟩
    | some kind =>
      simp only [single, alone]
      trivial
  unfold symbol
  split
  · exact one []
  · split
    · trivial
    · exact one _

lemma first_told (c : Char) (rest : List Char) : Told (first c rest).1 (first c rest).2 := by
  unfold first
  split_ifs with blank slashes quote digit mark letter
  · exact ⟨c, blank, rfl⟩
  · exact comment_told rest.tail
  · exact string_told rest
  · exact number_told (c :: rest)
  · trivial
  · trivial
  · exact symbol_told (stray_of_none (Bool.eq_false_iff.mpr blank) quote
      (Bool.eq_false_iff.mpr digit) (Bool.eq_false_iff.mpr letter)) rest

/-- Each piece is the first one of what was left of the text. -/
lemma mem_ofText {cs : List Char} {piece : Piece} (h : piece ∈ ofText cs) :
    ∃ c rest, piece = (first c rest).1 := by
  induction hn : cs.length using Nat.strongRecOn generalizing cs with
  | _ n ih =>
    cases cs with
    | nil => cases h
    | cons c rest =>
      rw [ofText_cons] at h
      rcases List.mem_cons.mp h with rfl | within
      · exact ⟨c, rest, rfl⟩
      · have shorter := first_shorter c rest
        simp only [List.length_cons] at hn
        exact ih _ (by omega) within rfl

end Piece

lemma Trivia.not_stray {rest cs : List Char} {c : Char} (stray : Piece.Stray c) :
    ¬Trivia rest (c :: cs) := by
  have here := stray []
  intro trivia
  cases trivia with
  | blank separates _ =>
    have blank : Piece.isBlank c = true := by simpa [Piece.isBlank, or_assoc] using separates
    simp only [Piece.first, blank, if_true] at here
    cases here
  | comment _ _ _ => cases here

lemma utf8Length_pos {cs : List Char} (h : cs ≠ []) : 0 < utf8Length cs := by
  obtain ⟨c, rest, rfl⟩ := List.exists_cons_of_ne_nil h
  rw [utf8Length_cons]
  have := c.utf8Size_pos
  omega

namespace Scan

/-- A token is a piece of the text, or the one at its end. -/
lemma mem_tokens_locate {p : Position} {pieces : List Piece} {t : Token}
    (h : t ∈ tokens (locate p pieces)) :
    (∃ q, t = Token.atEnd q) ∨ ∃ piece ∈ pieces, t.lexeme = String.ofList piece.text ∧
      piece.sort = .token t.kind t.literal := by
  induction pieces generalizing p with
  | nil => exact .inl ⟨p, List.mem_singleton.mp h⟩
  | cons piece pieces ih =>
    have found : t ∈ tokens (locate (p.after piece.text) pieces) ∨
        t.lexeme = String.ofList piece.text ∧ piece.sort = .token t.kind t.literal := by
      obtain ⟨sort, text⟩ := piece
      cases sort with
      | blank | comment | mistake => exact .inl h
      | token kind literal =>
        rcases List.mem_cons.mp h with rfl | within
        · exact .inr ⟨rfl, rfl⟩
        · exact .inl within
    rcases found with within | here
    · rcases ih within with ends | ⟨other, there, written⟩
      · exact .inl ends
      · exact .inr ⟨other, List.mem_cons_of_mem _ there, written⟩
    · exact .inr ⟨piece, List.mem_cons_self, here⟩

/-- No token begins with a stray character. -/
lemma head?_ne_stray {c : Char} (stray : Piece.Stray c) {text : List Char} {t : Token}
    (h : t ∈ tokens (items text)) : t.lexeme.toList.head? ≠ some c := by
  intro begins
  rcases mem_tokens_locate h with ⟨q, rfl⟩ | ⟨piece, within, lexeme, sort⟩
  · cases begins
  · obtain ⟨d, rest, rfl⟩ := Piece.mem_ofText within
    obtain ⟨-, some, split⟩ := Piece.first_splits d rest
    obtain ⟨e, others, found⟩ := List.exists_cons_of_ne_nil some
    rw [lexeme, String.toList_ofList, found] at begins
    rw [found] at split
    obtain rfl : e = c := Option.some.inj begins
    obtain rfl : e = d := (List.cons.inj split).1
    rw [stray rest] at sort
    cases sort

/-- What is found in a part of a text, where `rest` comes after the part. -/
def Found (part rest : List Char) : Scanned → Prop
  | .ok t => t.kind ≠ .eof
  | .error ⟨.strayCharacter c, _, _⟩ => part = [c] ∧ Piece.Stray c
  | .error ⟨.unclosedString, _, _⟩ => ∃ body, part = '\x22' :: body ∧ '\x22' ∉ body ∧ rest = []

/-- In the text `rest`, which stands after the text `before`, the items come one after the other,
each after some blanks and comments. -/
inductive Tiles : List Char → List Char → List Scanned → Prop
  | done {before gap : List Char} :
    Trivia [] gap → Tiles before gap [.ok (Token.atEnd (Position.start.after (before ++ gap)))]
  | item {before gap part rest : List Char} {item : Scanned} {items : List Scanned} :
    Trivia (part ++ rest) gap → part ≠ [] → Found part rest item →
    item.span = ⟨utf8Length (before ++ gap), utf8Length part⟩ →
    Tiles (before ++ gap ++ part) rest items → Tiles before (gap ++ (part ++ rest)) (item :: items)

namespace Tiles

variable {before rest : List Char} {items : List Scanned}

/-- Blanks and a comment before the first item belong to the gap before it. -/
lemma blank {c : Char} (separates : Piece.isBlank c = true)
    (h : Tiles (before ++ [c]) rest items) : Tiles before (c :: rest) items := by
  have separates : c = ' ' ∨ c = '\t' ∨ c = '\r' ∨ c = '\n' := by
    simpa [Piece.isBlank, or_assoc] using separates
  cases h with
  | done trivia =>
    rw [List.append_assoc]
    exact .done (.blank separates trivia)
  | item trivia some found place others =>
    rw [List.append_assoc before] at place others
    exact .item (.blank separates trivia) some found place others

lemma comment {body : List Char} (line : '\n' ∉ body)
    (ends : rest = [] ∨ ∃ more, rest = '\n' :: more)
    (h : Tiles (before ++ '/' :: '/' :: body) rest items) :
    Tiles before ('/' :: '/' :: body ++ rest) items := by
  cases h with
  | done trivia =>
    rw [List.append_assoc]
    exact .done (.comment line (by simpa using ends) trivia)
  | item trivia some found place others =>
    rw [List.append_assoc before] at place others
    rw [← List.append_assoc]
    exact .item (.comment line ends trivia) some found place others

/-- The first item may come at once. -/
lemma here {part : List Char} {item : Scanned} (some : part ≠ []) (found : Found part rest item)
    (place : item.span = ⟨utf8Length before, utf8Length part⟩)
    (others : Tiles (before ++ part) rest items) :
    Tiles before (part ++ rest) (item :: items) := by
  refine .item .nil some found ?_ ?_
  · rwa [List.append_nil]
  · rwa [List.append_nil]

end Tiles

lemma locate_tiles (before rest : List Char) :
    Tiles before rest (locate (Position.start.after before) (Piece.ofText rest)) := by
  induction hn : rest.length using Nat.strongRecOn generalizing before rest with
  | _ n ih =>
    cases rest with
    | nil =>
      have ends : Tiles before [] [.ok (Token.atEnd (Position.start.after (before ++ [])))] :=
        .done .nil
      rwa [List.append_nil] at ends
    | cons c rest =>
      have shorter := Piece.first_shorter c rest
      have told := Piece.first_told c rest
      obtain ⟨written, some, split⟩ := Piece.first_splits c rest
      rw [Piece.ofText_cons]
      generalize Piece.first c rest = found at *
      obtain ⟨⟨sort, part⟩, after⟩ := found
      simp only at written some split shorter
      simp only [List.length_cons] at hn
      have others := ih after.length (by omega) (before ++ part) after rfl
      rw [← after_after] at others
      have place : (Position.start.after before).spanTo
          ((Position.start.after before).after part) =
          ⟨utf8Length before, utf8Length part⟩ := by
        simp [Position.spanTo, Position.after, Position.start]
      rw [← split]
      cases sort with
      | blank =>
        obtain ⟨d, separates, rfl⟩ := told
        exact others.blank separates
      | comment =>
        obtain ⟨body, rfl, line, ends⟩ := told
        exact others.comment line ends
      | token kind literal => exact others.here some written.1 place
      | mistake cause =>
        refine others.here some ?_ place
        cases cause <;> exact told

namespace Tiles

variable {before rest : List Char} {items : List Scanned}

/-- No item begins before the text in which it is found. -/
lemma start_le (h : Tiles before rest items) :
    ∀ item ∈ items, utf8Length before ≤ item.span.start := by
  induction h with
  | done =>
    simp only [List.mem_singleton, forall_eq]
    simp [Scanned.span, Token.atEnd, Position.after, Position.start, utf8Length_append]
  | @item before gap part rest item items _ _ _ place _ ih =>
    simp only [List.mem_cons, forall_eq_or_imp]
    constructor
    · rw [place]
      simp [utf8Length_append]
    · intro other within
      have behind := ih other within
      simp only [utf8Length_append] at behind
      omega

lemma increasing (h : Tiles before rest items) :
    items.Pairwise fun a b => a.span.start < b.span.start ∧ a.span.stop ≤ b.span.start := by
  induction h with
  | done => exact List.pairwise_singleton _ _
  | @item before gap part rest item items _ some _ place others ih =>
    refine List.pairwise_cons.mpr ⟨fun other within => ?_, ih⟩
    have behind := others.start_le other within
    have positive := utf8Length_pos some
    simp only [utf8Length_append] at behind place
    rw [place, Span.stop]
    simp only
    omega

/-- Each item is found in a part of the text; only the end of the text is found in no characters. -/
lemma found (h : Tiles before rest items) : ∀ item ∈ items, ∃ upto part after,
    before ++ rest = upto ++ part ++ after ∧ item.span = ⟨utf8Length upto, utf8Length part⟩ ∧
      (item = .ok (Token.atEnd (Position.start.after (before ++ rest))) ∨
        part ≠ [] ∧ Found part after item) := by
  induction h with
  | @done before gap =>
    simp only [List.mem_singleton, forall_eq]
    refine ⟨before ++ gap, [], [], by simp, ?_, .inl trivial⟩
    simp [Scanned.span, Token.atEnd, Position.after, Position.start, utf8Length]
  | @item before gap part rest item items _ some here place _ ih =>
    simp only [List.mem_cons, forall_eq_or_imp]
    constructor
    · exact ⟨before ++ gap, part, rest, by simp, place, .inr ⟨some, here⟩⟩
    · simpa using ih

/-- The last item is the end of the text, and no other one is. -/
lemma ends (h : Tiles before rest items) : ∃ others,
    items = others ++ [.ok (Token.atEnd (Position.start.after (before ++ rest)))] ∧
      ∀ item ∈ others, 0 < item.span.length ∧ ∀ t, item = .ok t → t.kind ≠ .eof := by
  induction h with
  | done => exact ⟨[], rfl, List.forall_mem_nil _⟩
  | @item before gap part rest item items _ some here place _ ih =>
    obtain ⟨others, same, proper⟩ := ih
    refine ⟨item :: others, by simp [same], ?_⟩
    simp only [List.mem_cons, forall_eq_or_imp]
    refine ⟨⟨?_, ?_⟩, proper⟩
    · rw [place]
      exact utf8Length_pos some
    · rintro t rfl
      exact here

/-- Between an item and the one before it there are blanks and comments only. -/
lemma gap (h : Tiles before rest items) {done : List Scanned} {item : Scanned}
    {others : List Scanned} (split : items = done ++ item :: others) : ∃ upto gap after,
    before ++ rest = upto ++ gap ++ after ∧
      utf8Length upto = (done.getLast?.map (·.span.stop)).getD (utf8Length before) ∧
      item.span.start = utf8Length (upto ++ gap) ∧ Trivia after gap := by
  induction h generalizing done with
  | @done before gap trivia =>
    cases done with
    | nil =>
      obtain ⟨rfl, -⟩ := List.cons.inj split
      exact ⟨before, gap, [], by simp, rfl, by simp [Scanned.span, Token.atEnd, Position.after,
        Position.start], trivia⟩
    | cons d done => simp at split
  | @item before gap part rest first items trivia some here place _ ih =>
    cases done with
    | nil =>
      obtain ⟨rfl, -⟩ := List.cons.inj split
      refine ⟨before, gap, part ++ rest, by simp, rfl, ?_, trivia⟩
      rw [place]
    | cons d done =>
      simp only [List.cons_append, List.cons.injEq] at split
      obtain ⟨rfl, split⟩ := split
      obtain ⟨upto, gap', after, whole, reached, start, trivia'⟩ := ih split
      refine ⟨upto, gap', after, by simpa using whole, ?_, start, trivia'⟩
      rw [reached]
      cases done with
      | nil => simp [place, Span.stop, utf8Length_append, Nat.add_assoc]
      | cons e done => simp [List.getLast?_cons]

lemma of_nil (h : Tiles before rest items) (nothing : rest = []) :
    ∃ q, items = [.ok (Token.atEnd q)] := by
  cases h with
  | done => exact ⟨_, rfl⟩
  | item _ some _ _ _ => simp [some] at nothing

/-- A string that is not closed is the last thing found. -/
lemma unclosed (h : Tiles before rest items) : items.countP Scanned.isUnclosed ≤ 1 := by
  induction h with
  | done => exact Nat.zero_le _
  | @item before gap part rest item items _ _ here _ others ih =>
    cases unclosed : item.isUnclosed with
    | false => rwa [List.countP_cons_of_neg (by simp [unclosed])]
    | true =>
      obtain ⟨cause, span, line⟩ | t := item
      · cases cause with
        | strayCharacter c => cases unclosed
        | unclosedString =>
          obtain ⟨body, -, -, nothing⟩ := here
          obtain ⟨q, rfl⟩ := others.of_nil nothing
          exact Nat.le_refl _
      · cases unclosed

end Tiles

/-- How items that are found in a text cut it up. -/
structure Partition (text : List Char) (items : List Scanned) : Prop where
  increasing : items.Pairwise fun a b => a.span.start < b.span.start ∧ a.span.stop ≤ b.span.start
  inside : ∀ item ∈ items, ∃ part, item.span.textIn? text = some part
  /-- The last item, and no other, is the end of the text, which takes no characters. -/
  ends : ∃ others q, items = others ++ [.ok (Token.atEnd q)] ∧ q.offset = utf8Length text ∧
    ∀ item ∈ others, 0 < item.span.length ∧ ∀ t, item = .ok t → t.kind ≠ .eof
  /-- Blanks and comments stand between each item and the end of the one before it. -/
  gaps : ∀ done item others, items = done ++ item :: others → ∃ upto gap after,
    text = upto ++ gap ++ after ∧ utf8Length upto = (done.getLast?.map (·.span.stop)).getD 0 ∧
      utf8Length (upto ++ gap) = item.span.start ∧ Trivia after gap
  /-- A stray character stands for itself and can begin nothing else, in no text. -/
  stray : ∀ c span line, .error ⟨.strayCharacter c, span, line⟩ ∈ items →
    span.textIn? text = some [c] ∧
      (∀ other, ∀ t ∈ tokens (Scan.items other), t.lexeme.toList.head? ≠ some c) ∧
      ∀ rest cs, ¬Trivia rest (c :: cs)
  /-- A string that is not closed takes all the rest of the text. -/
  unclosed : ∀ span line, .error ⟨.unclosedString, span, line⟩ ∈ items → ∃ upto body,
    text = upto ++ '\x22' :: body ∧ '\x22' ∉ body ∧
      span = ⟨utf8Length upto, utf8Length ('\x22' :: body)⟩
  once : items.countP Scanned.isUnclosed ≤ 1

lemma Tiles.partition {text : List Char} {items : List Scanned} (h : Tiles [] text items) :
    Partition text items where
  increasing := h.increasing
  inside item within := by
    obtain ⟨upto, part, after, whole, place, -⟩ := h.found item within
    exact ⟨part, Span.textIn?_eq_some.mpr ⟨upto, after, whole, place⟩⟩
  ends := by
    obtain ⟨others, same, proper⟩ := h.ends
    exact ⟨others, _, same, by simp [Position.after, Position.start], proper⟩
  gaps done item others split := by
    obtain ⟨upto, gap, after, whole, reached, start, trivia⟩ := h.gap split
    exact ⟨upto, gap, after, whole, reached, start.symm, trivia⟩
  stray c span line within := by
    obtain ⟨upto, part, after, whole, place, ends | ⟨-, rfl, stray⟩⟩ := h.found _ within
    · cases ends
    · refine ⟨Span.textIn?_eq_some.mpr ⟨upto, after, whole, place⟩, ?_, ?_⟩
      · exact fun other t found => head?_ne_stray stray found
      · exact fun rest cs => Trivia.not_stray stray
  unclosed span line within := by
    obtain ⟨upto, part, after, whole, place, ends | ⟨-, body, rfl, closed, rfl⟩⟩ :=
      h.found _ within
    · cases ends
    · exact ⟨upto, body, by simpa using whole, closed, place⟩
  once := h.unclosed

/-- What a scan finds are its tokens and its mistakes. -/
lemma perm_items (found : List Scanned) :
    found.Perm ((tokens found).map .ok ++ (errors found).map .error) := by
  induction found with
  | nil => exact .refl _
  | cons item found ih =>
    cases item with
    | ok t => exact ih.cons _
    | error e => exact (ih.cons _).trans List.perm_middle.symm

/-- In the order of their places, the tokens and mistakes of a scan cut the text into parts, between
which there are blanks and comments only; and there is one such order. -/
theorem items_partition (text : List Char) :
    Partition text (items text) ∧
    (items text).Perm ((tokens (items text)).map .ok ++ (errors (items text)).map .error) ∧
    ∀ merged : List Scanned,
      merged.Perm ((tokens (items text)).map .ok ++ (errors (items text)).map .error) →
      (merged.Pairwise fun a b => a.span.start ≤ b.span.start) → merged = items text := by
  have tiles : Tiles [] text (items text) := locate_tiles [] text
  refine ⟨tiles.partition, perm_items _, fun merged same sorted => ?_⟩
  have same := same.trans (perm_items (items text)).symm
  have order : (items text).Pairwise fun a b => a.span.start ≤ b.span.start :=
    tiles.increasing.imp fun h => Nat.le_of_lt h.1
  have apart : (items text).Pairwise fun a b => a.span.start ≠ b.span.start :=
    tiles.increasing.imp fun h => Nat.ne_of_lt h.1
  refine List.Perm.eq_of_pairwise (fun a b ha hb hab hba => ?_) sorted order same
  by_contra differ
  have symmetric : Std.Symm fun a b : Scanned => a.span.start ≠ b.span.start :=
    ⟨fun _ _ => Ne.symm⟩
  exact apart.forall (same.mem_iff.mp ha) hb differ (Nat.le_antisymm hab hba)

end Scan

end Lox
