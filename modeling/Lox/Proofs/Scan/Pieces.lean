import Lox.Token.Scan
import Mathlib.Tactic.Common

/-!
What the pieces of a text are written as, and that no character of the text is lost.
-/

namespace Lox

namespace TokenKind

/-- Neither the end nor a kind whose tokens carry a literal. -/
def Plain (kind : TokenKind) : Prop :=
  kind ≠ .eof ∧ kind ≠ .number ∧ kind ≠ .string

lemma mem_of_lookup {α β : Type} [BEq α] [LawfulBEq α] {k : α} {v : β} {table : List (α × β)}
    (h : table.lookup k = some v) : (k, v) ∈ table := by
  obtain ⟨before, after, rfl, -⟩ := List.lookup_eq_some_iff.mp h
  exact List.mem_append_right before List.mem_cons_self

lemma ofKeyword_plain {word : String} {kind : TokenKind} (h : ofKeyword? word = some kind) :
    kind.Plain := by
  have found := mem_of_lookup h
  refine ⟨?_, ?_, ?_⟩ <;> rintro rfl <;> simp [keywords] at found

lemma ofSymbol_plain {cs : List Char} {kind : TokenKind} (h : ofSymbol? cs = some kind) :
    kind.Plain := by
  have found := mem_of_lookup h
  refine ⟨?_, ?_, ?_⟩ <;> rintro rfl <;> simp [symbols] at found

end TokenKind

open Numeral (isDigit isOctalDigit)

/-- How a token of a kind with a literal is written. Only numbers and strings have a literal. -/
inductive Token.Written : TokenKind → Option Literal → List Char → Prop
  | string (body : List Char) : '\x22' ∉ body →
    Written .string (some (.string (String.ofList body))) ('\x22' :: body ++ ['\x22'])
  | whole (digits : List Char) : digits ≠ [] → (∀ c ∈ digits, isDigit c) →
    Written .number (some (.number (Numeral.decimal digits []))) digits
  | decimal (whole fraction : List Char) : whole ≠ [] → (∀ c ∈ whole, isDigit c) →
    fraction ≠ [] → (∀ c ∈ fraction, isDigit c) →
    Written .number (some (.number (Numeral.decimal whole fraction))) (whole ++ '.' :: fraction)
  | octal (digits : List Char) : digits ≠ [] → (∀ c ∈ digits, isOctalDigit c) →
    Written .number (some (.number (Numeral.octal digits))) ('o' :: digits)
  | plain {kind : TokenKind} (cs : List Char) : kind ≠ .number → kind ≠ .string →
    Written kind none cs

namespace Piece

/-- A piece that is a token is written as its kind and its literal say, and is not the end. -/
def Sort.Written (cs : List Char) : Piece.Sort → Prop
  | .token kind literal => kind ≠ .eof ∧ Token.Written kind literal cs
  | _ => True

/-- The first piece of a text: it is well written, and with what follows it makes up the text. -/
def Splits (cs : List Char) (found : Piece × List Char) : Prop :=
  found.1.sort.Written found.1.text ∧ found.1.text ≠ [] ∧ found.1.text ++ found.2 = cs

section

variable {c : Char} {rest : List Char} {p : Char → Bool}

lemma startsWith_split (h : startsWith p rest = true) :
    ∃ first others, rest = first :: others ∧ p first = true := by
  cases rest with
  | nil => cases h
  | cons first others => exact ⟨first, others, rfl, h⟩

lemma takeWhile_ne_nil (h : startsWith p rest = true) : rest.takeWhile p ≠ [] := by
  obtain ⟨first, others, rfl, hp⟩ := startsWith_split h
  rw [List.takeWhile_cons_of_pos hp]
  exact List.cons_ne_nil _ _

lemma all_takeWhile (cs : List Char) : ∀ c ∈ cs.takeWhile p, p c = true :=
  List.all_eq_true.mp List.all_takeWhile

lemma single_splits (c : Char) (rest : List Char) : Splits (c :: rest) (single c rest) := by
  unfold single
  split
  · next kind found =>
    obtain ⟨proper, number, string⟩ := TokenKind.ofSymbol_plain found
    exact ⟨⟨proper, .plain [c] number string⟩, List.cons_ne_nil _ _, rfl⟩
  · exact ⟨trivial, List.cons_ne_nil _ _, rfl⟩

lemma symbol_splits (c : Char) (rest : List Char) : Splits (c :: rest) (symbol c rest) := by
  unfold symbol
  split
  · exact single_splits c []
  · split
    · next kind found =>
      obtain ⟨proper, number, string⟩ := TokenKind.ofSymbol_plain found
      exact ⟨⟨proper, .plain _ number string⟩, List.cons_ne_nil _ _, rfl⟩
    · exact single_splits c _

lemma word_splits (h : startsWord c = true) : Splits (c :: rest) (word (c :: rest)) := by
  have plain : ((TokenKind.ofKeyword? (String.ofList
      ((c :: rest).takeWhile continuesWord))).getD .identifier).Plain := by
    cases found : TokenKind.ofKeyword? (String.ofList ((c :: rest).takeWhile continuesWord)) with
    | none => exact ⟨by simp, by simp, by simp⟩
    | some kind => exact TokenKind.ofKeyword_plain found
  have starts : startsWith continuesWord (c :: rest) = true := by
    simp [startsWith, continuesWord, h]
  exact ⟨⟨plain.1, .plain _ plain.2.1 plain.2.2⟩, takeWhile_ne_nil starts,
    List.takeWhile_append_dropWhile⟩

lemma octal_splits (h : startsWith isOctalDigit rest = true) :
    Splits ('o' :: rest) (octal rest) :=
  ⟨⟨by simp, .octal _ (takeWhile_ne_nil h) (all_takeWhile rest)⟩, List.cons_ne_nil _ _,
    congrArg (List.cons _) List.takeWhile_append_dropWhile⟩

lemma number_splits (h : startsWith isDigit rest = true) : Splits rest (number rest) := by
  have split := List.takeWhile_append_dropWhile (p := isDigit) (l := rest)
  have some := takeWhile_ne_nil h
  have plain : Splits rest (⟨.token .number (.some (.number
      (Numeral.decimal (rest.takeWhile isDigit) []))), rest.takeWhile isDigit⟩,
      rest.dropWhile isDigit) :=
    ⟨⟨by simp, .whole _ some (all_takeWhile rest)⟩, some, split⟩
  simp only [number]
  split
  · next after found =>
    split_ifs with digits
    · refine ⟨⟨by simp, .decimal _ _ some (all_takeWhile rest) (takeWhile_ne_nil digits)
        (all_takeWhile after)⟩, by simp, ?_⟩
      rw [found, ← List.takeWhile_append_dropWhile (p := isDigit) (l := after)] at split
      simpa using split
    · exact plain
  · exact plain

lemma string_splits (rest : List Char) : Splits ('\x22' :: rest) (string rest) := by
  have split := List.takeWhile_append_dropWhile (p := (· ≠ '\x22')) (l := rest)
  have body : '\x22' ∉ rest.takeWhile (· ≠ '\x22') := by
    intro within
    simpa using all_takeWhile rest _ within
  unfold string
  split
  · next found =>
    rw [found, List.append_nil] at split
    exact ⟨trivial, List.cons_ne_nil _ _, by simpa using split⟩
  · next q after found =>
    have ends := List.head?_dropWhile_not (· ≠ '\x22') rest
    rw [found] at ends split
    obtain rfl : q = '\x22' := by simpa using ends
    exact ⟨⟨by simp, .string _ body⟩, List.cons_ne_nil _ _, by simpa using split⟩

lemma comment_splits (rest : List Char) : Splits ('/' :: '/' :: rest) (comment rest) :=
  ⟨trivial, List.cons_ne_nil _ _,
    congrArg (List.cons _ <| List.cons _ ·) List.takeWhile_append_dropWhile⟩

end

lemma first_splits (c : Char) (rest : List Char) : Splits (c :: rest) (first c rest) := by
  unfold first
  split_ifs with blank slashes quote digit mark letter
  · exact ⟨trivial, List.cons_ne_nil _ _, rfl⟩
  · simp only [Bool.and_eq_true, decide_eq_true_eq] at slashes
    obtain ⟨rfl, second⟩ := slashes
    obtain ⟨d, others, rfl, hd⟩ := startsWith_split second
    obtain rfl : d = '/' := by simpa using hd
    exact comment_splits others
  · rw [quote]
    exact string_splits rest
  · have starts : startsWith isDigit (c :: rest) = true := digit
    exact number_splits starts
  · simp only [Bool.and_eq_true, decide_eq_true_eq] at mark
    rw [mark.1]
    exact octal_splits mark.2
  · exact word_splits letter
  · exact symbol_splits c rest

lemma cut_splits {n : Nat} {cs : List Char} (hn : cs.length ≤ n) :
    (∀ piece ∈ cut n cs, piece.sort.Written piece.text) ∧
      ((cut n cs).map Piece.text).flatten = cs := by
  induction n generalizing cs with
  | zero =>
    obtain rfl := List.length_eq_zero_iff.mp (Nat.le_zero.mp hn)
    simp [cut]
  | succ n ih =>
    cases cs with
    | nil => simp [cut]
    | cons c rest =>
      obtain ⟨written, some, split⟩ := first_splits c rest
      have shorter : (first c rest).2.length ≤ n := by
        have lengths := congrArg List.length split
        have positive := List.length_pos_iff.mpr some
        simp only [List.length_append, List.length_cons] at lengths hn
        omega
      obtain ⟨others, joined⟩ := ih shorter
      simp only [cut, List.mem_cons, forall_eq_or_imp, List.map_cons, List.flatten_cons, joined]
      exact ⟨⟨written, others⟩, split⟩

lemma ofText_splits (cs : List Char) : (∀ piece ∈ ofText cs, piece.sort.Written piece.text) ∧
    ((ofText cs).map Piece.text).flatten = cs :=
  cut_splits (Nat.le_refl _)

end Piece

namespace Scan

/-- The tokens of a scan end in one for the end of the text, and no other token is one. -/
lemma tokens_locate (p : Position) (pieces : List Piece)
    (h : ∀ piece ∈ pieces, piece.sort.Written piece.text) :
    ∃ ts q, tokens (locate p pieces) = ts ++ [Token.atEnd q] ∧ ∀ t ∈ ts, t.kind ≠ .eof := by
  induction pieces generalizing p with
  | nil => exact ⟨[], p, rfl, by simp⟩
  | cons piece pieces ih =>
    obtain ⟨ts, q, same, proper⟩ := ih (p.after piece.text) fun piece hp =>
      h piece (List.mem_cons_of_mem _ hp)
    have here := h piece List.mem_cons_self
    obtain ⟨sort, text⟩ := piece
    cases sort with
    | blank | comment => exact ⟨ts, q, same, proper⟩
    | mistake cause => exact ⟨ts, q, same, proper⟩
    | token kind literal =>
      refine ⟨_ :: ts, q, congrArg (List.cons _) same, ?_⟩
      simp only [List.mem_cons, forall_eq_or_imp]
      exact ⟨here.1, proper⟩

lemma tokens_items (text : List Char) :
    ∃ ts q, tokens (items text) = ts ++ [Token.atEnd q] ∧ ∀ t ∈ ts, t.kind ≠ .eof :=
  tokens_locate _ _ (Piece.ofText_splits text).1

end Scan

end Lox
