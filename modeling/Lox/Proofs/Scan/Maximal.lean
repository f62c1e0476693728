import Lox.Proofs.Scan.Cut
import Lox.Proofs.Scan.Names
import Mathlib.Data.List.Basic

/-!
The tokens of a text are of the classes that the language has, and each is as long as its class
allows: with the character behind it, it would be no token of the class, and no longer symbol stands
at the place of a symbol.
-/

namespace Lox

open Numeral (isDigit isOctalDigit)
open Piece (startsWith continuesWord)

/-- What a token is made of, where `after` is the text behind it. -/
inductive Token.Maximal (after : List Char) : TokenKind → Option Literal → List Char → Prop
  /-- A word has the kind that the table of reserved words gives it, or else is an identifier. -/
  | word {kind : TokenKind} {cs : List Char} :
    IsWord (String.ofList cs) → (∀ d rest, cs = 'o' :: d :: rest → isOctalDigit d = false) →
    startsWith continuesWord after = false →
    (kind = .identifier ∧ (∀ reserved, (String.ofList cs, reserved) ∉ TokenKind.keywords) ∨
      (String.ofList cs, kind) ∈ TokenKind.keywords) →
    Maximal after kind none cs
  | octal {digits : List Char} :
    digits ≠ [] → (∀ c ∈ digits, isOctalDigit c) → startsWith isOctalDigit after = false →
    Maximal after .number (some (.number (Numeral.octal digits))) ('o' :: digits)
  | whole {digits : List Char} :
    digits ≠ [] → (∀ c ∈ digits, isDigit c) → startsWith isDigit after = false →
    (∀ rest, after = '.' :: rest → startsWith isDigit rest = false) →
    Maximal after .number (some (.number (Numeral.decimal digits []))) digits
  | decimal {whole fraction : List Char} :
    whole ≠ [] → (∀ c ∈ whole, isDigit c) → fraction ≠ [] → (∀ c ∈ fraction, isDigit c) →
    startsWith isDigit after = false →
    Maximal after .number (some (.number (Numeral.decimal whole fraction)))
      (whole ++ '.' :: fraction)
  | string {body : List Char} :
    '\x22' ∉ body →
    Maximal after .string (some (.string (String.ofList body))) ('\x22' :: body ++ ['\x22'])
  /-- A symbol is the longest that stands at its place, and two slashes are none. -/
  | symbol {kind : TokenKind} {cs : List Char} :
    (cs, kind) ∈ TokenKind.symbols →
    (∀ entry ∈ TokenKind.symbols, entry.1 <+: cs ++ after → entry.1.length ≤ cs.length) →
    (cs = ['/'] → startsWith (· = '/') after = false) →
    Maximal after kind none cs
  | ending : after = [] → Maximal after .eof none []

lemma TokenKind.symbols_length : ∀ entry ∈ symbols, entry.1.length ≤ 2 := by
  decide

namespace Piece

/-- A piece that is a token is of one of the classes, and as long as can be. -/
def Cut (found : Piece × List Char) : Prop :=
  ∀ kind literal, found.1.sort = .token kind literal →
    Token.Maximal found.2 kind literal found.1.text

section

variable {c : Char} {rest : List Char}

lemma startsWith_dropWhile (p : Char → Bool) (cs : List Char) :
    startsWith p (cs.dropWhile p) = false := by
  have stops := List.head?_dropWhile_not p cs
  cases found : cs.dropWhile p with
  | nil => rfl
  | cons d others => simpa [found, startsWith] using stops

lemma word_maximal (letter : startsWord c = true)
    (unmarked : ¬(c = 'o' && startsWith isOctalDigit rest) = true) : Cut (word (c :: rest)) := by
  have continues : continuesWord c = true := by simp [continuesWord, letter]
  intro kind literal sort
  rw [word] at sort ⊢
  cases sort
  refine .word ⟨?_, ?_⟩ ?_ (startsWith_dropWhile _ _) ?_
  · rw [String.toList_ofList, List.takeWhile_cons_of_pos continues]
    exact letter
  · rw [String.toList_ofList]
    exact all_takeWhile (c :: rest)
  · intro d others same
    rw [List.takeWhile_cons_of_pos continues] at same
    obtain ⟨rfl, second⟩ := List.cons.inj same
    refine Bool.eq_false_iff.mpr fun octal => unmarked ?_
    cases rest with
    | nil => cases second
    | cons e rest =>
      by_cases more : continuesWord e = true
      · rw [List.takeWhile_cons_of_pos more] at second
        obtain ⟨rfl, -⟩ := List.cons.inj second
        simpa [startsWith] using octal
      · rw [List.takeWhile_cons_of_neg more] at second
        cases second
  · cases reserved : TokenKind.ofKeyword? (String.ofList ((c :: rest).takeWhile continuesWord)) with
    | none =>
      refine .inl ⟨rfl, fun kind listed => ?_⟩
      have differs := List.lookup_eq_none_iff.mp reserved _ listed
      simp at differs
    | some kind => exact .inr (TokenKind.mem_of_lookup reserved)

lemma octal_maximal (digits : startsWith isOctalDigit rest = true) : Cut (octal rest) := by
  intro kind literal sort
  cases sort
  exact .octal (takeWhile_ne_nil digits) (all_takeWhile rest) (startsWith_dropWhile _ _)

lemma number_maximal (digits : startsWith isDigit rest = true) : Cut (number rest) := by
  have some := takeWhile_ne_nil digits
  intro kind literal sort
  by_cases point : ∃ after, rest.dropWhile isDigit = '.' :: after ∧ startsWith isDigit after = true
  · obtain ⟨after, point, more⟩ := point
    rw [number_point point more] at sort ⊢
    cases sort
    exact .decimal some (all_takeWhile rest) (takeWhile_ne_nil more) (all_takeWhile after)
      (startsWith_dropWhile _ _)
  · have plain : ∀ after, rest.dropWhile isDigit = '.' :: after →
        startsWith isDigit after = false := fun after found =>
      Bool.eq_false_iff.mpr fun more => point ⟨after, found, more⟩
    rw [number_plain plain] at sort ⊢
    cases sort
    exact .whole some (all_takeWhile rest) (startsWith_dropWhile _ _) plain

lemma string_maximal (rest : List Char) : Cut (string rest) := by
  intro kind literal sort
  have stops := List.head?_dropWhile_not (· ≠ '\x22') rest
  unfold string at sort ⊢
  split at sort
  · cases sort
  · next q after found =>
    rw [found] at stops
    obtain rfl : q = '\x22' := by simpa using stops
    cases sort
    exact .string (not_mem_takeWhile '\x22' rest)

/-- A symbol of one character is taken where no longer one stands. -/
lemma single_maximal (shorter : ∀ d after, rest = d :: after → TokenKind.ofSymbol? [c, d] = none)
    (slash : c = '/' → startsWith (· = '/') rest = false) : Cut (single c rest) := by
  intro kind literal sort
  unfold single at sort ⊢
  split at sort
  · next spelled =>
    cases sort
    refine .symbol (TokenKind.mem_of_lookup spelled) ?_ fun same =>
      slash (List.singleton_inj.mp same)
    rintro ⟨cs, other⟩ listed stands
    by_contra longer
    have two : cs.length ≤ 2 := TokenKind.symbols_length _ listed
    simp only [List.length_singleton, Nat.not_le] at longer
    obtain ⟨b, d, rfl⟩ : ∃ b d, cs = [b, d] := by
      rw [← List.length_eq_two]
      omega
    rw [List.singleton_append, List.cons_prefix_cons] at stands
    obtain ⟨rfl, after, rfl⟩ := stands
    have unlisted := List.lookup_eq_none_iff.mp (shorter d after rfl) _ listed
    simp at unlisted
  · cases sort

lemma symbol_maximal (slash : c = '/' → startsWith (· = '/') rest = false) :
    Cut (symbol c rest) := by
  unfold symbol
  split
  · exact single_maximal (fun d after same => by cases same) slash
  · next d after =>
    split
    · next spelled =>
      intro kind literal sort
      cases sort
      refine .symbol (TokenKind.mem_of_lookup spelled) (fun entry listed _ => ?_) fun same => ?_
      · exact TokenKind.symbols_length entry listed
      · cases same
    · next unspelled =>
      refine single_maximal (fun e others same => ?_) slash
      cases same
      exact unspelled

end

lemma first_maximal (c : Char) (rest : List Char) : Cut (first c rest) := by
  unfold first
  split_ifs with blank slashes quote digit mark letter
  · intro kind literal sort
    cases sort
  · intro kind literal sort
    cases sort
  · exact string_maximal rest
  · exact number_maximal (show startsWith isDigit (c :: rest) = true from digit)
  · simp only [Bool.and_eq_true, decide_eq_true_eq] at mark
    exact octal_maximal mark.2
  · exact word_maximal letter mark
  · refine symbol_maximal fun same => Bool.eq_false_iff.mpr fun second => slashes ?_
    simp only [same, second, decide_true, Bool.and_self]

end Piece

namespace Scan

/-- A token stands at its place, and is as long as can be there. -/
def Stands (text : List Char) (t : Token) : Prop :=
  ∃ before after, text = before ++ t.lexeme.toList ++ after ∧
    t.span = ⟨utf8Length before, utf8Length t.lexeme.toList⟩ ∧
    Token.Maximal after t.kind t.literal t.lexeme.toList

lemma locate_stands (before rest : List Char) :
    ∀ t ∈ tokens (locate (Position.start.after before) (Piece.ofText rest)),
      Stands (before ++ rest) t := by
  induction hn : rest.length using Nat.strongRecOn generalizing before rest with
  | _ n ih =>
    cases rest with
    | nil =>
      simp only [Piece.ofText, Piece.cut, locate, tokens, List.filterMap_cons, List.filterMap_nil,
        List.mem_singleton, forall_eq]
      refine ⟨before, [], by simp [Token.atEnd], ?_, .ending rfl⟩
      simp [Token.atEnd, Position.after, Position.start, utf8Length]
    | cons c rest =>
      have shorter := Piece.first_shorter c rest
      have maximal := Piece.first_maximal c rest
      obtain ⟨-, -, split⟩ := Piece.first_splits c rest
      rw [Piece.ofText_cons]
      generalize Piece.first c rest = found at *
      obtain ⟨⟨sort, part⟩, after⟩ := found
      simp only at split shorter
      simp only [List.length_cons] at hn
      have others := ih after.length (by omega) (before ++ part) after rfl
      rw [← after_after, List.append_assoc, split] at others
      cases sort with
      | blank | comment | mistake cause => exact others
      | token kind literal =>
        intro t within
        rcases List.mem_cons.mp within with rfl | within
        · refine ⟨before, after, ?_, ?_, ?_⟩
          · rw [String.toList_ofList, List.append_assoc, split]
          · simp [Position.spanTo, Position.after, Position.start]
          · rw [String.toList_ofList]
            exact maximal kind literal rfl
        · exact others t within

/-- Every token of a text stands in the text, is of one of the classes of tokens, and is as long as
its class allows before the text that follows it. -/
theorem tokens_maximal (text : List Char) : ∀ t ∈ tokens (items text), ∃ before after,
    text = before ++ t.lexeme.toList ++ after ∧
    t.span = ⟨utf8Length before, utf8Length t.lexeme.toList⟩ ∧
    Token.Maximal after t.kind t.literal t.lexeme.toList :=
  locate_stands [] text

/-- Two exclamation marks before an equals sign. -/
theorem tokens_maximal_marks :
    let text := "oa!!=x".toList
    let t : Token := ⟨.kwRand, ⟨2, 2⟩, 1, "!!", none⟩
    t ∈ tokens (items text) ∧ ∃ before after, text = before ++ t.lexeme.toList ++ after ∧
      t.span = ⟨utf8Length before, utf8Length t.lexeme.toList⟩ ∧
      Token.Maximal after t.kind t.literal t.lexeme.toList := by
  intro text t
  have within : t ∈ tokens (items text) := by decide +kernel
  exact ⟨within, tokens_maximal text t within⟩

end Scan

end Lox
