import Lox.Proofs.Scan.Partition
import Lox.Proofs.Text.Lines
import Mathlib.Data.List.Basic

/-!
The line of a token is the one on which its last character stands: no token ends in a newline.
-/

namespace Lox

open Numeral (isDigit isOctalDigit)

namespace Piece

/-- A token does not end in a newline. -/
def Ended (piece : Piece) : Prop :=
  ∀ kind literal, piece.sort = .token kind literal → piece.text.getLast? ≠ some '\n'

section

variable {c : Char} {rest cs : List Char} {p : Char → Bool}

lemma getLast?_ne_newline (h : '\n' ∉ cs) : cs.getLast? ≠ some '\n' :=
  fun last => h (List.mem_of_getLast? last)

lemma newline_not_mem_takeWhile (hp : p '\n' = false) : '\n' ∉ rest.takeWhile p := by
  intro within
  rw [all_takeWhile rest _ within] at hp
  cases hp

lemma symbols_end : ∀ entry ∈ TokenKind.symbols, '\n' ∉ entry.1 := by
  decide

lemma ofSymbol?_ended {kind : TokenKind} (h : TokenKind.ofSymbol? cs = some kind) :
    cs.getLast? ≠ some '\n' :=
  getLast?_ne_newline (symbols_end (cs, kind) (TokenKind.mem_of_lookup h))

lemma single_ended (c : Char) (rest : List Char) : (single c rest).1.Ended := by
  unfold single
  split
  · next found => exact fun _ _ _ => ofSymbol?_ended found
  · exact nofun

lemma symbol_ended (c : Char) (rest : List Char) : (symbol c rest).1.Ended := by
  unfold symbol
  split
  · exact single_ended c []
  · split
    · next found => exact fun _ _ _ => ofSymbol?_ended found
    · exact single_ended c _

lemma word_ended (cs : List Char) : (word cs).1.Ended :=
  fun _ _ _ => getLast?_ne_newline (newline_not_mem_takeWhile (by decide))

lemma octal_ended (rest : List Char) : (octal rest).1.Ended := by
  refine fun _ _ _ => getLast?_ne_newline ?_
  have digits : '\n' ∉ rest.takeWhile isOctalDigit := newline_not_mem_takeWhile (by decide)
  simpa [octal] using digits

lemma number_ended (cs : List Char) : (number cs).1.Ended := by
  have digits (rest : List Char) : '\n' ∉ rest.takeWhile isDigit :=
    newline_not_mem_takeWhile (by decide)
  simp only [number]
  split
  · split
    · refine fun _ _ _ => getLast?_ne_newline ?_
      simp [digits]
    · exact fun _ _ _ => getLast?_ne_newline (digits cs)
  · exact fun _ _ _ => getLast?_ne_newline (digits cs)

lemma string_ended (rest : List Char) : (string rest).1.Ended := by
  unfold string
  split
  · exact nofun
  · next q after found =>
    have ends := List.head?_dropWhile_not (· ≠ '\x22') rest
    rw [found] at ends
    obtain rfl : q = '\x22' := by simpa using ends
    intro _ _ _
    rw [List.getLast?_concat]
    decide

end

lemma first_ended (c : Char) (rest : List Char) : (first c rest).1.Ended := by
  unfold first
  split_ifs
  · exact nofun
  · exact nofun
  · exact string_ended rest
  · exact number_ended (c :: rest)
  · exact octal_ended rest
  · exact word_ended (c :: rest)
  · exact symbol_ended c rest

end Piece

namespace Scan

/-- A token is on the line of its last character, and that at the end on the last line. -/
def Lined (text : List Char) (t : Token) : Prop :=
  ∃ upto after, text = upto ++ after ∧ t.line = upto.count '\n' + 1 ∧
    (t.kind ≠ .eof → upto ≠ [] ∧ upto.getLast? ≠ some '\n')

lemma after_line (before : List Char) :
    (Position.start.after before).line = before.count '\n' + 1 :=
  Nat.add_comm _ _

lemma locate_lined (before : List Char) (pieces : List Piece)
    (h : ∀ piece ∈ pieces, piece.text ≠ [] ∧ piece.Ended) :
    ∀ t ∈ tokens (locate (Position.start.after before) pieces),
      Lined (before ++ (pieces.map Piece.text).flatten) t := by
  induction pieces generalizing before with
  | nil =>
    intro t found
    obtain rfl := List.mem_singleton.mp found
    exact ⟨before, [], by simp, after_line before, fun proper => absurd rfl proper⟩
  | cons piece pieces ih =>
    obtain ⟨some, ended⟩ := h piece List.mem_cons_self
    have others := ih (before ++ piece.text) fun piece hp => h piece (List.mem_cons_of_mem _ hp)
    rw [← after_after, List.append_assoc] at others
    obtain ⟨sort, text⟩ := piece
    simp only [List.map_cons, List.flatten_cons]
    cases sort with
    | blank | comment | mistake => exact others
    | token kind literal =>
      intro t found
      rcases List.mem_cons.mp found with rfl | within
      · refine ⟨before ++ text, (pieces.map Piece.text).flatten, by simp, ?_, fun _ => ⟨?_, ?_⟩⟩
        · rw [after_after, after_line]
        · exact List.append_ne_nil_of_right_ne_nil _ some
        · rw [List.getLast?_append_of_ne_nil _ some]
          exact ended kind literal rfl
      · exact others t within

/-- A token stands on a line of the text. -/
lemma token_on_line {text : List Char} {t : Token} (found : t ∈ tokens (items text))
    (proper : t.kind ≠ .eof) :
    ∃ before line after, Lines.Cuts text before line after ∧ t.line = before.count '\n' + 1 := by
  have pieces : ∀ piece ∈ Piece.ofText text, piece.text ≠ [] ∧ piece.Ended := by
    intro piece within
    obtain ⟨c, rest, rfl⟩ := Piece.mem_ofText within
    exact ⟨(Piece.first_splits c rest).2.1, Piece.first_ended c rest⟩
  have lined := locate_lined [] (Piece.ofText text) pieces t found
  rw [(Piece.ofText_splits text).2] at lined
  obtain ⟨upto, rest, rfl, number, ends⟩ := lined
  obtain ⟨some, last⟩ := ends proper
  obtain ⟨init, c, rfl⟩ := (List.eq_nil_or_concat' upto).resolve_left some
  have visible : c ≠ '\n' := by
    rintro rfl
    exact last List.getLast?_concat
  obtain ⟨before, line, after, cuts, same⟩ := Lines.exists_cuts visible init rest
  refine ⟨before, line, after, by simpa using cuts, ?_⟩
  rw [number, same, List.count_append, List.count_singleton, beq_eq_false_iff_ne.mpr visible]
  simp

end Scan

end Lox
