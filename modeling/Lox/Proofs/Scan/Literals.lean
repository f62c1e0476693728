import Lox.Proofs.Place.Located
import Lox.Proofs.Scan.Slices

/-!
What a token is, without its place, is told by its kind and its text: its literal can be read off
them. So two scans of the same kinds and texts differ in places only.
-/

namespace Lox

open Located (moved)
open Numeral (isDigit)

namespace Token

/-- The number that a numeral denotes. -/
def numberIn : List Char → Float
  | 'o' :: digits => Numeral.octal digits
  | cs => Numeral.decimal (cs.takeWhile isDigit) (cs.dropWhile isDigit).tail

/-- The literal of a token of a kind with a text. -/
def literalIn (kind : TokenKind) (cs : List Char) : Option Literal :=
  match kind with
  | .number => some (.number (numberIn cs))
  | .string => some (.string (String.ofList cs.tail.dropLast))
  | _ => none

/-- Digits come first in a decimal numeral, so it is not marked as an octal one. -/
lemma numberIn_decimal {whole rest : List Char} (some : whole ≠ [])
    (digits : ∀ c ∈ whole, isDigit c) (stops : rest.takeWhile isDigit = []) :
    numberIn (whole ++ rest) = Numeral.decimal whole rest.tail := by
  obtain ⟨d, others, rfl⟩ := List.exists_cons_of_ne_nil some
  have first : isDigit d := digits d List.mem_cons_self
  have unmarked : d ≠ 'o' := by
    rintro rfl
    cases first
  have taken : (d :: others ++ rest).takeWhile isDigit = d :: others := by
    rw [List.takeWhile_append_of_pos digits, stops, List.append_nil]
  have dropped : (d :: others ++ rest).dropWhile isDigit = rest := by
    have split := List.takeWhile_append_dropWhile (p := isDigit) (l := d :: others ++ rest)
    rw [taken] at split
    exact List.append_cancel_left split
  rw [numberIn]
  · rw [taken, dropped]
  · rintro digits same
    exact unmarked (List.cons.inj same).1

lemma Written.literal_eq {kind : TokenKind} {l : Option Literal} {cs : List Char}
    (h : Written kind l cs) : l = literalIn kind cs := by
  cases h with
  | string body _ => simp [literalIn]
  | whole digits some all =>
    have number := numberIn_decimal some all (show [].takeWhile isDigit = [] from rfl)
    rw [List.append_nil] at number
    rw [literalIn, number]
    rfl
  | decimal whole fraction some all _ _ =>
    rw [literalIn, numberIn_decimal some all (List.takeWhile_cons_of_neg (by decide))]
    rfl
  | octal digits _ _ => rfl
  | plain _ number string =>
    cases kind with
    | number => exact absurd rfl number
    | string => exact absurd rfl string
    | _ => rfl

/-- Two tokens of one kind and text differ in their places only. -/
lemma moved_nowhere_eq {t u : Token} (ht : Written t.kind t.literal t.lexeme.toList)
    (hu : Written u.kind u.literal u.lexeme.toList) (kind : t.kind = u.kind)
    (lexeme : t.lexeme = u.lexeme) : moved .nowhere t = moved .nowhere u := by
  have literal : t.literal = u.literal := by
    rw [ht.literal_eq, hu.literal_eq, kind, lexeme]
  change Token.mk t.kind ⟨0, 0⟩ 0 t.lexeme t.literal = Token.mk u.kind ⟨0, 0⟩ 0 u.lexeme u.literal
  rw [kind, lexeme, literal]

end Token

namespace Scan

lemma mem_tokens {scan : List Scanned} {t : Token} (h : t ∈ tokens scan) : .ok t ∈ scan := by
  obtain ⟨item, within, same⟩ := List.mem_filterMap.mp h
  cases item with
  | ok u =>
    cases same
    exact within
  | error e => cases same

/-- The tokens of two texts with the same kinds and lexemes differ in their places only. -/
lemma tokens_moved_nowhere {first second : List Char}
    (same : (tokens (items first)).map (fun t => (t.kind, t.lexeme)) =
      (tokens (items second)).map (fun t => (t.kind, t.lexeme))) :
    moved .nowhere (tokens (items first)) = moved .nowhere (tokens (items second)) := by
  have written (text : List Char) : ∀ t ∈ tokens (items text),
      Token.Written t.kind t.literal t.lexeme.toList :=
    fun t found => (items_inText text _ (mem_tokens found)).written
  have ht := written first
  have hu := written second
  generalize tokens (items first) = ts at same ht
  generalize tokens (items second) = us at same hu
  induction ts generalizing us with
  | nil =>
    cases us with
    | nil => rfl
    | cons u us => cases same
  | cons t ts ih =>
    cases us with
    | nil => cases same
    | cons u us =>
      simp only [List.map_cons, List.cons.injEq, Prod.mk.injEq] at same
      simp only [List.mem_cons, forall_eq_or_imp] at ht hu
      obtain ⟨⟨kind, lexeme⟩, others⟩ := same
      have here := Token.moved_nowhere_eq ht.1 hu.1 kind lexeme
      have there := ih ht.2 us others hu.2
      change moved _ t :: moved _ ts = moved _ u :: moved _ us
      rw [here, there]

end Scan

end Lox
