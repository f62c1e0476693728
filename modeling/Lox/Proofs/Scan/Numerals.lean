import Lox.Proofs.Decimal.Numeral
import Lox.Proofs.Decimal.Octal
import Lox.Proofs.Decimal.Rounded
import Lox.Proofs.Scan.Cut
import Lox.Proofs.Scan.Joined

/-!
Numerals without a fraction are scanned as one number. An octal numeral and the decimal numeral of
the same number have the same literal, except where the octal one is rounded too early.
-/

namespace Lox

open Numeral (isDigit isOctalDigit octalNatural)

variable {digits text : List Char} {x y : Float}

/-- The text is one number token, with this number as its literal. -/
def Scan.IsNumber (text : List Char) (x : Float) : Prop :=
  items text = [.ok ⟨.number, ⟨0, utf8Length text⟩, 1, String.ofList text, some (.number x)⟩,
    .ok (Token.atEnd ⟨utf8Length text, 1⟩)]

namespace Piece

lemma ofText_octal (proper : digits ≠ []) (octal : ∀ c ∈ digits, isOctalDigit c) :
    ofText ('o' :: digits) =
      [⟨.token .number (some (.number (Numeral.octal digits))), 'o' :: digits⟩] := by
  have starts : startsWith isOctalDigit digits = true := by
    obtain ⟨d, others, rfl⟩ := List.exists_cons_of_ne_nil proper
    exact octal d List.mem_cons_self
  have taken := List.takeWhile_eq_self_iff.mpr octal
  have dropped := List.dropWhile_eq_nil_iff.mpr octal
  have marked : first 'o' digits = Piece.octal digits := by
    simp only [first, starts]
    rfl
  rw [ofText_cons, marked, Piece.octal, taken, dropped]
  rfl

lemma ofText_digits (proper : digits ≠ []) (decimal : ∀ c ∈ digits, isDigit c) :
    ofText digits =
      [⟨.token .number (some (.number (Numeral.decimal digits []))), digits⟩] := by
  have taken := List.takeWhile_eq_self_iff.mpr decimal
  have dropped := List.dropWhile_eq_nil_iff.mpr decimal
  have plain : number digits = _ := number_plain (by simp [dropped])
  obtain ⟨d, others, rfl⟩ := List.exists_cons_of_ne_nil proper
  have digit := decimal d List.mem_cons_self
  have other {c : Char} (different : isDigit c = false) : d ≠ c := by
    rintro rfl
    exact Bool.eq_false_iff.mp different digit
  have first_eq : first d others = number (d :: others) := by
    have blank : isBlank d = false := by
      simp only [isBlank, other (c := ' ') rfl, other (c := '\t') rfl, other (c := '\r') rfl,
        other (c := '\n') rfl, decide_false, Bool.or_self]
    simp only [first, blank, other (c := '/') rfl, other (c := '\x22') rfl, digit, decide_false,
      Bool.false_and, Bool.false_eq_true, if_false, if_true]
  rw [ofText_cons, first_eq, plain, taken, dropped]
  rfl

end Piece

namespace Scan

lemma isNumber_of_pieces (unbroken : '\n' ∉ text)
    (one : Piece.ofText text = [⟨.token .number (some (.number x)), text⟩]) : IsNumber text x := by
  have lines : text.count '\n' = 0 := List.count_eq_zero.mpr unbroken
  rw [IsNumber, items, one]
  simp only [locate, Piece.scanned?, Position.after, Position.start, Position.spanTo, lines,
    Nat.zero_add, Nat.add_zero, Nat.sub_zero]

lemma IsNumber.unique (hx : IsNumber text x) (hy : IsNumber text y) : x = y := by
  have same := hx.symm.trans hy
  cases same
  rfl

lemma isNumber_octal (proper : digits ≠ []) (octal : ∀ c ∈ digits, isOctalDigit c) :
    IsNumber ('o' :: digits) (Numeral.octal digits) := by
  apply isNumber_of_pieces
  · intro newline
    rcases List.mem_cons.mp newline with mark | digit
    · cases mark
    · cases octal _ digit
  · exact Piece.ofText_octal proper octal

lemma isNumber_toDigits (n : Nat) : IsNumber (Nat.toDigits 10 n) (Binary.float n) := by
  have decimal : ∀ c ∈ Nat.toDigits 10 n, isDigit c :=
    fun c digit => Nat.isDigit_of_mem_toDigits (by decide) (by decide) digit
  apply isNumber_of_pieces
  · exact Numeral.not_mem_toDigits rfl n
  · rw [Piece.ofText_digits Nat.toDigits_ne_nil decimal, Numeral.decimal, List.append_nil,
      Numeral.natural_toDigits, List.length_nil, Binary.ofScientific_eq]

/-- An octal numeral and the decimal numeral of the same number are both one number token, however
long they are, and the literal of the decimal one is the number nearest to that. The literals are
equal unless the number is finite, its first octal digits that need more than 53 binary digits make
a tie that goes down, and a digit behind them is not zero. -/
theorem octal_literals (digits : List Char) (proper : digits ≠ [])
    (octal : ∀ c ∈ digits, isOctalDigit c) : ∃ x y, IsNumber ('o' :: digits) x ∧
      IsNumber (Nat.toDigits 10 (octalNatural digits)) y ∧
      Binary.IsNearest (octalNatural digits) y ∧
      (x = y ↔ ¬Binary.RoundedEarly (octalNatural digits)) := by
  use Numeral.octal digits, Binary.float (octalNatural digits)
  constructor
  · exact isNumber_octal proper octal
  · constructor
    · exact isNumber_toDigits (octalNatural digits)
    · constructor
      · exact Binary.isNearest_iff.mpr rfl
      · exact Numeral.octal_eq_iff octal

/-- Seventeen in base eight. -/
theorem octal_literals_fifteen : ['1', '7'] ≠ [] ∧ (∀ c ∈ ['1', '7'], isOctalDigit c) ∧
    ∃ x, IsNumber ['o', '1', '7'] x ∧ IsNumber ['1', '5'] x ∧ Binary.IsNearest 15 x := by
  have digits : ∀ c ∈ ['1', '7'], isOctalDigit c := List.all_eq_true.mp rfl
  have exact : ¬Binary.RoundedEarly (octalNatural ['1', '7']) := by
    rintro ⟨-, r, large, -⟩
    have less := Nat.div_le_self (octalNatural ['1', '7']) (8 ^ r)
    change _ ≤ 15 at less
    omega
  obtain ⟨x, y, marked, plain, nearest, same⟩ := octal_literals ['1', '7'] (by decide) digits
  refine ⟨by decide, digits, x, marked, ?_⟩
  rw [same.mpr exact]
  exact ⟨plain, nearest⟩

/-- The two literals are not always equal: `2 ^ 56 + 9` is nearer to `2 ^ 56 + 16`, but its octal
numeral is read as `2 ^ 56`, since all its digits but the last make a tie. -/
theorem octal_literals_differ : ¬∀ digits : List Char, digits ≠ [] →
    (∀ c ∈ digits, isOctalDigit c) →
      ∃ x, IsNumber ('o' :: digits) x ∧ IsNumber (Nat.toDigits 10 (octalNatural digits)) x := by
  intro all
  have digits : ∀ c ∈ "4000000000000000011".toList, isOctalDigit c := List.all_eq_true.mp rfl
  obtain ⟨x, marked, plain⟩ := all "4000000000000000011".toList (by decide) digits
  have number : octalNatural "4000000000000000011".toList = 2 ^ 56 + 9 := by decide
  have same := (isNumber_octal (by decide) digits).unique marked
  rw [plain.unique (isNumber_toDigits _), Numeral.octal_eq_iff digits, number] at same
  apply same
  constructor
  · omega
  · use 1
    constructor
    · decide
    · constructor
      · decide
      · exact ⟨⟨by decide, by decide⟩, by decide⟩

end Scan

end Lox
