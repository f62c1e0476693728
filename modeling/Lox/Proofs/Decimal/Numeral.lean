import Lox.Decimal.Layout
import Lox.Decimal.Numeral
import Lox.Proofs.Decimal.Rounding
import Mathlib.Data.List.TakeWhile

/-!
Written decimals denote the decimals that are written, whatever the layout.
-/

namespace Lox

namespace Numeral

/-- The integer that digits denote, with a minus before them if it is negative. -/
def integer : List Char → Int
  | '-' :: digits => -natural digits
  | digits => natural digits

/-- The rational that digits denote, with maybe a point among them. -/
def fixed (cs : List Char) : ℚ :=
  let fraction := (cs.dropWhile (· ≠ '.')).tail
  natural (cs.takeWhile (· ≠ '.') ++ fraction) / 10 ^ fraction.length

/-- The same with maybe an exponent after them. -/
def rational (cs : List Char) : ℚ :=
  fixed (cs.takeWhile (· ≠ 'e')) * 10 ^ integer (cs.dropWhile (· ≠ 'e')).tail

variable {whole fraction mantissa : List Char} {stop : Char}

lemma natural_toDigits (n : Nat) : natural (Nat.toDigits 10 n) = n :=
  Nat.ofDigitChars_toDigits (by decide) (by decide)

lemma natural_zeros_append (n : Nat) (cs : List Char) :
    natural (List.replicate n '0' ++ cs) = natural cs := by
  have split : natural (List.replicate n '0' ++ cs) =
      Nat.ofDigitChars 10 cs (Nat.ofDigitChars 10 (List.replicate n '0') 0) :=
    Nat.ofDigitChars_append 0
  rw [split, Nat.ofDigitChars_replicate_zero, Nat.mul_zero]
  rfl

lemma natural_append_zeros (cs : List Char) (n : Nat) :
    natural (cs ++ List.replicate n '0') = natural cs * 10 ^ n := by
  have split : natural (cs ++ List.replicate n '0') =
      Nat.ofDigitChars 10 (List.replicate n '0') (natural cs) :=
    Nat.ofDigitChars_append 0
  rw [split, Nat.ofDigitChars_replicate_zero, Nat.mul_comm]

/-- No digit of a natural number is another character. -/
lemma not_mem_toDigits {c : Char} (other : c.isDigit = false) (n : Nat) :
    c ∉ Nat.toDigits 10 n := by
  intro within
  rw [Nat.isDigit_of_mem_toDigits (by decide) (by decide) within] at other
  cases other

lemma integer_toString (k : Int) : integer (toString k).toList = k := by
  rw [Int.toString_eq_repr, Int.repr_eq_if]
  split
  · next up =>
    rw [Nat.toList_repr]
    have plain : integer (Nat.toDigits 10 k.toNat) = natural (Nat.toDigits 10 k.toNat) := by
      unfold integer
      split
      · next digits minus =>
        have within : '-' ∈ Nat.toDigits 10 k.toNat := by
          rw [minus]
          exact List.mem_cons_self
        exact absurd within (not_mem_toDigits rfl _)
      · rfl
    rw [plain, natural_toDigits]
    omega
  · next down =>
    rw [String.toList_append, Nat.toList_repr]
    change -((natural (Nat.toDigits 10 (-k).toNat) : Nat) : Int) = k
    rw [natural_toDigits]
    omega

/-- Without the character at which they stop, all characters are taken. -/
lemma take_all (none : stop ∉ whole) :
    whole.takeWhile (· ≠ stop) = whole ∧ whole.dropWhile (· ≠ stop) = [] := by
  have all : ∀ c ∈ whole, decide (c ≠ stop) = true := by
    intro c within
    exact decide_eq_true fun same => none (same ▸ within)
  exact ⟨List.takeWhile_eq_self_iff.mpr all, List.dropWhile_eq_nil_iff.mpr all⟩

lemma take_stop (none : stop ∉ whole) (rest : List Char) :
    (whole ++ stop :: rest).takeWhile (· ≠ stop) = whole ∧
      (whole ++ stop :: rest).dropWhile (· ≠ stop) = stop :: rest := by
  have all : ∀ c ∈ whole, decide (c ≠ stop) = true := by
    intro c within
    exact decide_eq_true fun same => none (same ▸ within)
  constructor
  · rw [List.takeWhile_append_of_pos all, List.takeWhile_cons_of_neg (by simp), List.append_nil]
  · rw [List.dropWhile_append_of_pos all, List.dropWhile_cons_of_neg (by simp)]

lemma fixed_digits (noPoint : '.' ∉ whole) : fixed whole = natural whole := by
  obtain ⟨taken, dropped⟩ := take_all noPoint
  rw [fixed, taken, dropped]
  simp

lemma fixed_point (noPoint : '.' ∉ whole) :
    fixed (whole ++ '.' :: fraction) = natural (whole ++ fraction) / 10 ^ fraction.length := by
  obtain ⟨taken, dropped⟩ := take_stop noPoint fraction
  simp only [fixed, taken, dropped, List.tail_cons]

lemma rational_fixed (noExponent : 'e' ∉ mantissa) : rational mantissa = fixed mantissa := by
  obtain ⟨taken, dropped⟩ := take_all noExponent
  have zero : integer [] = 0 := rfl
  rw [rational, taken, dropped, List.tail_nil, zero, zpow_zero, mul_one]

lemma rational_point (noExponent : 'e' ∉ whole ++ fraction) (noPoint : '.' ∉ whole) :
    rational (whole ++ '.' :: fraction) = natural (whole ++ fraction) / 10 ^ fraction.length := by
  have noExponent' : 'e' ∉ whole ++ '.' :: fraction := by simpa using noExponent
  rw [rational_fixed noExponent', fixed_point noPoint]

lemma rational_exponent (noExponent : 'e' ∉ mantissa) (k : Int) :
    rational (mantissa ++ 'e' :: (toString k).toList) = fixed mantissa * 10 ^ k := by
  obtain ⟨taken, dropped⟩ := take_stop noExponent (toString k).toList
  rw [rational, taken, dropped, List.tail_cons, integer_toString]

end Numeral

namespace Layout

open Numeral

variable {digits : List Char}

lemma not_mem_of_digits {c : Char} (hd : ∀ c ∈ digits, c.isDigit = true)
    (other : c.isDigit = false) : c ∉ digits := by
  intro within
  rw [hd c within] at other
  cases other

/-- Digits behind the point are divided by their weight. -/
lemma div_weight (n : Nat) {k : Int} (down : k ≤ 0) {places : Nat} (h : places = (-k).toNat) :
    (n : ℚ) / 10 ^ places = n * 10 ^ k := by
  have one := zpow_mul_pow_toNat (show (10 : ℚ) ≠ 0 by norm_num) k
  rw [Int.toNat_of_nonpos down, pow_zero, ← h] at one
  rw [div_eq_iff (by positivity), mul_assoc, one, mul_one]

/-- Zeros behind the digits of a whole number multiply it, and a zero behind the point does not. -/
lemma rational_whole (pointed : Bool) (noPoint : '.' ∉ digits) (noExponent : 'e' ∉ digits)
    (n : Nat) : rational (digits ++ List.replicate n '0' ++ if pointed then ['.', '0'] else []) =
      natural digits * 10 ^ n := by
  have noPoint' : '.' ∉ digits ++ List.replicate n '0' := by simp [noPoint, List.mem_replicate]
  cases pointed with
  | false =>
    have noExponent' : 'e' ∉ digits ++ List.replicate n '0' := by
      simp [noExponent, List.mem_replicate]
    rw [if_neg Bool.false_ne_true, List.append_nil, rational_fixed noExponent',
      fixed_digits noPoint', natural_append_zeros]
    push_cast
    rfl
  | true =>
    have noExponent' : 'e' ∉ digits ++ List.replicate n '0' ++ ['0'] := by
      simp [noExponent, List.mem_replicate]
    have zeros : natural (digits ++ List.replicate n '0' ++ ['0']) =
        natural digits * 10 ^ n * 10 ^ 1 := by
      rw [show ['0'] = List.replicate 1 '0' from rfl, natural_append_zeros, natural_append_zeros]
    rw [if_pos rfl, rational_point noExponent' noPoint', zeros, List.length_singleton]
    push_cast
    exact mul_div_cancel_right₀ _ (by norm_num)

/-- All digits at their weights denote the decimal. -/
lemma rational_inFull (pointed : Bool) (hd : ∀ c ∈ digits, c.isDigit = true) (k : Int) :
    rational (inFull pointed digits k) = natural digits * 10 ^ k := by
  have noPoint := not_mem_of_digits hd (show '.'.isDigit = false from rfl)
  have noExponent := not_mem_of_digits hd (show 'e'.isDigit = false from rfl)
  unfold inFull
  simp only
  split
  · next up =>
    obtain ⟨n, rfl⟩ := Int.eq_ofNat_of_zero_le up
    rw [Int.toNat_natCast, rational_whole pointed noPoint noExponent, zpow_natCast]
  · next down =>
    split
    · next some =>
      rw [rational_point (by rwa [List.take_append_drop])
        fun within => noPoint (List.mem_of_mem_take within), List.take_append_drop]
      refine div_weight _ (by omega) ?_
      rw [List.length_drop]
      simp only [Int.ofNat_eq_natCast] at some ⊢
      omega
    · next none =>
      let zeros := List.replicate (-(Int.ofNat digits.length + k)).toNat '0'
      have noExponent' : 'e' ∉ ['0'] ++ (zeros ++ digits) := by
        simp [zeros, noExponent, List.mem_replicate]
      have start : natural (['0'] ++ (zeros ++ digits)) = natural digits :=
        natural_zeros_append _ digits
      have run := rational_point noExponent' (show '.' ∉ ['0'] by decide)
      rw [start] at run
      refine run.trans (div_weight _ (by omega) ?_)
      simp only [zeros, List.length_append, List.length_replicate, Int.ofNat_eq_natCast] at none ⊢
      omega

/-- One digit before the point and an exponent denote the decimal. -/
lemma rational_scientific (some : digits ≠ []) (hd : ∀ c ∈ digits, c.isDigit = true) (k : Int) :
    rational (scientific digits k) = natural digits * 10 ^ k := by
  have noPoint := not_mem_of_digits hd (show '.'.isDigit = false from rfl)
  have noExponent := not_mem_of_digits hd (show 'e'.isDigit = false from rfl)
  obtain ⟨first, others, rfl⟩ := List.exists_cons_of_ne_nil some
  simp only [List.mem_cons, not_or] at noPoint noExponent
  have weight : Int.ofNat (first :: others).length - 1 + k = others.length + k := by
    rw [List.length_cons, Int.ofNat_eq_natCast]
    push_cast
    ring
  have noPoint' : '.' ∉ [first] := by simp [noPoint.1]
  have mantissa : ∀ tail, tail = (if 1 < (first :: others).length then '.' :: others else []) →
      'e' ∉ [first] ++ tail ∧
        fixed ([first] ++ tail) = natural (first :: others) / 10 ^ others.length := by
    rintro tail rfl
    cases others with
    | nil => exact ⟨by simp [noExponent.1], by simpa using fixed_digits noPoint'⟩
    | cons second others =>
      rw [if_pos (by simp)]
      exact ⟨by simpa using noExponent, fixed_point noPoint'⟩
  obtain ⟨noExponent', fixed⟩ := mantissa _ rfl
  have run := rational_exponent noExponent' (others.length + k)
  rw [fixed, zpow_add₀ (by norm_num), zpow_natCast] at run
  have same : (natural (first :: others) : ℚ) / 10 ^ others.length * (10 ^ others.length * 10 ^ k) =
      natural (first :: others) * 10 ^ k := by
    rw [← mul_assoc, div_mul_cancel₀ _ (by positivity)]
  rw [same] at run
  unfold scientific
  simp only [weight]
  exact run

/-- A written decimal denotes the decimal. -/
lemma rational_digits (l : Layout) (d : Decimal) : rational (l.digits d) = d.value := by
  have hd : ∀ c ∈ Nat.toDigits 10 d.coefficient, c.isDigit = true :=
    fun c within => Nat.isDigit_of_mem_toDigits (by decide) (by decide) within
  have value : (natural (Nat.toDigits 10 d.coefficient) : ℚ) * 10 ^ d.exponent = d.value := by
    rw [natural_toDigits]
    rfl
  unfold Layout.digits
  simp only
  split
  · rw [rational_inFull l.pointed hd, value]
  · split
    · rw [rational_inFull l.pointed hd, value]
    · rw [rational_scientific Nat.toDigits_ne_nil hd, value]

end Layout

end Lox
