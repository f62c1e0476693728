import Lox.Decimal.Numeral
import Lox.Proofs.Decimal.Natural

/-!
Octal numerals are summed digit by digit in binary64. The sum is rounded once, at the first digit
with which it has more than 53 binary digits, and from there on every digit falls off. So it differs
from the nearest number only where that first rounding decides a tie that a later digit would break.
-/

namespace Lox

namespace Numeral

/-- The natural number that octal digits denote. -/
def octalNatural (cs : List Char) : Nat :=
  cs.foldl (fun n c => 8 * n + digitValue c) 0

/-- The same, with the number rounded before each further digit. -/
def octalRounded (cs : List Char) : Nat :=
  cs.foldl (fun n c => 8 * Binary.rounded n + digitValue c) 0

end Numeral

namespace Binary

variable {m n p r d v a b : Nat} {e : Int}

/-- A number halfway between two with 53 binary digits, of which the lower one is even. -/
def TiesDown (n : Nat) : Prop :=
  2 * (n % 2 ^ (n.log2 - 52)) = 2 ^ (n.log2 - 52) ∧ n / 2 ^ (n.log2 - 52) % 2 = 0

/-- A finite number whose first octal digits make a tie that its other digits break. -/
def RoundedEarly (n : Nat) : Prop :=
  n < 2 ^ 1024 ∧ ∃ r, 2 ^ 53 ≤ n / 8 ^ r ∧ n / 8 ^ r < 2 ^ 56 ∧ TiesDown (n / 8 ^ r) ∧ n % 8 ^ r ≠ 0

/-! ## One more digit -/

lemma rounded_mul_pow (n j : Nat) : rounded (rounded n * 2 ^ j) = rounded n * 2 ^ j := by
  by_cases none : n = 0
  · have zero : rounded 0 * 2 ^ j = 0 := Nat.zero_mul _
    rw [none, zero]
    rfl
  · obtain ⟨m, e, scaled, -⟩ := exists_scaled none
    exact (scaled.shift j).rounded_eq

/-- Each digit rounds the sum so far, and no more. -/
lemma float_step (small : d < 2 ^ 53) :
    float n * 8 + Float.ofNat d = float (8 * rounded n + d) := by
  have digit := rounded_small small.le
  have eight : rounded 8 = 8 := rounded_small (by decide)
  change float n * Float.ofNat 8 + _ = _
  rw [ofNat_eq, ofNat_eq]
  by_cases large : 2 ^ 1024 ≤ rounded n
  · have sum : 2 ^ 1024 ≤ 8 * rounded n + d := by omega
    rw [float_overflow large, infinity_mul (by decide) (by omega), infinity_add (by omega),
      float_overflow (pow_le_rounded sum)]
  · have whole : rounded (8 * rounded n) = 8 * rounded n := by
      rw [Nat.mul_comm]
      exact rounded_mul_pow n 3
    rw [float_mul (by omega) (by omega), eight, Nat.mul_comm]
    by_cases large' : 2 ^ 1024 ≤ 8 * rounded n
    · have sum : 2 ^ 1024 ≤ 8 * rounded n + d := by omega
      rw [float_overflow (pow_le_rounded sum), float_overflow (pow_le_rounded large'),
        infinity_add (by omega)]
    · rw [float_add (by omega) (by omega), whole, digit]

/-! ## The first rounding is the last one -/

lemma ne_zero_of_div (some : n / a ≠ 0) : n ≠ 0 := by
  rintro rfl
  exact some (Nat.zero_div _)

lemma log2_div (some : n / 2 ^ a ≠ 0) : n.log2 = (n / 2 ^ a).log2 + a := by
  have unit := Nat.two_pow_pos a
  have low := (Nat.le_div_iff_mul_le unit).mp (Nat.log2_self_le some)
  have high := (Nat.div_lt_iff_lt_mul unit).mp (Nat.lt_log2_self (n := n / 2 ^ a))
  rw [← Nat.pow_add] at low high
  rw [Nat.log2_eq_iff (ne_zero_of_div some)]
  constructor
  · exact low
  · rw [Nat.add_right_comm]
    exact high

/-- The digits behind those that are rounded count only where they break a tie. -/
lemma nearest_eq_iff (n k a : Nat) : nearest n (k + 1 + a) = nearest (n / 2 ^ a) (k + 1) ↔
    ¬((2 * (n / 2 ^ a % 2 ^ (k + 1)) = 2 ^ (k + 1) ∧ n / 2 ^ a / 2 ^ (k + 1) % 2 = 0) ∧
      n % 2 ^ a ≠ 0) := by
  have quotient : n / 2 ^ (k + 1 + a) = n / 2 ^ a / 2 ^ (k + 1) := by
    rw [Nat.div_div_eq_div_mul, ← Nat.pow_add, Nat.add_comm a]
  have digits : n % 2 ^ (k + 1 + a) = n % 2 ^ a + 2 ^ a * (n / 2 ^ a % 2 ^ (k + 1)) := by
    rw [Nat.add_comm, Nat.pow_add, Nat.mod_mul]
  have less := Nat.mod_lt n (Nat.two_pow_pos a)
  have twice : 2 ^ (k + 1) = 2 * 2 ^ k := Nat.pow_succ'
  have whole : 2 ^ (k + 1 + a) = 2 * (2 ^ a * 2 ^ k) := by
    rw [Nat.pow_add, twice, Nat.mul_assoc, Nat.mul_comm (2 ^ k)]
  simp only [nearest, quotient, digits]
  rw [whole]
  generalize n / 2 ^ a / 2 ^ (k + 1) = number
  generalize n / 2 ^ a % 2 ^ (k + 1) = rest
  generalize n % 2 ^ a = behind at *
  rw [twice]
  clear quotient digits whole twice
  generalize 2 ^ k = half
  rcases Nat.lt_trichotomy rest half with below | tie | above
  · have room : 2 ^ a * (rest + 1) ≤ 2 ^ a * half := Nat.mul_le_mul_left _ below
    rw [Nat.mul_add, Nat.mul_one] at room
    rw [if_pos (by omega), if_pos (by omega)]
    simp only [true_iff]
    omega
  · subst tie
    split <;> split <;> omega
  · have room : 2 ^ a * (half + 1) ≤ 2 ^ a * rest := Nat.mul_le_mul_left _ above
    have unit := Nat.two_pow_pos a
    rw [Nat.mul_add, Nat.mul_one] at room
    rw [if_neg (by omega), if_neg (by omega)]
    simp only [true_iff]
    omega

lemma rounded_eq_iff (large : 2 ^ 53 ≤ n / 2 ^ a) :
    rounded n = rounded (n / 2 ^ a) * 2 ^ a ↔ ¬(TiesDown (n / 2 ^ a) ∧ n % 2 ^ a ≠ 0) := by
  have some : n / 2 ^ a ≠ 0 := by omega
  have log := (Nat.le_log2 some).mpr large
  obtain ⟨k, digits⟩ : ∃ k, (n / 2 ^ a).log2 - 52 = k + 1 := ⟨(n / 2 ^ a).log2 - 53, by omega⟩
  have digits' : n.log2 - 52 = k + 1 + a := by
    rw [log2_div some]
    omega
  rw [rounded, rounded, TiesDown, digits, digits', Nat.mul_assoc, ← Nat.pow_add,
    Nat.mul_left_inj (Nat.two_pow_pos _).ne', nearest_eq_iff]

/-- A rounded number is no tie. -/
lemma Scaled.not_tiesDown (h : Scaled m e v) : ¬TiesDown v := by
  obtain ⟨some, log⟩ := h.log2_eq
  obtain ⟨large, fits, a, b, exponent, same⟩ := h
  rintro ⟨half, -⟩
  have none : v % 2 ^ (v.log2 - 52) = 0 := by
    by_cases whole : b ≤ a
    · have split : m * 2 ^ (a - b) * 2 ^ b = v * 2 ^ b := by
        rw [Nat.mul_assoc, ← Nat.pow_add, Nat.sub_add_cancel whole, same]
      have product := Nat.eq_of_mul_eq_mul_right (Nat.two_pow_pos b) split
      have scale : v.log2 - 52 = a - b := by omega
      rw [scale, ← product, Nat.mul_mod_left]
    · have scale : v.log2 - 52 = 0 := by omega
      rw [scale, Nat.pow_zero, Nat.mod_one]
  have unit := Nat.two_pow_pos (v.log2 - 52)
  omega

/-- A digit after the first rounding falls off. -/
lemma rounded_step (large : 2 ^ 53 ≤ rounded n) (digit : d < 8) :
    rounded (8 * rounded n + d) = rounded n * 8 := by
  obtain ⟨m, e, scaled, -⟩ := exists_scaled (ne_zero_of_rounded large)
  have front : (8 * rounded n + d) / 2 ^ 3 = rounded n := by omega
  have kept := rounded_eq_iff (n := 8 * rounded n + d) (a := 3) (by omega)
  rw [front, scaled.rounded_eq] at kept
  exact kept.mpr (fun lost => scaled.not_tiesDown lost.1)

lemma eight_pow (r : Nat) : 8 ^ r = 2 ^ (3 * r) := by
  rw [Nat.pow_mul]

/-- Of the first octal digits only some have 54 to 56 binary digits. -/
lemma front_unique {r' : Nat} (large : 2 ^ 53 ≤ n / 8 ^ r) (few : n / 8 ^ r < 2 ^ 56)
    (large' : 2 ^ 53 ≤ n / 8 ^ r') (few' : n / 8 ^ r' < 2 ^ 56) : r = r' := by
  rw [eight_pow] at large few large' few'
  have some : n / 2 ^ (3 * r) ≠ 0 := by omega
  have some' : n / 2 ^ (3 * r') ≠ 0 := by omega
  have log := log2_div some
  have log' := log2_div some'
  have low := (Nat.le_log2 some).mpr large
  have high := (Nat.log2_lt some).mpr few
  have low' := (Nat.le_log2 some').mpr large'
  have high' := (Nat.log2_lt some').mpr few'
  omega

lemma roundedEarly_iff (large : 2 ^ 53 ≤ n / 8 ^ r) (few : n / 8 ^ r < 2 ^ 56) :
    RoundedEarly n ↔ n < 2 ^ 1024 ∧ TiesDown (n / 8 ^ r) ∧ n % 8 ^ r ≠ 0 := by
  constructor
  · rintro ⟨finite, r', large', few', lost⟩
    obtain rfl := front_unique large few large' few'
    exact ⟨finite, lost⟩
  · rintro ⟨finite, lost⟩
    exact ⟨finite, r, large, few, lost⟩

lemma TiesDown.rounded_le (h : TiesDown n) : rounded n ≤ n := by
  rw [rounded, nearest, if_pos (.inr h)]
  exact Nat.div_mul_le_self n _

/-- A tie that is decided too early does not make a number too large or keep it from being so. -/
lemma TiesDown.overflow_iff (h : TiesDown (n / 8 ^ r)) (large : 2 ^ 53 ≤ n / 8 ^ r) (j : Nat) :
    2 ^ j ≤ rounded (n / 8 ^ r) * 8 ^ r ↔ 2 ^ j ≤ n := by
  have below : rounded (n / 8 ^ r) * 8 ^ r ≤ n :=
    (Nat.mul_le_mul_right _ h.rounded_le).trans (Nat.div_mul_le_self n _)
  constructor
  · exact fun le => le.trans below
  · intro le
    rw [eight_pow] at large ⊢
    have some : n / 2 ^ (3 * r) ≠ 0 := by omega
    have log := (Nat.le_log2 (ne_zero_of_div some)).mpr le
    rw [log2_div some] at log
    calc 2 ^ j ≤ 2 ^ ((n / 2 ^ (3 * r)).log2 + 3 * r) := Nat.pow_le_pow_right Nat.two_pos log
      _ = 2 ^ (n / 2 ^ (3 * r)).log2 * 2 ^ (3 * r) := Nat.pow_add ..
      _ ≤ rounded (n / 2 ^ (3 * r)) * 2 ^ (3 * r) :=
        Nat.mul_le_mul_right _ (pow_log2_le_rounded some)

end Binary

namespace Numeral

open Binary

variable {cs : List Char}

lemma octalNatural_concat (cs : List Char) (c : Char) :
    octalNatural (cs ++ [c]) = 8 * octalNatural cs + digitValue c :=
  List.foldl_concat ..

lemma octalRounded_concat (cs : List Char) (c : Char) :
    octalRounded (cs ++ [c]) = 8 * rounded (octalRounded cs) + digitValue c :=
  List.foldl_concat ..

lemma octal_concat (cs : List Char) (c : Char) :
    octal (cs ++ [c]) = octal cs * 8 + Float.ofNat (digitValue c) :=
  List.foldl_concat ..

lemma digitValue_lt {c : Char} (digit : isOctalDigit c) : digitValue c < 8 := by
  simp only [isOctalDigit, Bool.and_eq_true, decide_eq_true_eq] at digit
  have most : c.toNat ≤ '7'.toNat := digit.2
  change c.toNat - 48 < 8
  change c.toNat ≤ 55 at most
  omega

lemma octal_eq (digits : ∀ c ∈ cs, isOctalDigit c) : octal cs = float (octalRounded cs) := by
  induction cs using List.reverseRecOn with
  | nil => exact ofNat_eq 0
  | append_singleton cs c ih =>
    have digit := digitValue_lt (digits c (by simp))
    rw [octal_concat, octalRounded_concat, ih (fun d within => digits d (by simp [within])),
      float_step (by omega)]

/-- Up to 53 binary digits nothing is rounded. The first digits that need more are rounded, and the
others move the result without adding to it. -/
lemma octalRounded_cases (digits : ∀ c ∈ cs, isOctalDigit c) :
    octalNatural cs < 2 ^ 53 ∧ octalRounded cs = octalNatural cs ∨
      ∃ r, 2 ^ 53 ≤ octalNatural cs / 8 ^ r ∧ octalNatural cs / 8 ^ r < 2 ^ 56 ∧
        rounded (octalRounded cs) = rounded (octalNatural cs / 8 ^ r) * 8 ^ r := by
  induction cs using List.reverseRecOn with
  | nil => exact .inl ⟨by decide, rfl⟩
  | append_singleton cs c ih =>
    have digit := digitValue_lt (digits c (by simp))
    rw [octalNatural_concat, octalRounded_concat]
    rcases ih (fun d within => digits d (by simp [within])) with
      ⟨small, same⟩ | ⟨r, large, few, same⟩
    · rw [same, rounded_small small.le]
      by_cases small' : 8 * octalNatural cs + digitValue c < 2 ^ 53
      · exact .inl ⟨small', rfl⟩
      · right
        use 0
        simp only [Nat.pow_zero, Nat.div_one, Nat.mul_one, and_true]
        omega
    · right
      use r + 1
      have front :
          (8 * octalNatural cs + digitValue c) / 8 ^ (r + 1) = octalNatural cs / 8 ^ r := by
        rw [Nat.pow_succ', ← Nat.div_div_eq_div_mul]
        congr 1
        omega
      have wide : 2 ^ 53 ≤ rounded (octalRounded cs) := by
        rw [same]
        exact (pow_le_rounded large).trans (Nat.le_mul_of_pos_right _ (Nat.pow_pos (by decide)))
      rw [front, rounded_step wide digit, same, Nat.pow_succ, Nat.mul_assoc]
      exact ⟨large, few, rfl⟩

/-- An octal numeral denotes the number nearest to what its digits denote, unless a tie is decided
too early. -/
theorem octal_eq_iff (digits : ∀ c ∈ cs, isOctalDigit c) :
    octal cs = float (octalNatural cs) ↔ ¬RoundedEarly (octalNatural cs) := by
  rw [octal_eq digits]
  rcases octalRounded_cases digits with ⟨small, same⟩ | ⟨r, large, few, same⟩
  · rw [same]
    simp only [true_iff]
    rintro ⟨-, r, large, -⟩
    have less := Nat.div_le_self (octalNatural cs) (8 ^ r)
    omega
  · have kept : rounded (octalRounded cs) = rounded (octalNatural cs) ↔
        ¬(TiesDown (octalNatural cs / 8 ^ r) ∧ octalNatural cs % 8 ^ r ≠ 0) := by
      rw [same, eq_comm, eight_pow]
      exact rounded_eq_iff (by rwa [← eight_pow])
    rw [float_inj, kept, roundedEarly_iff large few]
    by_cases lost : TiesDown (octalNatural cs / 8 ^ r) ∧ octalNatural cs % 8 ^ r ≠ 0
    · have overflow := lost.1.overflow_iff large 1024
      rw [← same] at overflow
      simp only [lost, not_true, false_or, and_true, not_false_eq_true, ne_eq, overflow, not_lt]
      exact ⟨And.left, fun large => ⟨large, pow_le_rounded large⟩⟩
    · simp only [lost, not_false_eq_true, true_or, and_false]

end Numeral

end Lox
