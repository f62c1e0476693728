import Lox.Decimal.Shortest
import Mathlib.Algebra.Order.Field.Rat
import Mathlib.Data.Rat.Cast.Order
import Mathlib.Tactic.FieldSimp
import Mathlib.Tactic.Linarith
import Mathlib.Tactic.Positivity
import Mathlib.Tactic.Ring

/-!
The rationals that round to a binary64 number. They are an interval around it, and the intervals of
different numbers have nothing in common: where two of them meet, one does not own its end.
-/

namespace Lox

/-- The mantissas and exponents of the positive binary64 numbers. -/
structure Magnitude.Normal (m : Nat) (q : Int) : Prop where
  positive : 0 < m
  fits : m < 2 ^ 53
  least : -1074 ≤ q
  most : q ≤ 971
  normal : q = -1074 ∨ 2 ^ 52 ≤ m

namespace Decimal

/-- The rational that a decimal denotes. -/
def value (d : Decimal) : ℚ :=
  d.coefficient * 10 ^ d.exponent

end Decimal

/-- A power with an integral exponent, by two natural ones of which one is zero. -/
lemma zpow_mul_pow_toNat {b : ℚ} (some : b ≠ 0) (k : Int) :
    b ^ k * b ^ (-k).toNat = b ^ k.toNat := by
  rcases Int.le_total 0 k with up | down
  · obtain ⟨n, rfl⟩ := Int.eq_ofNat_of_zero_le up
    simp
  · obtain ⟨n, hn⟩ := Int.eq_ofNat_of_zero_le (Int.neg_nonneg.mpr down)
    obtain rfl : k = -n := by omega
    simp [some]

namespace Rounding

variable {r : Rounding} {x : ℚ} {m m' : Nat} {q q' : Int}

/-- A rational that rounds to the number. -/
def Contains (r : Rounding) (x : ℚ) : Prop :=
  r.low ≤ x * r.den ∧ x * r.den ≤ r.high ∧
    (r.closed = false → r.low < x * r.den ∧ x * r.den < r.high)

lemma holds_iff (r : Rounding) (c : Nat) (k : Int) :
    r.holds c k = true ↔ r.Contains (c * 10 ^ k) := by
  have unit : (0 : ℚ) < 10 ^ (-k).toNat := by positivity
  have scaled : (c : ℚ) * 10 ^ k.toNat * r.den = c * 10 ^ k * r.den * 10 ^ (-k).toNat := by
    rw [← zpow_mul_pow_toNat (by norm_num) k]
    ring
  have above (n : Nat) : n * Nat.pow 10 (-k).toNat ≤ c * Nat.pow 10 k.toNat * r.den ↔
      (n : ℚ) ≤ c * 10 ^ k * r.den := by
    rw [← Nat.cast_le (α := ℚ)]
    push_cast [Nat.pow_eq]
    rw [scaled, mul_le_mul_iff_left₀ unit]
  have under (n : Nat) : c * Nat.pow 10 k.toNat * r.den ≤ n * Nat.pow 10 (-k).toNat ↔
      c * 10 ^ k * r.den ≤ (n : ℚ) := by
    rw [← Nat.cast_le (α := ℚ)]
    push_cast [Nat.pow_eq]
    rw [scaled, mul_le_mul_iff_left₀ unit]
  unfold holds
  split
  · next closed =>
    simp only [Bool.and_eq_true, decide_eq_true_eq, above, under]
    constructor
    · rintro ⟨low, high⟩
      exact ⟨low, high, fun opened => absurd closed (by simp [opened])⟩
    · intro h
      exact ⟨h.1, h.2.1⟩
  · next opened =>
    simp only [Bool.and_eq_true, decide_eq_true_eq, ← not_le, above, under]
    constructor
    · rintro ⟨low, high⟩
      exact ⟨le_of_not_ge low, le_of_not_ge high, fun _ => ⟨not_le.mp low, not_le.mp high⟩⟩
    · intro h
      obtain ⟨low, high⟩ := h.2.2 (Bool.eq_false_iff.mpr opened)
      exact ⟨not_le.mpr low, not_le.mpr high⟩

/-- How far the interval of a mantissa goes down, in quarters of its last place. -/
def gap (m : Nat) : Nat :=
  if m = 2 ^ 52 then 1 else 2

/-- The interval of a number, in quarters of its last place. Its ends belong to an even mantissa. -/
lemma contains_ofBinary : (ofBinary m q).Contains x ↔
    ((4 * m - gap m : Nat) : ℚ) * 2 ^ (q - 2) ≤ x ∧ x ≤ (4 * m + 2 : Nat) * 2 ^ (q - 2) ∧
      (m % 2 = 1 →
        ((4 * m - gap m : Nat) : ℚ) * 2 ^ (q - 2) < x ∧ x < (4 * m + 2 : Nat) * 2 ^ (q - 2)) := by
  have den : (0 : ℚ) < 2 ^ (2 - q).toNat := by positivity
  have up : (2 : ℚ) ^ (q - 2).toNat = 2 ^ (q - 2) * 2 ^ (2 - q).toNat := by
    rw [← zpow_mul_pow_toNat (by norm_num) (q - 2), neg_sub]
  have ends (n : Nat) : ((n * Nat.pow 2 (q - 2).toNat : Nat) : ℚ) =
      n * 2 ^ (q - 2) * 2 ^ (2 - q).toNat := by
    push_cast [Nat.pow_eq]
    rw [up, mul_assoc]
  have scale : ((Nat.pow 2 (2 - q).toNat : Nat) : ℚ) = 2 ^ (2 - q).toNat := by
    push_cast [Nat.pow_eq]
    rfl
  have closed : ((m % 2 == 0) = false) ↔ m % 2 = 1 := by
    rw [beq_eq_false_iff_ne]
    omega
  change (((4 * m - gap m) * Nat.pow 2 (q - 2).toNat : Nat) : ℚ) ≤
      x * (Nat.pow 2 (2 - q).toNat : Nat) ∧
    x * (Nat.pow 2 (2 - q).toNat : Nat) ≤ ((4 * m + 2) * Nat.pow 2 (q - 2).toNat : Nat) ∧
    ((m % 2 == 0) = false → (((4 * m - gap m) * Nat.pow 2 (q - 2).toNat : Nat) : ℚ) <
      x * (Nat.pow 2 (2 - q).toNat : Nat) ∧
      x * (Nat.pow 2 (2 - q).toNat : Nat) < ((4 * m + 2) * Nat.pow 2 (q - 2).toNat : Nat)) ↔ _
  rw [ends, ends, scale, closed, mul_le_mul_iff_left₀ den, mul_le_mul_iff_left₀ den,
    mul_lt_mul_iff_left₀ den, mul_lt_mul_iff_left₀ den]

/-- The interval of a number ends before that of a larger one begins, or there, and then one of them
does not own the end. -/
lemma high_le_low {j : Nat} (h : Magnitude.Normal m q) (h' : Magnitude.Normal m' (q + j))
    (less : j = 0 → m < m') : 4 * m + 2 ≤ (4 * m' - gap m') * 2 ^ j ∧
      (4 * m + 2 = (4 * m' - gap m') * 2 ^ j → m % 2 = 1 ∨ m' % 2 = 1) := by
  have fits := h.fits
  cases j with
  | zero =>
    have less := less rfl
    unfold gap
    split <;> omega
  | succ j =>
    have large : 2 ^ 52 ≤ m' := by
      have normal := h'.normal
      have least := h.least
      omega
    have twice : (4 * m' - gap m') * 2 ^ (j + 1) = (4 * m' - gap m') * 2 * 2 ^ j := by
      rw [Nat.pow_succ, Nat.mul_comm (2 ^ j), Nat.mul_assoc]
    have one : 1 ≤ 2 ^ j := Nat.one_le_two_pow
    have first : 4 * m + 2 ≤ (4 * m' - gap m') * 2 := by
      unfold gap
      split <;> omega
    have others := Nat.le_mul_of_pos_right ((4 * m' - gap m') * 2) one
    rw [twice]
    refine ⟨first.trans others, fun same => ?_⟩
    left
    have tight : 4 * m + 2 = (4 * m' - gap m') * 2 := by omega
    unfold gap at tight
    split at tight <;> omega

/-- No rational rounds to a number and to a larger one. -/
lemma not_contains_larger {j : Nat} (h : Magnitude.Normal m q) (h' : Magnitude.Normal m' (q + j))
    (less : j = 0 → m < m') (hx : (ofBinary m q).Contains x)
    (hx' : (ofBinary m' (q + j)).Contains x) : False := by
  obtain ⟨apart, ends⟩ := high_le_low h h' less
  rw [contains_ofBinary] at hx hx'
  obtain ⟨-, high, inside⟩ := hx
  obtain ⟨low, -, inside'⟩ := hx'
  have unit : (0 : ℚ) < 2 ^ (q - 2) := zpow_pos (by norm_num) (q - 2)
  have scale : ((4 * m' - gap m' : Nat) : ℚ) * 2 ^ (q + j - 2) =
      ((4 * m' - gap m') * 2 ^ j : Nat) * 2 ^ (q - 2) := by
    rw [show q + j - 2 = j + (q - 2) by ring, zpow_add₀ (by norm_num), zpow_natCast]
    push_cast
    ring
  rw [scale] at low inside'
  have meet : ((4 * m' - gap m') * 2 ^ j : Nat) ≤ 4 * m + 2 := by
    have both := (mul_le_mul_iff_left₀ unit).mp (low.trans high)
    exact_mod_cast both
  have same := Nat.le_antisymm apart meet
  rcases ends same with odd | odd
  · have strict := low.trans_lt (inside odd).2
    rw [same] at strict
    exact lt_irrefl _ strict
  · have strict := (inside' odd).1.trans_le high
    rw [same] at strict
    exact lt_irrefl _ strict

/-- A rational rounds to one number at most. -/
theorem contains_unique (h : Magnitude.Normal m q) (h' : Magnitude.Normal m' q')
    (hx : (ofBinary m q).Contains x) (hx' : (ofBinary m' q').Contains x) : m = m' ∧ q = q' := by
  rcases lt_trichotomy q q' with less | rfl | greater
  · obtain ⟨j, rfl⟩ := Int.le.dest less.le
    exact (not_contains_larger h h' (by omega) hx hx').elim
  · have still : q + (0 : Nat) = q := by simp
    rcases lt_trichotomy m m' with less | rfl | greater
    · rw [← still] at h' hx'
      exact (not_contains_larger h h' (fun _ => less) hx hx').elim
    · exact ⟨rfl, rfl⟩
    · rw [← still] at h hx
      exact (not_contains_larger h' h (fun _ => greater) hx' hx).elim
  · obtain ⟨j, rfl⟩ := Int.le.dest greater.le
    exact (not_contains_larger h' h (by omega) hx' hx).elim

end Rounding

end Lox
