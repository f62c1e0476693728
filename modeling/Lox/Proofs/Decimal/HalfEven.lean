import Lox.Proofs.Decimal.Binary

/-!
Rounding to the nearest number of 53 binary digits, a half to the even one. The mantissa that is
shifted digit by digit, with one digit and a mark kept of what falls off, comes to the quotient by a
power of two rounded in one step; and the rounding does not depend on the scale.
-/

namespace Lox.Binary

open Float.Model (Format UnpackedFloat totalExponent)
open Float.Model.UnpackedFloat

variable {m n k j a b : Nat} {e : Int} {s : Sign}

/-- The natural number nearest to `n / 2 ^ k`, and of two the even one. -/
def nearest (n k : Nat) : Nat :=
  if 2 * (n % 2 ^ k) < 2 ^ k ∨ 2 * (n % 2 ^ k) = 2 ^ k ∧ n / 2 ^ k % 2 = 0 then n / 2 ^ k
  else n / 2 ^ k + 1

lemma nearest_zero (n : Nat) : nearest n 0 = n := by
  simp [nearest, Nat.mod_one]

lemma nearest_bounds (n k : Nat) : n / 2 ^ k ≤ nearest n k ∧ nearest n k ≤ n / 2 ^ k + 1 := by
  unfold nearest
  split <;> omega

/-- Factors that both have in common do not count. -/
lemma nearest_mul_pow (n k j : Nat) : nearest (n * 2 ^ j) (k + j) = nearest n k := by
  have unit : 0 < 2 ^ j := Nat.two_pow_pos j
  have quotient : n * 2 ^ j / 2 ^ (k + j) = n / 2 ^ k := by
    rw [Nat.pow_add, Nat.mul_div_mul_right _ _ unit]
  have rest : n * 2 ^ j % 2 ^ (k + j) = n % 2 ^ k * 2 ^ j := by
    rw [Nat.pow_add, Nat.mul_mod_mul_right]
  have below : 2 * (n % 2 ^ k * 2 ^ j) < 2 ^ (k + j) ↔ 2 * (n % 2 ^ k) < 2 ^ k := by
    rw [Nat.pow_add, ← Nat.mul_assoc, Nat.mul_lt_mul_right unit]
  have half : 2 * (n % 2 ^ k * 2 ^ j) = 2 ^ (k + j) ↔ 2 * (n % 2 ^ k) = 2 ^ k := by
    rw [Nat.pow_add, ← Nat.mul_assoc, Nat.mul_left_inj unit.ne']
  simp only [nearest, quotient, rest, below, half]

/-- What is left of a mantissa after a shift: the quotient, the first digit that fell off, and
whether any other one did. -/
lemma shiftRight_eq (n k : Nat) : ExtendedMantissa.ofMantissaAndAccuracy n .exact >>> (k + 1) =
    ⟨n / 2 ^ (k + 1), n / 2 ^ k % 2 != 0, n % 2 ^ k != 0⟩ := by
  induction k with
  | zero =>
    change ExtendedMantissa.shiftRightOne ⟨n, false, false⟩ = _
    simp [ExtendedMantissa.shiftRightOne, Nat.mod_one]
  | succ k ih =>
    change (ExtendedMantissa.ofMantissaAndAccuracy n .exact >>> (k + 1)).shiftRightOne = _
    rw [ih, ExtendedMantissa.shiftRightOne, Nat.div_div_eq_div_mul, ← Nat.pow_succ]
    simp only [ExtendedMantissa.mk.injEq, true_and]
    have unit : 2 ^ k ≠ 0 := (Nat.two_pow_pos k).ne'
    rw [Bool.eq_iff_iff]
    simp only [Bool.or_eq_true, bne_iff_ne, Nat.mod_pow_succ, ne_eq, Nat.add_eq_zero_iff,
      Nat.mul_eq_zero, unit, false_or]
    tauto

/-- A shifted mantissa is rounded as the quotient is. -/
lemma roundedMantissa_eq (n k : Nat) :
    (ExtendedMantissa.ofMantissaAndAccuracy n .exact >>> k).roundedMantissa = nearest n k := by
  cases k with
  | zero => exact (nearest_zero n).symm
  | succ k =>
    have less : n % 2 ^ k < 2 ^ k := Nat.mod_lt _ (Nat.two_pow_pos k)
    have twice : 2 ^ (k + 1) = 2 * 2 ^ k := Nat.pow_succ'
    rw [shiftRight_eq, nearest, Nat.mod_pow_succ]
    generalize n / 2 ^ (k + 1) = quotient
    generalize n % 2 ^ k = rest at *
    rw [twice]
    rcases Nat.mod_two_eq_zero_or_one (n / 2 ^ k) with zero | one
    · have below : 2 * (rest + 2 ^ k * 0) < 2 * 2 ^ k := by omega
      rw [zero, if_pos (.inl below)]
      by_cases none : rest = 0
      · rw [none]
        rfl
      · rw [bne_iff_ne.mpr none]
        rfl
    · have above : ¬2 * (rest + 2 ^ k * 1) < 2 * 2 ^ k := by omega
      rw [one]
      by_cases none : rest = 0
      · subst none
        have half : 2 * (0 + 2 ^ k * 1) = 2 * 2 ^ k := by omega
        change quotient + quotient % 2 = _
        rcases Nat.mod_two_eq_zero_or_one quotient with even | odd
        · rw [if_pos (.inr ⟨half, even⟩), even, Nat.add_zero]
        · rw [odd, if_neg]
          rintro (below | ⟨-, even⟩)
          · exact above below
          · cases even
      · have more : ¬2 * (rest + 2 ^ k * 1) = 2 * 2 ^ k := by omega
        rw [bne_iff_ne.mpr none, if_neg]
        · rfl
        · rintro (below | ⟨half, -⟩)
          · exact above below
          · exact more half

/-- A mantissa is shifted down to 53 digits, or as far as the least exponent asks. -/
lemma shiftToTargetExponent_eq (shift : (max (n.log2 + e - 52) (-1074) - e).toNat = k) :
    shiftToTargetExponent .binary64 n e .exact =
      (ExtendedMantissa.ofMantissaAndAccuracy n .exact >>> k, e + k) := by
  have target : Format.binary64.targetExponent (totalExponent n e) =
      max (n.log2 + e - 52) (-1074) := by
    change max (n.log2 + 1 + e - (53 : Nat)) (-1074) = _
    omega
  simp only [shiftToTargetExponent, shiftToExponent, target, shift]

/-- A number of at most 53 digits whose exponent is not below the least one is not shifted. -/
lemma shiftToTargetExponent_fits (fits : n < 2 ^ 53) (least : -1074 ≤ e) :
    shiftToTargetExponent .binary64 n e .exact = (⟨n, false, false⟩, e) := by
  have log : n.log2 ≤ 52 := by
    by_cases zero : n = 0
    · rw [zero]
      decide
    · have high := (Nat.log2_lt zero).mpr fits
      omega
  have shift : (max (n.log2 + e - 52) (-1074) - e).toNat = 0 := by omega
  rw [shiftToTargetExponent_eq shift, Nat.cast_zero, add_zero]
  rfl

/-- One digit too many is a zero. -/
lemma shiftToTargetExponent_carry (carry : n = 2 ^ 53) (least : -1074 ≤ e) :
    shiftToTargetExponent .binary64 n e .exact = (⟨2 ^ 52, false, false⟩, e + 1) := by
  have log : n.log2 = 53 := by rw [carry, Nat.log2_two_pow]
  have shift : (max (n.log2 + e - 52) (-1074) - e).toNat = 1 := by omega
  rw [shiftToTargetExponent_eq shift, shiftRight_eq n 0, carry]
  rfl

/-- The mantissa of a number of at least 53 digits. -/
lemma nearest_mantissa (large : 2 ^ 52 ≤ n) :
    2 ^ 52 ≤ nearest n (n.log2 - 52) ∧ nearest n (n.log2 - 52) ≤ 2 ^ 53 := by
  have some : n ≠ 0 := by omega
  have log := (Nat.le_log2 some).mpr large
  obtain ⟨low, high⟩ := nearest_bounds n (n.log2 - 52)
  have split : ∀ i, 2 ^ (n.log2 - 52) * 2 ^ (52 + i) = 2 ^ (n.log2 + i) := by
    intro i
    rw [← Nat.pow_add]
    congr 1
    omega
  have least : 2 ^ 52 ≤ n / 2 ^ (n.log2 - 52) := by
    rw [Nat.le_div_iff_mul_le (Nat.two_pow_pos _), Nat.mul_comm]
    exact (split 0).trans_le (Nat.log2_self_le some)
  have most : n / 2 ^ (n.log2 - 52) < 2 ^ 53 := by
    rw [Nat.div_lt_iff_lt_mul (Nat.two_pow_pos _), Nat.mul_comm]
    exact Nat.lt_log2_self.trans_eq (split 1).symm
  omega

/-- A number of at least 53 digits is rounded to a mantissa of 53 digits. -/
lemma roundWithAccuracy_eq (large : 2 ^ 52 ≤ n) (least : -1022 ≤ n.log2 + e) (s : Sign)
    (positive : 0 < nearest n (n.log2 - 52)) :
    roundWithAccuracy .binary64 s n e .exact =
      if nearest n (n.log2 - 52) = 2 ^ 53 then
        .finite s (2 ^ 52) (e + n.log2 - 51) (Nat.two_pow_pos 52)
      else .finite s (nearest n (n.log2 - 52)) (e + n.log2 - 52) positive := by
  have log := (Nat.le_log2 (by omega)).mpr large
  obtain ⟨low, high⟩ := nearest_mantissa large
  have shift : (max (n.log2 + e - 52) (-1074) - e).toNat = n.log2 - 52 := by omega
  simp only [roundWithAccuracy, shiftToTargetExponent_eq shift, roundedMantissa_eq]
  by_cases carry : nearest n (n.log2 - 52) = 2 ^ 53
  · rw [if_pos carry]
    simp only [shiftToTargetExponent_carry carry (by omega : -1074 ≤ e + (n.log2 - 52 : Nat)),
      Nat.reducePow, OfNat.ofNat_ne_zero, reduceDIte, UnpackedFloat.finite.injEq, true_and]
    omega
  · rw [if_neg carry]
    simp only [shiftToTargetExponent_fits (by omega : nearest n (n.log2 - 52) < 2 ^ 53)
      (by omega : -1074 ≤ e + (n.log2 - 52 : Nat)), positive.ne', reduceDIte,
      UnpackedFloat.finite.injEq, true_and]
    omega

end Lox.Binary
