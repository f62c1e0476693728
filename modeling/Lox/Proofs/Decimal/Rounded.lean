import Lox.Proofs.Decimal.Natural
import Lox.Proofs.Decimal.Written

/-!
Natural numbers are rounded to the binary64 number whose interval they lie in, and those above all
intervals to the infinity. There is one such number for each of them.
-/

namespace Lox.Binary

variable {m n k : Nat} {e : Int} {x y : Float}

/-- Half a step above the greatest number. -/
def top : Nat :=
  (2 ^ 55 - 2) * 2 ^ 969

/-- What natural numbers round to: the number whose interval they lie in, or the infinity. -/
def RoundsTo (n : Nat) : Magnitude → Prop
  | .zero => n = 0
  | .finite m e => (Rounding.ofBinary m e).Contains n
  | .infinite => top ≤ n
  | .nan => False

/-- The binary64 number nearest to a natural number, and of two the one with the even mantissa. -/
structure IsNearest (n : Nat) (x : Float) : Prop where
  positive : signBit x.toBits.toNat = false
  rounds : RoundsTo n (Magnitude.ofBits x.toBits.toNat)

/-! ## Intervals of natural numbers -/

/-- A number is rounded by half a step at most, and by less to an odd one. -/
lemma nearest_half (n k : Nat) : 2 * (nearest n k * 2 ^ k) ≤ 2 * n + 2 ^ k ∧
    2 * n ≤ 2 * (nearest n k * 2 ^ k) + 2 ^ k ∧
    (nearest n k % 2 = 1 → 2 * (nearest n k * 2 ^ k) < 2 * n + 2 ^ k ∧
      2 * n < 2 * (nearest n k * 2 ^ k) + 2 ^ k) := by
  have whole := Nat.div_add_mod' n (2 ^ k)
  have less := Nat.mod_lt n (Nat.two_pow_pos k)
  unfold nearest
  split
  · omega
  · rw [Nat.add_mul, Nat.one_mul]
    omega

/-- The interval of a number in parts of its exponent. -/
lemma contains_natural (exponent : e = k - 52) : (Rounding.ofBinary m e).Contains n ↔
    (4 * m - Rounding.gap m) * 2 ^ k ≤ 4 * (n * 2 ^ 52) ∧ 4 * (n * 2 ^ 52) ≤ (4 * m + 2) * 2 ^ k ∧
      (m % 2 = 1 → (4 * m - Rounding.gap m) * 2 ^ k < 4 * (n * 2 ^ 52) ∧
        4 * (n * 2 ^ 52) < (4 * m + 2) * 2 ^ k) := by
  have unit : (0 : ℚ) < 2 ^ 54 := by positivity
  have scale (a : Nat) : (a : ℚ) * 2 ^ (e - 2) * 2 ^ 54 = (a * 2 ^ k : Nat) := by
    have power : (2 : ℚ) ^ (e - 2) * 2 ^ 54 = 2 ^ k := by
      rw [← zpow_natCast, ← zpow_natCast, ← zpow_add₀ (by norm_num), exponent]
      congr 1
      push_cast
      ring
    rw [mul_assoc, power]
    push_cast
    rfl
  have number : (n : ℚ) * 2 ^ 54 = (4 * (n * 2 ^ 52) : Nat) := by
    push_cast
    ring
  have above (a : Nat) : (a : ℚ) * 2 ^ (e - 2) ≤ n ↔ a * 2 ^ k ≤ 4 * (n * 2 ^ 52) := by
    rw [← mul_le_mul_iff_left₀ unit, scale, number, Nat.cast_le]
  have below (a : Nat) : (n : ℚ) ≤ a * 2 ^ (e - 2) ↔ 4 * (n * 2 ^ 52) ≤ a * 2 ^ k := by
    rw [← mul_le_mul_iff_left₀ unit, scale, number, Nat.cast_le]
  rw [Rounding.contains_ofBinary]
  simp only [above, below, ← not_le]

/-- A natural number lies in the interval of the number that it is rounded to. -/
lemma Scaled.contains (some : n ≠ 0) (h : Scaled m e (rounded n)) :
    (Rounding.ofBinary m e).Contains n := by
  obtain ⟨low, high, odd⟩ := nearest_half (n * 2 ^ 52) n.log2
  have least : 2 ^ 52 * 2 ^ n.log2 ≤ n * 2 ^ 52 := by
    rw [Nat.mul_comm n]
    exact Nat.mul_le_mul_left _ (Nat.log2_self_le some)
  rcases scaled_cases some with ⟨fits, scaled⟩ | ⟨carry, scaled⟩
  · obtain ⟨rfl, rfl⟩ := h.mantissa_unique scaled
    rw [contains_natural rfl, Nat.sub_mul, Nat.add_mul, Nat.mul_assoc 4]
    generalize nearest (n * 2 ^ 52) n.log2 = c at *
    unfold Rounding.gap
    split
    -- Below a power of two the interval is half as long, but nothing is rounded up to it.
    · next power =>
      subst power
      omega
    · refine ⟨by omega, by omega, fun last => ?_⟩
      obtain ⟨low, high⟩ := odd last
      omega
  · obtain ⟨rfl, rfl⟩ := h.mantissa_unique scaled
    have exponent : (n.log2 : Int) - 51 = (n.log2 + 1 : Nat) - 52 := by omega
    have twice : 2 ^ (n.log2 + 1) = 2 * 2 ^ n.log2 := Nat.pow_succ'
    rw [contains_natural exponent, twice, Rounding.gap, if_pos rfl]
    rw [carry] at low high
    omega

/-- The intervals of numbers begin above zero and end half a step above the greatest number. -/
lemma contains_range (h : Magnitude.Normal m e) (contains : (Rounding.ofBinary m e).Contains n) :
    n ≠ 0 ∧ n < top := by
  constructor
  · rintro rfl
    rw [Nat.cast_zero] at contains
    exact Layout.not_contains_zero h contains
  · have fits := h.fits
    have last : e - 2 ≤ (969 : Nat) := by
      have most := h.most
      omega
    have unit := zpow_le_zpow_right₀ (by norm_num : 1 ≤ (2 : ℚ)) last
    rw [zpow_natCast] at unit
    rw [Rounding.contains_ofBinary] at contains
    obtain ⟨-, high, odd⟩ := contains
    rw [top]
    generalize 969 = j at *
    have bound : (n : ℚ) < (2 ^ 55 - 2 : Nat) * 2 ^ j := by
      by_cases last : m % 2 = 1
      · have most : 4 * m + 2 ≤ 2 ^ 55 - 2 := by omega
        calc (n : ℚ) < (4 * m + 2 : Nat) * 2 ^ (e - 2) := (odd last).2
          _ ≤ (2 ^ 55 - 2 : Nat) * 2 ^ j := by gcongr
      · have most : 4 * m + 2 < 2 ^ 55 - 2 := by omega
        calc (n : ℚ) ≤ (4 * m + 2 : Nat) * 2 ^ (e - 2) := high
          _ ≤ (4 * m + 2 : Nat) * 2 ^ j := by gcongr
          _ < (2 ^ 55 - 2 : Nat) * 2 ^ j := by gcongr
    exact_mod_cast bound

lemma top_le (overflow : 2 ^ 1024 ≤ rounded n) : top ≤ n := by
  have ends : 2 ^ 1024 = top + 2 ^ 970 := by decide +kernel
  have step := (nearest_half n (n.log2 - 52)).1
  have some := ne_zero_of_rounded overflow
  rw [rounded] at overflow
  by_contra below
  have small : n < 2 ^ 1024 := by omega
  have log := (Nat.log2_lt some).mpr small
  have unit := Nat.pow_le_pow_right Nat.two_pos (by omega : n.log2 - 52 ≤ 970 + 1)
  generalize 970 = j at *
  rw [Nat.pow_succ'] at unit
  omega

/-- A natural number is rounded to the number nearest to it. -/
lemma isNearest_float (n : Nat) : IsNearest n (float n) := by
  obtain ⟨size, sign⟩ := ofBits_eq (float n)
  by_cases none : n = 0
  · subst none
    rw [unpack_float_zero] at size sign
    constructor
    · exact sign nofun
    · rw [size]
      rfl
  · by_cases small : rounded n < 2 ^ 1024
    · obtain ⟨m, e, positive, eq, scaled⟩ := unpack_float none small
      rw [eq] at size sign
      constructor
      · exact sign nofun
      · rw [size]
        exact scaled.contains none
    · rw [float_overflow (by omega), unpack_infinity] at size sign
      constructor
      · rw [float_overflow (by omega)]
        exact sign nofun
      · rw [float_overflow (by omega), size]
        exact top_le (by omega)

/-- The intervals tell the size of the nearest number. -/
lemma IsNearest.cases (h : IsNearest n x) :
    n = 0 ∧ Magnitude.ofBits x.toBits.toNat = .zero ∨
      top ≤ n ∧ Magnitude.ofBits x.toBits.toNat = .infinite ∨
      (n ≠ 0 ∧ n < top) ∧ ∃ m e, Magnitude.ofBits x.toBits.toNat = .finite m e ∧
        Magnitude.Normal m e ∧ (Rounding.ofBinary m e).Contains n := by
  have rounds := h.rounds
  cases size : Magnitude.ofBits x.toBits.toNat with rw [size] at rounds
  | nan => exact rounds.elim
  | zero => exact .inl ⟨rounds, rfl⟩
  | infinite => exact .inr (.inl ⟨rounds, rfl⟩)
  | finite m e =>
    have fine := Magnitude.normal_of_bits size
    exact .inr (.inr ⟨contains_range fine rounds, m, e, rfl, fine, rounds⟩)

/-- There is only one nearest number. -/
lemma IsNearest.unique (hx : IsNearest n x) (hy : IsNearest n y) : x = y := by
  have above : 0 < top := by decide +kernel
  have sizes : Magnitude.ofBits x.toBits.toNat = Magnitude.ofBits y.toBits.toNat ∧
      Magnitude.ofBits x.toBits.toNat ≠ .nan := by
    rcases hx.cases with ⟨zero, size⟩ | ⟨large, size⟩ | ⟨range, m, e, size, fine, here⟩ <;>
      rcases hy.cases with
        ⟨zero', size'⟩ | ⟨large', size'⟩ | ⟨range', m', e', size', fine', here'⟩ <;>
      rw [size, size']
    · exact ⟨rfl, nofun⟩
    · omega
    · omega
    · omega
    · exact ⟨rfl, nofun⟩
    · omega
    · omega
    · omega
    · obtain ⟨rfl, rfl⟩ := Rounding.contains_unique fine fine' here here'
      exact ⟨rfl, nofun⟩
  obtain ⟨same, number⟩ := sizes
  have bits := Magnitude.bits_unique x.toBits.toNat_lt y.toBits.toNat_lt
    (hx.positive.trans hy.positive.symm) same number
  exact eq_of_toBits (UInt64.toNat_inj.mp bits)

/-- The numbers that a program reads for natural numbers are the nearest ones. -/
theorem isNearest_iff : IsNearest n x ↔ x = float n := by
  constructor
  · exact fun nearest => nearest.unique (isNearest_float n)
  · rintro rfl
    exact isNearest_float n

end Lox.Binary
