import Lox.Proofs.Decimal.Rounding

/-!
The shortest decimal of a binary64 number rounds to the number: on a grid of seventeen digits a
decimal lies within every interval, so the search comes to an end before its last grid.
-/

namespace Lox

lemma zpow_pow_comm (a : ℚ) (t : Int) (n : Nat) : (a ^ t) ^ n = (a ^ n) ^ t := by
  rw [← zpow_natCast, ← zpow_natCast, ← zpow_mul, ← zpow_mul, mul_comm]

lemma zpow_anti {a c : ℚ} {n : Int} (down : n ≤ 0) (pos : 0 < a) (le : a ≤ c) :
    c ^ n ≤ a ^ n := by
  obtain ⟨k, hk⟩ := Int.eq_ofNat_of_zero_le (Int.neg_nonneg.mpr down)
  obtain rfl : n = -k := by omega
  rw [zpow_neg, zpow_neg, zpow_natCast, zpow_natCast]
  exact inv_anti₀ (pow_pos pos k) (pow_le_pow_left₀ pos.le le k)

/-- A power of ten is below the power of two that its exponent estimates. -/
lemma ten_zpow_le_two_zpow {t b : Int} (estimate : t * 100000 + 200000 ≤ b * 30103)
    (least : -1100 ≤ b) (most : b ≤ 1100) : (10 : ℚ) ^ t ≤ 2 ^ (b - 1) := by
  have ten : (0 : ℚ) ≤ 10 ^ t := (zpow_pos (by norm_num) t).le
  have two : (0 : ℚ) ≤ 2 ^ (b - 1) := (zpow_pos (by norm_num) (b - 1)).le
  rcases Int.le_total 0 t with up | down
  · -- a thousand is below the tenth power of two
    rw [← pow_le_pow_iff_left₀ ten two (show 3 ≠ 0 by decide)]
    calc ((10 : ℚ) ^ t) ^ 3 = (10 ^ 3) ^ t := zpow_pow_comm 10 t 3
      _ ≤ (2 ^ 10) ^ t := zpow_le_zpow_left₀ up (by norm_num) (by norm_num)
      _ = 2 ^ (10 * t) := by rw [← zpow_natCast, ← zpow_mul]; rfl
      _ ≤ 2 ^ ((b - 1) * 3) := zpow_le_zpow_right₀ (by norm_num) (by omega)
      _ = (2 ^ (b - 1)) ^ 3 := by rw [zpow_mul]; rfl
  · by_cases some : 0 ≤ b - 1
    · exact (zpow_le_one_of_nonpos₀ (by norm_num) down).trans (one_le_zpow₀ (by norm_num) some)
    -- the power of two with exponent 93 is below that of ten with exponent 28
    rw [← pow_le_pow_iff_left₀ ten two (show 93 ≠ 0 by decide)]
    calc ((10 : ℚ) ^ t) ^ 93 = 10 ^ (t * 93) := by rw [zpow_mul]; rfl
      _ ≤ 10 ^ (28 * (b - 1)) := zpow_le_zpow_right₀ (by norm_num) (by omega)
      _ = (10 ^ 28) ^ (b - 1) := by rw [zpow_mul]; rfl
      _ ≤ (2 ^ 93) ^ (b - 1) := zpow_anti (by omega) (by norm_num) (by norm_num)
      _ = (2 ^ (b - 1)) ^ 93 := (zpow_pow_comm 2 (b - 1) 93).symm

namespace Rounding

variable {r : Rounding} {c k : Nat} {e : Int} {d : Decimal}

lemma onGrid?_holds {k : Int} (found : r.onGrid? k = some c) : r.holds c k = true := by
  simp only [onGrid?] at found
  split at found
  · next here above =>
    cases found
    split <;> assumption
  · next here _ =>
    cases found
    exact here
  · next _ above =>
    cases found
    exact above
  · cases found

/-- Where one of the grids holds a decimal that rounds to the number, such a decimal is found. -/
lemma firstGrid_holds {i n : Nat} {k : Int} (within : i < n)
    (found : (r.onGrid? (k - i)).isSome = true) :
    r.holds (r.firstGrid k n).coefficient (r.firstGrid k n).exponent = true := by
  induction n generalizing i k with
  | zero => cases within
  | succ n ih =>
    rw [firstGrid]
    cases here : r.onGrid? k with
    | some c => exact onGrid?_holds here
    | none =>
      cases i with
      | zero =>
        rw [show k - (0 : Nat) = k by simp, here] at found
        cases found
      | succ i =>
        have next : k - 1 - i = k - (i + 1 : Nat) := by push_cast; ring
        exact ih (Nat.lt_of_succ_lt_succ within) (by rw [next]; exact found)

lemma below_iff (r : Rounding) (e : Int) :
    r.below e = true ↔ (r.value : ℚ) < 10 ^ e * r.den := by
  have unit : (0 : ℚ) < 10 ^ (-e).toNat := by positivity
  have scaled : (r.den : ℚ) * 10 ^ e.toNat = 10 ^ e * r.den * 10 ^ (-e).toNat := by
    rw [← zpow_mul_pow_toNat (by norm_num) e]
    ring
  rw [below, decide_eq_true_eq, ← Nat.cast_lt (α := ℚ)]
  push_cast [Nat.pow_eq]
  rw [scaled, mul_lt_mul_iff_left₀ unit]

lemma leastAbove_reaches (r : Rounding) (e : Int) (n : Nat) :
    r.leastAbove e n = e ∨ r.below (r.leastAbove e n - 1) = false := by
  induction n generalizing e with
  | zero => exact .inl rfl
  | succ n ih =>
    rw [leastAbove]
    by_cases above : r.below e = true
    · rw [if_pos above]
      exact .inl rfl
    · rw [if_neg above]
      right
      rcases ih (e + 1) with same | reached
      · rw [same, add_sub_cancel_right]
        exact Bool.eq_false_iff.mpr above
      · exact reached

/-- The power of ten below the width of a number is not above the number. -/
lemma ten_zpow_width_le (some : 0 < r.value)
    (least : r.den.log2 ≤ r.value.log2 + 1100) (most : r.value.log2 ≤ r.den.log2 + 1100) :
    10 ^ (r.width - 1) * (r.den : ℚ) ≤ r.value := by
  let bits : Int := r.value.log2 - r.den.log2
  let estimate := Int.fdiv (bits * 30103) 100000 - 1
  have reaches : r.width = estimate ∨ r.below (r.width - 1) = false :=
    leastAbove_reaches r estimate 5
  rcases reaches with same | reached
  · have floor : estimate = bits * 30103 / 100000 - 1 :=
      congrArg (· - 1) (Int.fdiv_eq_ediv_of_nonneg _ (by decide))
    have bound : (10 : ℚ) ^ (estimate - 1) ≤ 2 ^ (bits - 1) :=
      ten_zpow_le_two_zpow (by omega) (by omega) (by omega)
    have den_lt : (r.den : ℚ) ≤ 2 ^ (r.den.log2 + 1) := by
      exact_mod_cast (Nat.lt_log2_self (n := r.den)).le
    have le_value : (2 : ℚ) ^ r.value.log2 ≤ r.value := by
      exact_mod_cast Nat.log2_self_le some.ne'
    rw [same]
    have two : (0 : ℚ) ≤ 2 ^ (bits - 1) := (zpow_pos (by norm_num) (bits - 1)).le
    calc 10 ^ (estimate - 1) * (r.den : ℚ) ≤ 2 ^ (bits - 1) * 2 ^ (r.den.log2 + 1) :=
          mul_le_mul bound den_lt (Nat.cast_nonneg r.den) two
      _ = 2 ^ r.value.log2 := by
        rw [← zpow_natCast, ← zpow_natCast, ← zpow_add₀ (by norm_num)]
        congr 1
        push_cast
        omega
      _ ≤ r.value := le_value
  · rw [Bool.eq_false_iff, ne_eq, below_iff, not_lt] at reached
    exact reached

lemma contains_of_inside {x : ℚ} (low : r.low < x * r.den) (high : x * r.den < r.high) :
    r.Contains x :=
  ⟨low.le, high.le, fun _ => ⟨low, high⟩⟩

/-- The neighbour below a number on the grid of step `10 ^ k`. -/
def floorOn (r : Rounding) (k : Int) : Nat :=
  r.value * Nat.pow 10 (-k).toNat / (r.den * Nat.pow 10 k.toNat)

/-- A number lies between its neighbours on a grid. -/
lemma floorOn_neighbours (den : 0 < r.den) (k : Int) :
    r.floorOn k * 10 ^ k * (r.den : ℚ) ≤ r.value ∧
      (r.value : ℚ) < (r.floorOn k + 1 : Nat) * 10 ^ k * (r.den : ℚ) := by
  have unit : (0 : ℚ) < 10 ^ (-k).toNat := by positivity
  have pos : 0 < r.den * Nat.pow 10 k.toNat := Nat.mul_pos den (Nat.pow_pos (by decide))
  have scaled (n : Nat) : ((n * (r.den * Nat.pow 10 k.toNat) : Nat) : ℚ) =
      n * 10 ^ k * r.den * 10 ^ (-k).toNat := by
    push_cast [Nat.pow_eq]
    rw [← zpow_mul_pow_toNat (by norm_num) k]
    ring
  have value : ((r.value * Nat.pow 10 (-k).toNat : Nat) : ℚ) = r.value * 10 ^ (-k).toNat := by
    push_cast [Nat.pow_eq]
    rfl
  constructor
  · have under := Nat.div_mul_le_self (r.value * Nat.pow 10 (-k).toNat)
      (r.den * Nat.pow 10 k.toNat)
    rw [← Nat.cast_le (α := ℚ), scaled, value, mul_le_mul_iff_left₀ unit] at under
    exact under
  · have larger := Nat.lt_mul_div_succ (r.value * Nat.pow 10 (-k).toNat) pos
    rw [Nat.mul_comm (r.den * Nat.pow 10 k.toNat), ← Nat.cast_lt (α := ℚ), scaled, value,
      mul_lt_mul_iff_left₀ unit] at larger
    exact larger

/-- A grid whose step is shorter than the interval has a decimal in it. -/
lemma onGrid?_isSome {k : Int} (den : 0 < r.den) (low : r.low < r.value) (high : r.value < r.high)
    (step : 10 ^ k * (r.den : ℚ) < r.high - r.low) : (r.onGrid? k).isSome = true := by
  obtain ⟨under, above⟩ := floorOn_neighbours den k
  have low' : (r.low : ℚ) < r.value := by exact_mod_cast low
  have high' : (r.value : ℚ) < r.high := by exact_mod_cast high
  have some : r.holds (r.floorOn k) k = true ∨ r.holds (r.floorOn k + 1) k = true := by
    rw [holds_iff, holds_iff]
    by_cases here : (r.low : ℚ) < r.floorOn k * 10 ^ k * r.den
    · exact .inl (contains_of_inside here (under.trans_lt high'))
    · right
      refine contains_of_inside (low'.trans above) ?_
      push_cast
      linarith
  unfold onGrid?
  dsimp only
  split
  · rfl
  · rfl
  · rfl
  · next here next =>
    change r.holds (r.floorOn k) k = false at here
    change r.holds (r.floorOn k + 1) k = false at next
    rw [here, next] at some
    simp at some

section

variable {m : Nat} {q : Int}

lemma ofBinary_low_lt (h : Magnitude.Normal m q) :
    (ofBinary m q).low < (ofBinary m q).value := by
  have positive := h.positive
  have less : 4 * m - gap m < 4 * m := by
    unfold gap
    split <;> omega
  exact Nat.mul_lt_mul_of_pos_right less (Nat.pow_pos (by decide))

lemma ofBinary_lt_high (m : Nat) (q : Int) : (ofBinary m q).value < (ofBinary m q).high :=
  Nat.mul_lt_mul_of_pos_right (by omega) (Nat.pow_pos (by decide))

lemma ofBinary_logs (h : Magnitude.Normal m q) :
    (ofBinary m q).den.log2 ≤ (ofBinary m q).value.log2 + 1100 ∧
      (ofBinary m q).value.log2 ≤ (ofBinary m q).den.log2 + 1100 := by
  have least := h.least
  have most := h.most
  have den : (ofBinary m q).den.log2 = (2 - q).toNat := Nat.log2_two_pow
  have value : (ofBinary m q).value.log2 < 55 + (q - 2).toNat := by
    have mantissa : 4 * m < 2 ^ 55 := by
      have fits := h.fits
      omega
    have some : (ofBinary m q).value ≠ 0 := (Nat.zero_le _).trans_lt (ofBinary_low_lt h) |>.ne'
    rw [Nat.log2_lt some, Nat.pow_add]
    exact Nat.mul_lt_mul_of_pos_right mantissa (Nat.pow_pos (by decide))
  omega

/-- The seventeenth digit of a number counts less than the length of its interval. -/
lemma ofBinary_step (h : Magnitude.Normal m q) :
    10 ^ ((ofBinary m q).width - 1 - 16) * ((ofBinary m q).den : ℚ) <
      (ofBinary m q).high - (ofBinary m q).low := by
  have some : 0 < (ofBinary m q).value := (Nat.zero_le _).trans_lt (ofBinary_low_lt h)
  obtain ⟨least, most⟩ := ofBinary_logs h
  have width := ten_zpow_width_le some least most
  have up : (0 : ℚ) < (Nat.pow 2 (q - 2).toNat : Nat) := by
    exact_mod_cast Nat.pow_pos (show 0 < 2 by decide)
  have value : ((ofBinary m q).value : ℚ) = 4 * m * (Nat.pow 2 (q - 2).toNat : Nat) := by
    exact_mod_cast rfl
  have length : ((ofBinary m q).high : ℚ) - (ofBinary m q).low =
      (gap m + 2 : Nat) * (Nat.pow 2 (q - 2).toNat : Nat) := by
    have part : gap m ≤ 4 * m := by
      have positive := h.positive
      unfold gap
      split <;> omega
    change (((4 * m + 2) * Nat.pow 2 (q - 2).toNat : Nat) : ℚ) -
      ((4 * m - gap m) * Nat.pow 2 (q - 2).toNat : Nat) = _
    push_cast [part]
    ring
  have digits : (4 * m : ℚ) < (gap m + 2 : Nat) * 10 ^ 16 := by
    have fits := h.fits
    have digits : 4 * m < (gap m + 2) * 10 ^ 16 := by
      unfold gap
      split <;> omega
    exact_mod_cast digits
  rw [length]
  calc 10 ^ ((ofBinary m q).width - 1 - 16) * ((ofBinary m q).den : ℚ)
      = 10 ^ ((ofBinary m q).width - 1) * (ofBinary m q).den / 10 ^ 16 := by
        rw [zpow_sub₀ (by norm_num)]
        ring
    _ ≤ 4 * m * (Nat.pow 2 (q - 2).toNat : Nat) / 10 ^ 16 := by
        rw [← value]
        gcongr
    _ < (gap m + 2 : Nat) * (Nat.pow 2 (q - 2).toNat : Nat) := by
        rw [div_lt_iff₀ (by norm_num), mul_right_comm ((gap m + 2 : Nat) : ℚ)]
        exact mul_lt_mul_of_pos_right digits up

end

end Rounding

namespace Decimal

variable {m : Nat} {q : Int}

/-- Trimmed zeros are made up for by the exponent. -/
lemma trim_value (d : Decimal) (n : Nat) : (d.trim n).value = d.value := by
  induction n generalizing d with
  | zero => rfl
  | succ n ih =>
    rw [trim]
    split
    · next zero =>
      rw [ih]
      simp only [Bool.and_eq_true, decide_eq_true_eq] at zero
      have tens : ((d.coefficient / 10 * 10 : Nat) : ℚ) = d.coefficient := by
        rw [Nat.div_mul_cancel (Nat.dvd_of_mod_eq_zero zero.1)]
      rw [value, value, ← tens, zpow_add_one₀ (by norm_num)]
      push_cast
      ring
    · rfl

/-- The shortest decimal of a number rounds to it. -/
theorem shortest_contains (h : Magnitude.Normal m q) :
    (Rounding.ofBinary m q).Contains (shortest m q).value := by
  have den : 0 < (Rounding.ofBinary m q).den := Nat.pow_pos (by decide)
  have found := Rounding.onGrid?_isSome den (Rounding.ofBinary_low_lt h)
    (Rounding.ofBinary_lt_high m q) (Rounding.ofBinary_step h)
  have holds := Rounding.firstGrid_holds (show 16 < 17 by decide) found
  rw [Rounding.holds_iff] at holds
  rw [shortest, trim_value]
  exact holds

end Decimal

end Lox
