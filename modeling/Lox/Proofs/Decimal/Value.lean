import Lox.Decimal.Floor
import Lox.Proofs.Decimal.Natural
import Lox.Proofs.Decimal.Written

/-!
The rationals that binary64 numbers are. Numbers are ordered as the rationals are, whole numbers of
up to 53 binary digits are among them, and rounding down is rounding down of rationals.
-/

namespace Lox.Binary

open Float.Model (Format UnpackedFloat totalExponent)
open Float.Model.UnpackedFloat

variable {x y : Float} {v w : ℚ} {m m' n : Nat} {q q' e : Int} {a b : UnpackedFloat} {s : Sign}

/-- The rational that a number is, unless it is infinite or NaN. -/
def rational? : UnpackedFloat → Option ℚ
  | .zero _ => some 0
  | .finite s m e _ => some (s.apply m * 2 ^ e)
  | .infinity _ | .notANumber => none

/-- The rational that a number is, unless it is infinite or NaN. -/
def value? (x : Float) : Option ℚ :=
  rational? x.toModel.unpack

/-! ## Order -/

/-- What is finite is in normal form. -/
def IsNormal : UnpackedFloat → Prop
  | .finite _ m e _ => Magnitude.Normal m e
  | _ => True

lemma isNormal_unpack (x : Float) : IsNormal x.toModel.unpack := by
  have size := (ofBits_eq x).1
  generalize x.toModel.unpack = u at size
  cases u with
  | finite s m e positive => exact Magnitude.normal_of_bits size
  | _ => trivial

/-- Numbers in normal form are smaller where their exponents are. -/
lemma normal_lt (h : Magnitude.Normal m q) (h' : Magnitude.Normal m' q') (less : q < q') :
    (m : ℚ) * 2 ^ q < m' * 2 ^ q' := by
  have large : 2 ^ 52 ≤ m' := by
    have normal := h'.normal
    have least := h.least
    omega
  have fits : (m : ℚ) < 2 ^ 53 := by exact_mod_cast h.fits
  have large' : (2 : ℚ) ^ 52 ≤ m' := by exact_mod_cast large
  have power : (2 : ℚ) ^ (q + 1) ≤ 2 ^ q' := zpow_le_zpow_right₀ (by norm_num) less
  calc (m : ℚ) * 2 ^ q < 2 ^ 53 * 2 ^ q := by gcongr
    _ = 2 ^ 52 * 2 ^ (q + 1) := by
      rw [zpow_add₀ (by norm_num)]
      ring
    _ ≤ m' * 2 ^ q' := by gcongr

lemma compare_normal (h : Magnitude.Normal m q) (h' : Magnitude.Normal m' q') :
    (compare q q').then (compare m m') = compare ((m : ℚ) * 2 ^ q) (m' * 2 ^ q') := by
  have unit : (0 : ℚ) < 2 ^ q' := by positivity
  rcases lt_trichotomy q q' with less | rfl | greater
  · rw [compare_lt_iff_lt.mpr less, compare_lt_iff_lt.mpr (normal_lt h h' less)]
    rfl
  · rw [compare_eq_iff_eq.mpr (rfl : q = q)]
    rcases lt_trichotomy m m' with less | rfl | greater
    · have less' : (m : ℚ) * 2 ^ q < m' * 2 ^ q := by gcongr
      rw [compare_lt_iff_lt.mpr less, compare_lt_iff_lt.mpr less']
      rfl
    · rw [compare_eq_iff_eq.mpr rfl, compare_eq_iff_eq.mpr rfl]
      rfl
    · have greater' : (m' : ℚ) * 2 ^ q < m * 2 ^ q := by gcongr
      rw [compare_gt_iff_gt.mpr greater, compare_gt_iff_gt.mpr greater']
      rfl
  · rw [compare_gt_iff_gt.mpr greater, compare_gt_iff_gt.mpr (normal_lt h' h greater)]
    rfl

lemma compare_neg (v w : ℚ) : compare (-v) (-w) = (compare v w).swap := by
  rcases lt_trichotomy v w with less | rfl | greater
  · rw [compare_lt_iff_lt.mpr less, compare_gt_iff_gt.mpr (neg_lt_neg less)]
    rfl
  · rw [compare_eq_iff_eq.mpr rfl, compare_eq_iff_eq.mpr rfl]
    rfl
  · rw [compare_gt_iff_gt.mpr greater, compare_lt_iff_lt.mpr (neg_lt_neg greater)]
    rfl

lemma rational?_positive (positive : 0 < m) :
    rational? (.finite .positive m e positive) = some ((m : ℚ) * 2 ^ e) := by
  rw [rational?, Sign.apply, Int.cast_natCast]

lemma rational?_negative (positive : 0 < m) :
    rational? (.finite .negative m e positive) = some (-((m : ℚ) * 2 ^ e)) := by
  rw [rational?, Sign.apply, Int.cast_neg, Int.cast_natCast, neg_mul]

/-- Numbers are compared as the rationals are. -/
lemma compare_eq (ha : IsNormal a) (hb : IsNormal b) (hv : rational? a = some v)
    (hw : rational? b = some w) : a.compare b = some (compare v w) := by
  have above {m : Nat} {e : Int} (positive : 0 < m) : (0 : ℚ) < m * 2 ^ e := by positivity
  cases a with
  | infinity | notANumber => cases hv
  | zero s =>
    cases hv
    cases b with
    | infinity | notANumber => cases hw
    | zero s' =>
      cases hw
      rw [compare_eq_iff_eq.mpr rfl]
      rfl
    | finite s' m' e' positive' =>
      cases s' with
      | positive =>
        cases (rational?_positive positive').symm.trans hw
        rw [compare_lt_iff_lt.mpr (above positive')]
        rfl
      | negative =>
        cases (rational?_negative positive').symm.trans hw
        rw [compare_gt_iff_gt.mpr (neg_lt_zero.mpr (above positive'))]
        rfl
  | finite s m e positive =>
    cases s with
    | positive =>
      cases (rational?_positive positive).symm.trans hv
      cases b with
      | infinity | notANumber => cases hw
      | zero s' =>
        cases hw
        rw [compare_gt_iff_gt.mpr (above positive)]
        rfl
      | finite s' m' e' positive' =>
        cases s' with
        | positive =>
          cases (rational?_positive positive').symm.trans hw
          rw [← compare_normal ha hb]
          rfl
        | negative =>
          cases (rational?_negative positive').symm.trans hw
          rw [compare_gt_iff_gt.mpr ((neg_lt_zero.mpr (above positive')).trans (above positive))]
          rfl
    | negative =>
      cases (rational?_negative positive).symm.trans hv
      cases b with
      | infinity | notANumber => cases hw
      | zero s' =>
        cases hw
        rw [compare_lt_iff_lt.mpr (neg_lt_zero.mpr (above positive))]
        rfl
      | finite s' m' e' positive' =>
        cases s' with
        | positive =>
          cases (rational?_positive positive').symm.trans hw
          rw [compare_lt_iff_lt.mpr ((neg_lt_zero.mpr (above positive)).trans (above positive'))]
          rfl
        | negative =>
          cases (rational?_negative positive').symm.trans hw
          rw [compare_neg, ← compare_normal ha hb]
          rfl

lemma lt_model (x y : Float) : x < y ↔ x.toModel.unpack.lt y.toModel.unpack = true :=
  decide_eq_true_iff

lemma lt_iff (hx : value? x = some v) (hy : value? y = some w) : x < y ↔ v < w := by
  rw [lt_model, UnpackedFloat.lt, compare_eq (isNormal_unpack x) (isNormal_unpack y) hx hy,
    beq_iff_eq, Option.some.injEq, compare_lt_iff_lt]

lemma le_iff (hx : value? x = some v) (hy : value? y = some w) : x ≤ y ↔ v ≤ w := by
  have model : x ≤ y ↔ x.toModel.unpack.le y.toModel.unpack = true := decide_eq_true_iff
  rw [model, UnpackedFloat.le, compare_eq (isNormal_unpack x) (isNormal_unpack y) hx hy]
  change (compare v w).isLE = true ↔ _
  rw [← Ordering.ne_gt_iff_isLE]
  exact compare_le_iff_le

lemma isNaN_of_value (value : value? x = some v) : x.isNaN = false := by
  change x.toModel.unpack.isNaN = false
  rw [value?] at value
  generalize x.toModel.unpack = u at *
  cases u with
  | zero | finite => rfl
  | infinity | notANumber => cases value

/-- The infinities are above and below all rationals. -/
lemma between_infinities (value : rational? a = some v) :
    a.lt (.infinity .positive) = true ∧ UnpackedFloat.lt (.infinity .negative) a = true := by
  cases a with
  | zero => exact ⟨rfl, rfl⟩
  | finite s => cases s <;> exact ⟨rfl, rfl⟩
  | infinity | notANumber => cases value

/-- What is no rational is NaN, or above all rationals, or below them. -/
lemma none_cases (none : value? x = none) : x.isNaN = true ∨
    (∀ y w, value? y = some w → y < x) ∨ ∀ y w, value? y = some w → x < y := by
  change x.toModel.unpack.isNaN = true ∨ _
  simp only [lt_model]
  rw [value?] at none
  generalize x.toModel.unpack = u at *
  cases u with
  | zero | finite => cases none
  | notANumber => exact .inl rfl
  | infinity s =>
    right
    cases s with
    | positive => exact .inl fun y w value => (between_infinities value).1
    | negative => exact .inr fun y w value => (between_infinities value).2

/-! ## Whole numbers -/

lemma Scaled.value_eq {v : Nat} (h : Scaled m e v) : (m : ℚ) * 2 ^ e = v := by
  obtain ⟨-, -, a, b, rfl, same⟩ := h
  have unit : (2 : ℚ) ^ b ≠ 0 := by positivity
  have scaled : (m : ℚ) * 2 ^ a = v * 2 ^ b := by exact_mod_cast same
  rw [zpow_sub₀ (by norm_num), zpow_natCast, zpow_natCast, ← mul_div_assoc, scaled,
    mul_div_assoc, div_self unit, mul_one]

lemma value?_float (small : rounded n < 2 ^ 1024) : value? (float n) = some (rounded n : ℚ) := by
  by_cases none : n = 0
  · rw [none, value?, unpack_float_zero]
    exact congrArg some Nat.cast_zero.symm
  · obtain ⟨m, e, positive, eq, scaled⟩ := unpack_float none small
    rw [value?, eq, rational?_positive, scaled.value_eq]

lemma value?_neg_float (small : rounded n < 2 ^ 1024) :
    value? (-float n) = some (-(rounded n : ℚ)) := by
  change rational? (unpack .binary64 (pack .binary64 (float n).toModel.unpack.neg)) = _
  by_cases none : n = 0
  · rw [none, unpack_float_zero]
    exact congrArg some (by rw [show rounded 0 = 0 from rfl, Nat.cast_zero, neg_zero])
  · obtain ⟨m, e, positive, eq, scaled⟩ := unpack_float none small
    rw [eq]
    change rational? (unpack .binary64 (pack .binary64 (.finite .negative m e positive))) = _
    rw [unpack_pack (scaled.normal small) scaled.large, rational?_negative, scaled.value_eq]

lemma value?_ofInt {z : Int} (small : z.natAbs < 2 ^ 53) :
    value? (Float.ofInt z) = some (z : ℚ) := by
  cases z with
  | ofNat n =>
    have few : n < 2 ^ 53 := small
    have exact : rounded n = n := rounded_small few.le
    rw [Float.ofInt, ofNat_eq, value?_float (by omega), exact]
    rfl
  | negSucc n =>
    have exact : rounded (n + 1) = n + 1 := rounded_small (Nat.le_of_lt small)
    have eq : Float.ofInt (.negSucc n) = -float (n + 1) := by rw [← ofNat_eq]; rfl
    rw [eq, value?_neg_float (by omega), exact]
    rfl

/-! ## Rounding down -/

lemma fdiv_eq_floor (n q : Int) : Int.fdiv (n * Int.ofNat (Nat.pow 2 q.toNat))
    (Int.ofNat (Nat.pow 2 (-q).toNat)) = ⌊(n : ℚ) * 2 ^ q⌋ := by
  have den : (2 : ℚ) ^ (-q).toNat ≠ 0 := by positivity
  have fraction : (n : ℚ) * 2 ^ q =
      (n * Int.ofNat (Nat.pow 2 q.toNat) : Int) / (Nat.pow 2 (-q).toNat : Nat) := by
    push_cast [Nat.pow_eq, Int.ofNat_eq_natCast]
    rw [← zpow_mul_pow_toNat (by norm_num) q, ← mul_assoc, mul_div_assoc, div_self den, mul_one]
  rw [fraction, Rat.floor_intCast_div_natCast, Int.fdiv_eq_ediv_of_nonneg]
  · rfl
  · exact Int.natCast_nonneg _

lemma integer?_eq (x : Float) : Floor.integer? x = (value? x).map Int.floor := by
  obtain ⟨size, sign⟩ := ofBits_eq x
  rw [Floor.integer?, size, value?]
  generalize x.toModel.unpack = u at *
  cases u with
  | infinity | notANumber => rfl
  | zero s => simp [magnitude, rational?]
  | finite s m q positive =>
    have number : magnitude (.finite s m q positive) ≠ .nan := by
      intro none
      cases none
    simp only [magnitude, sign number, fdiv_eq_floor, rational?, Option.map_some]
    cases s <;> rfl

lemma floor_natAbs_lt {z : Int} (fits : z.natAbs < 2 ^ 53) (down : q < 0) :
    ⌊(z : ℚ) * 2 ^ q⌋.natAbs < 2 ^ 53 := by
  have power : (2 : ℚ) ^ q ≤ 1 := zpow_le_one_of_nonpos₀ (by norm_num) down.le
  have unit : (0 : ℚ) < 2 ^ q := by positivity
  have floor := Int.floor_le ((z : ℚ) * 2 ^ q)
  rcases Int.le_total 0 z with above | below
  · have sign : (0 : ℚ) ≤ z := by exact_mod_cast above
    have least : 0 ≤ ⌊(z : ℚ) * 2 ^ q⌋ := Int.floor_nonneg.mpr (by positivity)
    have most : ⌊(z : ℚ) * 2 ^ q⌋ ≤ z := by
      exact_mod_cast floor.trans (mul_le_of_le_one_right sign power)
    omega
  · have sign : (z : ℚ) ≤ 0 := by exact_mod_cast below
    have least : z ≤ ⌊(z : ℚ) * 2 ^ q⌋ := Int.le_floor.mpr (by nlinarith)
    have most : ⌊(z : ℚ) * 2 ^ q⌋ ≤ 0 := by
      exact_mod_cast floor.trans (mul_nonpos_of_nonpos_of_nonneg sign unit.le)
    omega

/-- A number without digits behind the point is kept, and any other one is small. -/
lemma floor_cases (x : Float) : Floor.float x = x ∧ (∀ v, value? x = some v → (⌊v⌋ : ℚ) = v) ∨
    ∃ v, value? x = some v ∧ ⌊v⌋.natAbs < 2 ^ 53 ∧ Floor.float x = Float.ofInt ⌊v⌋ := by
  have size := (ofBits_eq x).1
  have integer := integer?_eq x
  have fine := isNormal_unpack x
  rw [Floor.float, Floor.isCoarse, size]
  rw [value?] at *
  generalize x.toModel.unpack = u at *
  cases u with
  | infinity | notANumber => exact .inl ⟨rfl, nofun⟩
  | zero s =>
    left
    constructor
    · rfl
    · rintro v ⟨⟩
      simp
  | finite s m q positive =>
    by_cases coarse : 0 ≤ q
    · left
      constructor
      · simp [magnitude, coarse]
      · rintro v ⟨⟩
        obtain ⟨k, rfl⟩ := Int.eq_ofNat_of_zero_le coarse
        have whole : ((s.apply m : Int) : ℚ) * 2 ^ (k : Int) = (s.apply m * 2 ^ k : Int) := by
          push_cast
          rw [zpow_natCast]
        rw [whole, Int.floor_intCast]
    · right
      refine ⟨_, rfl, ?_, ?_⟩
      · apply floor_natAbs_lt
        · have fits := fine.fits
          cases s <;> simpa [Sign.apply] using fits
        · omega
      · simp only [magnitude, coarse, decide_false, Bool.false_eq_true, if_false, integer]
        rfl

/-- Rounding down is rounding down of rationals. -/
lemma value?_floor (x : Float) :
    value? (Floor.float x) = (value? x).map fun v => (⌊v⌋ : ℚ) := by
  rcases floor_cases x with ⟨same, whole⟩ | ⟨v, value, small, eq⟩
  · rw [same]
    cases value : value? x with
    | none => rfl
    | some v => rw [Option.map_some, whole v value]
  · rw [eq, value?_ofInt small, value]
    rfl

/-- What is rounded down is not changed any more. -/
lemma floor_floor (x : Float) : Floor.float (Floor.float x) = Floor.float x := by
  rcases floor_cases x with ⟨same, -⟩ | ⟨v, -, small, eq⟩
  · rw [same, same]
  · rw [eq]
    rcases floor_cases (Float.ofInt ⌊v⌋) with ⟨same, -⟩ | ⟨w, value, -, eq'⟩
    · exact same
    · rw [value?_ofInt small] at value
      cases value
      rw [eq', Int.floor_intCast]

end Lox.Binary
