import Lox.Proofs.Decimal.HalfEven

/-!
Natural numbers as binary64 numbers. Every way to read a natural number gives the nearest binary64
number, and a step that multiplies by eight and adds a digit rounds its exact result once.
-/

namespace Lox.Binary

open Float.Model (Format UnpackedFloat totalExponent)
open Float.Model.UnpackedFloat

variable {m m' n v v' w a b : Nat} {e e' : Int} {s : Sign}

/-- The number nearest to a natural number, of two the one with an even mantissa. -/
def ofNatural (s : Sign) (n : Nat) : UnpackedFloat :=
  roundWithAccuracy .binary64 s (n * 2 ^ 52) (-52) .exact

/-- A natural number rounded to 53 binary digits. -/
def rounded (n : Nat) : Nat :=
  nearest n (n.log2 - 52) * 2 ^ (n.log2 - 52)

/-- The mantissa and the exponent of a natural number that is not rounded. -/
structure Scaled (m : Nat) (e : Int) (v : Nat) : Prop where
  large : 2 ^ 52 ≤ m
  fits : m < 2 ^ 53
  value : ∃ a b : Nat, e = a - b ∧ m * 2 ^ a = v * 2 ^ b

lemma log2_mul_two_pow (some : n ≠ 0) (b : Nat) : (n * 2 ^ b).log2 = n.log2 + b := by
  induction b with
  | zero => rw [Nat.pow_zero, Nat.mul_one, Nat.add_zero]
  | succ b ih =>
    have some' : n * 2 ^ b ≠ 0 := Nat.mul_ne_zero some (Nat.two_pow_pos b).ne'
    rw [Nat.pow_succ, ← Nat.mul_assoc, Nat.mul_comm, Nat.log2_two_mul some', ih]
    rfl

/-- The same number at another scale is rounded to the same number. -/
lemma roundWithAccuracy_scale (some : n ≠ 0) (large : 2 ^ 52 ≤ m) (same : m * 2 ^ a = n * 2 ^ b)
    (s : Sign) : roundWithAccuracy .binary64 s m (a - b : Int) .exact = ofNatural s n := by
  have log : m.log2 + a = n.log2 + b := by
    rw [← log2_mul_two_pow some, ← same, log2_mul_two_pow (by omega)]
  have log' : (n * 2 ^ 52).log2 = n.log2 + 52 := log2_mul_two_pow some 52
  have digits := (Nat.le_log2 (by omega)).mpr large
  have large' : 2 ^ 52 ≤ n * 2 ^ 52 := Nat.le_mul_of_pos_left _ (by omega)
  have mantissa : nearest m (m.log2 - 52) = nearest (n * 2 ^ 52) ((n * 2 ^ 52).log2 - 52) := by
    rw [← nearest_mul_pow m _ (a + 52), ← nearest_mul_pow (n * 2 ^ 52) _ b, Nat.pow_add,
      ← Nat.mul_assoc, same, Nat.mul_right_comm]
    congr 1
    omega
  have positive := (Nat.two_pow_pos 52).trans_le (nearest_mantissa large').1
  rw [ofNatural, roundWithAccuracy_eq large' (by omega) s positive,
    roundWithAccuracy_eq large (by omega) s (mantissa ▸ positive)]
  simp only [mantissa]
  have exponent : (a - b + m.log2 : Int) = -52 + (n * 2 ^ 52).log2 := by omega
  simp only [exponent]

lemma round_scale (some : n ≠ 0) (positive : m ≠ 0) (same : m * 2 ^ a = n * 2 ^ b)
    (exponent : e = a - b) (s : Sign) : UnpackedFloat.round .binary64 s m e = ofNatural s n := by
  have log : m.log2 + a = n.log2 + b := by
    rw [← log2_mul_two_pow some, ← same, log2_mul_two_pow positive]
  have target : Format.binary64.targetExponent (totalExponent m e) =
      max (m.log2 + e - 52) (-1074) := by
    change max (m.log2 + 1 + e - (53 : Nat)) (-1074) = _
    omega
  have shift : (e - max (m.log2 + e - 52) (-1074)).toNat = 52 - m.log2 := by omega
  have large : 2 ^ 52 ≤ m * 2 ^ (52 - m.log2) := by
    rw [← Nat.le_log2 (Nat.mul_ne_zero positive (Nat.two_pow_pos _).ne'),
      log2_mul_two_pow positive]
    omega
  have same' : m * 2 ^ (52 - m.log2) * 2 ^ a = n * 2 ^ (b + (52 - m.log2)) := by
    rw [Nat.mul_right_comm, same, Nat.mul_assoc, ← Nat.pow_add]
  have lower : e - (52 - m.log2 : Nat) = a - (b + (52 - m.log2) : Nat) := by omega
  simp only [UnpackedFloat.round, decreaseExponent, target, shift, Nat.shiftLeft_eq, lower]
  exact roundWithAccuracy_scale some large same' s

namespace Scaled

lemma log2_eq (h : Scaled m e v) : v ≠ 0 ∧ (v.log2 : Int) = 52 + e := by
  obtain ⟨large, fits, a, b, rfl, same⟩ := h
  have some : v ≠ 0 := by
    rintro rfl
    rw [Nat.zero_mul] at same
    have unit := Nat.two_pow_pos a
    rcases Nat.mul_eq_zero.mp same with zero | zero <;> omega
  have log := log2_mantissa large fits
  have logs : m.log2 + a = v.log2 + b := by
    rw [← log2_mul_two_pow some, ← same, log2_mul_two_pow (by omega)]
  constructor
  · exact some
  · omega

/-- Nothing is rounded. -/
lemma ofNatural_eq (h : Scaled m e v) (s : Sign) :
    ofNatural s v = .finite s m e ((Nat.two_pow_pos 52).trans_le h.large) := by
  obtain ⟨some, log⟩ := h.log2_eq
  obtain ⟨large, fits, a, b, rfl, same⟩ := h
  have log := log2_mantissa large fits
  have whole : nearest m (m.log2 - 52) = m := by
    rw [log]
    exact nearest_zero m
  rw [← roundWithAccuracy_scale some large same s,
    roundWithAccuracy_eq large (by omega) s (by omega), if_neg (by omega)]
  simp only [whole, UnpackedFloat.finite.injEq, true_and]
  omega

lemma mantissa_unique (h : Scaled m e v) (h' : Scaled m' e' v) : m = m' ∧ e = e' := by
  have same := (h.ofNatural_eq .positive).symm.trans (h'.ofNatural_eq .positive)
  cases same
  exact ⟨rfl, rfl⟩

lemma unique (hv : Scaled m e v) (hw : Scaled m e w) : v = w := by
  obtain ⟨-, -, a, b, exponent, same⟩ := hv
  obtain ⟨-, -, a', b', exponent', same'⟩ := hw
  have scale : a + b' = a' + b := by omega
  have both : v * 2 ^ (b + b') = w * 2 ^ (b + b') := by
    calc v * 2 ^ (b + b') = m * 2 ^ (a + b') := by rw [Nat.pow_add, ← Nat.mul_assoc, ← same,
            Nat.mul_assoc, ← Nat.pow_add]
      _ = m * 2 ^ (a' + b) := by rw [scale]
      _ = w * 2 ^ (b + b') := by rw [Nat.pow_add, ← Nat.mul_assoc, same', Nat.mul_assoc,
            ← Nat.pow_add, Nat.add_comm b']
  exact Nat.eq_of_mul_eq_mul_right (Nat.two_pow_pos _) both

lemma shift (h : Scaled m e v) (j : Nat) : Scaled m (e + j) (v * 2 ^ j) := by
  obtain ⟨large, fits, a, b, rfl, same⟩ := h
  constructor
  · exact large
  · exact fits
  · refine ⟨a + j, b, by omega, ?_⟩
    rw [Nat.pow_add, ← Nat.mul_assoc, same, Nat.mul_right_comm]

/-- The product of two numbers. -/
lemma ofNatural_mul (h : Scaled m e v) (h' : Scaled m' e' v') (s : Sign) :
    ofNatural s (v * v') = roundWithAccuracy .binary64 s (m * m') (e + e') .exact := by
  obtain ⟨some, -⟩ := h.log2_eq
  obtain ⟨some', -⟩ := h'.log2_eq
  obtain ⟨large, -, a, b, rfl, same⟩ := h
  obtain ⟨large', -, a', b', rfl, same'⟩ := h'
  have product : m * m' * 2 ^ (a + a') = v * v' * 2 ^ (b + b') := by
    rw [Nat.pow_add, Nat.mul_mul_mul_comm, same, same', Nat.mul_mul_mul_comm, ← Nat.pow_add]
  have enough : 2 ^ 52 ≤ m * m' := large.trans (Nat.le_mul_of_pos_right m (by omega))
  rw [← roundWithAccuracy_scale (Nat.mul_ne_zero some some') enough product]
  congr 1
  push_cast
  ring

/-- The sum of two numbers. -/
lemma ofNatural_add (h : Scaled m e v) (h' : Scaled m' e' v') :
    ofNatural .positive (v + v') =
      UnpackedFloat.normalize .binary64 (Sign.positive.apply (decreaseExponent m e (min e e')).1 +
        Sign.positive.apply (decreaseExponent m' e' (min e e')).1) (min e e') .positive := by
  obtain ⟨some, -⟩ := h.log2_eq
  obtain ⟨large, -, a, b, exponent, same⟩ := h
  obtain ⟨-, -, a', b', exponent', same'⟩ := h'
  -- Both on the scale of the smaller exponent.
  obtain ⟨least, low⟩ : ∃ c, c = min (a + b') (a' + b) := ⟨_, rfl⟩
  obtain ⟨i, up⟩ : ∃ i, a + b' = i + least := ⟨a + b' - least, by omega⟩
  obtain ⟨j, up'⟩ : ∃ j, a' + b = j + least := ⟨a' + b - least, by omega⟩
  have shift : (e - min e e').toNat = i := by omega
  have shift' : (e' - min e e').toNat = j := by omega
  have sum : (m * 2 ^ i + m' * 2 ^ j) * 2 ^ least = (v + v') * 2 ^ (b + b') := by
    calc (m * 2 ^ i + m' * 2 ^ j) * 2 ^ least
        = m * 2 ^ (i + least) + m' * 2 ^ (j + least) := by ring
      _ = m * 2 ^ a * 2 ^ b' + m' * 2 ^ a' * 2 ^ b := by rw [← up, ← up']; ring
      _ = (v + v') * 2 ^ (b + b') := by rw [same, same']; ring
  have positive : m * 2 ^ i + m' * 2 ^ j ≠ 0 := by
    have first := Nat.mul_pos (by omega : 0 < m) (Nat.two_pow_pos i)
    omega
  have scale : min e e' = least - (b + b' : Nat) := by omega
  have whole : Sign.positive.apply (m * 2 ^ i : Nat) + Sign.positive.apply (m' * 2 ^ j : Nat) =
      (m * 2 ^ i + m' * 2 ^ j : Nat) := by
    rw [Nat.cast_add]
    rfl
  have order : compare ((m * 2 ^ i + m' * 2 ^ j : Nat) : Int) 0 = .gt := by
    rw [compare_gt_iff_gt]
    omega
  simp only [decreaseExponent, shift, shift', Nat.shiftLeft_eq, whole, UnpackedFloat.normalize,
    order, Int.toNat_natCast]
  exact (round_scale (by omega) positive sum scale .positive).symm

/-- The quotient by one. -/
lemma ofNatural_div_one (h : Scaled m e v) (s : Sign) :
    ofNatural s v = roundWithAccuracy .binary64 s (divCore .binary64 m e (2 ^ 52) (-52)).1
      (divCore .binary64 m e (2 ^ 52) (-52)).2.1 (divCore .binary64 m e (2 ^ 52) (-52)).2.2 := by
  obtain ⟨some, log⟩ := h.log2_eq
  obtain ⟨large, fits, a, b, rfl, same⟩ := h
  have digits := log2_mantissa large fits
  have target : min ((a : Int) - b - -52) (Format.binary64.targetExponent
      (totalExponent m (a - b) - totalExponent (2 ^ 52) (-52))) = a - (b + 1 : Nat) := by
    rw [totalExponent, digits]
    change min _ (max ((52 : Nat) + 1 + ((a : Int) - b) - 1 - (53 : Nat)) (-1074)) = _
    omega
  have shift : ((a : Int) - b - -52 - (a - (b + 1 : Nat))).toNat = 53 := by omega
  have quotient : m * 2 ^ 53 / 2 ^ 52 = m * 2 := by omega
  have rest : m * 2 ^ 53 % 2 ^ 52 = 0 := by omega
  have double : m * 2 * 2 ^ a = v * 2 ^ (b + 1) := by
    rw [Nat.mul_right_comm, same, Nat.mul_assoc, ← Nat.pow_succ]
  simp only [divCore, target, shift, Nat.shiftLeft_eq, quotient, rest, accuracyOfFraction, if_true]
  exact (roundWithAccuracy_scale some (by omega) double s).symm

end Scaled

/-- The mantissa of a natural number that is rounded. -/
lemma mantissa_value (n : Nat) :
    nearest (n * 2 ^ 52) n.log2 * 2 ^ n.log2 = rounded n * 2 ^ 52 := by
  by_cases digits : 52 ≤ n.log2
  · have scale := nearest_mul_pow n (n.log2 - 52) 52
    rw [Nat.sub_add_cancel digits] at scale
    rw [scale, rounded, Nat.mul_assoc, ← Nat.pow_add, Nat.sub_add_cancel digits]
  · have scale := nearest_mul_pow (n * 2 ^ (52 - n.log2)) 0 n.log2
    have few : n.log2 - 52 = 0 := by omega
    have split : n * 2 ^ (52 - n.log2) * 2 ^ n.log2 = n * 2 ^ 52 := by
      rw [Nat.mul_assoc, ← Nat.pow_add, Nat.sub_add_cancel (by omega)]
    rw [Nat.zero_add, split, nearest_zero] at scale
    rw [scale, split, rounded, few, nearest_zero, Nat.pow_zero, Nat.mul_one]

/-- A natural number is rounded to a mantissa of 53 digits, or to the next power of two. -/
lemma scaled_cases (some : n ≠ 0) :
    nearest (n * 2 ^ 52) n.log2 < 2 ^ 53 ∧
        Scaled (nearest (n * 2 ^ 52) n.log2) (n.log2 - 52) (rounded n) ∨
      nearest (n * 2 ^ 52) n.log2 = 2 ^ 53 ∧ Scaled (2 ^ 52) (n.log2 - 51) (rounded n) := by
  have bounds := nearest_mantissa (Nat.le_mul_of_pos_left (2 ^ 52) (by omega : 0 < n))
  have digits : (n * 2 ^ 52).log2 - 52 = n.log2 := by
    rw [log2_mul_two_pow some, Nat.add_sub_cancel]
  rw [digits] at bounds
  have value := mantissa_value n
  by_cases carry : nearest (n * 2 ^ 52) n.log2 = 2 ^ 53
  · right
    refine ⟨carry, Nat.le_refl _, by decide, n.log2 + 1, 52, by omega, ?_⟩
    rw [← value, carry, Nat.pow_succ]
    ring
  · left
    exact ⟨by omega, bounds.1, by omega, n.log2, 52, by omega, value⟩

lemma exists_scaled (some : n ≠ 0) : ∃ m e, Scaled m e (rounded n) ∧
    ∀ s, ∃ positive, ofNatural s n = .finite s m e positive := by
  have large : 2 ^ 52 ≤ n * 2 ^ 52 := Nat.le_mul_of_pos_left _ (by omega)
  have log : (n * 2 ^ 52).log2 = n.log2 + 52 := log2_mul_two_pow some 52
  have digits : (n * 2 ^ 52).log2 - 52 = n.log2 := by omega
  have eq := roundWithAccuracy_eq large (by omega : -1022 ≤ (n * 2 ^ 52).log2 + (-52 : Int))
  simp only [digits] at eq
  rcases scaled_cases some with ⟨fits, scaled⟩ | ⟨carry, scaled⟩
  · have positive := (Nat.two_pow_pos 52).trans_le scaled.large
    refine ⟨_, _, scaled, fun s => ⟨positive, ?_⟩⟩
    rw [ofNatural, eq s positive, if_neg fits.ne]
    simp only [UnpackedFloat.finite.injEq, true_and]
    omega
  · refine ⟨_, _, scaled, fun s => ⟨Nat.two_pow_pos 52, ?_⟩⟩
    rw [ofNatural, eq s (by omega), if_pos carry]
    simp only [UnpackedFloat.finite.injEq, true_and]
    omega

lemma Scaled.normal (h : Scaled m e v) (small : v < 2 ^ 1024) : Magnitude.Normal m e := by
  obtain ⟨some, log⟩ := h.log2_eq
  have bound := (Nat.log2_lt some).mpr small
  have large := h.large
  exact ⟨by omega, h.fits, by omega, by omega, .inr large⟩

lemma Scaled.exponent_large (h : Scaled m e v) (overflow : 2 ^ 1024 ≤ v) : 971 < e := by
  obtain ⟨some, log⟩ := h.log2_eq
  have bound := (Nat.le_log2 some).mpr overflow
  omega

/-- The binary64 number nearest to a natural number. -/
def float (n : Nat) : Float :=
  .ofModel (.pack (ofNatural .positive n))

lemma float_scaled (h : Scaled m e v) :
    float v = .ofModel (.pack (.finite .positive m e ((Nat.two_pow_pos 52).trans_le h.large))) := by
  rw [float, h.ofNatural_eq]

lemma unpack_model (u : UnpackedFloat) :
    (Float.Model.pack u).unpack = unpack .binary64 (pack .binary64 u) :=
  rfl

lemma unpack_float_zero : (float 0).toModel.unpack = .zero .positive := by
  rfl

/-- A number that is neither zero nor too large is found again. -/
lemma unpack_float (some : n ≠ 0) (small : rounded n < 2 ^ 1024) :
    ∃ m e positive, (float n).toModel.unpack = .finite .positive m e positive ∧
      Scaled m e (rounded n) := by
  obtain ⟨m, e, scaled, found⟩ := exists_scaled some
  obtain ⟨positive, eq⟩ := found .positive
  refine ⟨m, e, positive, ?_, scaled⟩
  change (Float.Model.pack (ofNatural .positive n)).unpack = _
  rw [eq, unpack_model]
  exact unpack_pack (scaled.normal small) scaled.large .positive

/-- The number above all natural numbers. -/
def infinity : Float :=
  .ofModel (.pack (.infinity .positive))

lemma unpack_infinity : infinity.toModel.unpack = .infinity .positive :=
  rfl

lemma ne_zero_of_rounded {j : Nat} (large : 2 ^ j ≤ rounded n) : n ≠ 0 := by
  rintro rfl
  exact absurd large (Nat.not_le.mpr (Nat.two_pow_pos j))

lemma float_overflow (overflow : 2 ^ 1024 ≤ rounded n) : float n = infinity := by
  have some := ne_zero_of_rounded overflow
  obtain ⟨m, e, scaled, found⟩ := exists_scaled some
  obtain ⟨positive, eq⟩ := found .positive
  have packed := pack_large positive (scaled.exponent_large overflow) .positive
  simp only [float, eq, Float.Model.pack, packed]
  rfl

lemma pow_log2_le_rounded (some : n ≠ 0) : 2 ^ n.log2 ≤ rounded n := by
  obtain ⟨low, -⟩ := nearest_bounds n (n.log2 - 52)
  have least := Nat.log2_self_le some
  have split : 2 ^ n.log2 = 2 ^ (n.log2 - (n.log2 - 52)) * 2 ^ (n.log2 - 52) := by
    rw [← Nat.pow_add, Nat.sub_add_cancel (Nat.sub_le _ _)]
  have quotient : 2 ^ (n.log2 - (n.log2 - 52)) ≤ n / 2 ^ (n.log2 - 52) := by
    rw [Nat.le_div_iff_mul_le (Nat.two_pow_pos _), ← split]
    exact least
  rw [split]
  exact Nat.mul_le_mul_right _ (quotient.trans low)

lemma pow_le_rounded {j : Nat} (le : 2 ^ j ≤ n) : 2 ^ j ≤ rounded n := by
  have unit := Nat.two_pow_pos j
  have some : n ≠ 0 := by omega
  have log := (Nat.le_log2 some).mpr le
  exact (Nat.pow_le_pow_right Nat.two_pos log).trans (pow_log2_le_rounded some)

lemma rounded_small (small : n ≤ 2 ^ 53) : rounded n = n := by
  by_cases full : n = 2 ^ 53
  · rw [full]
    decide
  · have few : n.log2 - 52 = 0 := by
      by_cases zero : n = 0
      · rw [zero]
        decide
      · have high := (Nat.log2_lt zero).mpr (by omega : n < 2 ^ 53)
        omega
    rw [rounded, few, nearest_zero, Nat.pow_zero, Nat.mul_one]

/-- What is rounded is not rounded again. -/
lemma Scaled.rounded_eq (h : Scaled m e v) : rounded v = v := by
  obtain ⟨some, -⟩ := h.log2_eq
  obtain ⟨m', e', scaled, found⟩ := exists_scaled some
  obtain ⟨positive, eq⟩ := found .positive
  rw [h.ofNatural_eq] at eq
  cases eq
  exact scaled.unique h

lemma float_rounded (n : Nat) : float (rounded n) = float n := by
  by_cases none : n = 0
  · rw [none]
    rfl
  · obtain ⟨m, e, scaled, found⟩ := exists_scaled none
    obtain ⟨positive, eq⟩ := found .positive
    rw [float_scaled scaled, float, eq]

lemma float_ne_overflow (small : rounded a < 2 ^ 1024) (large : 2 ^ 1024 ≤ rounded b) :
    float a ≠ float b := by
  intro same
  have unpacked : (float a).toModel.unpack = (float b).toModel.unpack := by rw [same]
  rw [float_overflow large, unpack_infinity] at unpacked
  by_cases none : a = 0
  · rw [none, unpack_float_zero] at unpacked
    cases unpacked
  · obtain ⟨m, e, positive, eq, -⟩ := unpack_float none small
    rw [eq] at unpacked
    cases unpacked

lemma rounded_of_float (same : float a = float b) (small : rounded a < 2 ^ 1024)
    (small' : rounded b < 2 ^ 1024) : rounded a = rounded b := by
  have unpacked : (float a).toModel.unpack = (float b).toModel.unpack := by rw [same]
  by_cases none : a = 0
  · by_cases none' : b = 0
    · rw [none, none']
    · obtain ⟨m, e, positive, eq, -⟩ := unpack_float none' small'
      rw [none, unpack_float_zero, eq] at unpacked
      cases unpacked
  · obtain ⟨m, e, positive, eq, scaled⟩ := unpack_float none small
    by_cases none' : b = 0
    · rw [none', unpack_float_zero, eq] at unpacked
      cases unpacked
    · obtain ⟨m', e', positive', eq', scaled'⟩ := unpack_float none' small'
      rw [eq, eq'] at unpacked
      cases unpacked
      exact scaled.unique scaled'

/-- Natural numbers are the same number in binary64 if they are after rounding, or if both are too
large. -/
lemma float_inj : float a = float b ↔
    rounded a = rounded b ∨ 2 ^ 1024 ≤ rounded a ∧ 2 ^ 1024 ≤ rounded b := by
  constructor
  · intro same
    by_cases large : 2 ^ 1024 ≤ rounded a
    · by_cases large' : 2 ^ 1024 ≤ rounded b
      · exact .inr ⟨large, large'⟩
      · exact absurd same.symm (float_ne_overflow (by omega) large)
    · by_cases large' : 2 ^ 1024 ≤ rounded b
      · exact absurd same (float_ne_overflow (by omega) large')
      · exact .inl (rounded_of_float same (by omega) (by omega))
  · rintro (same | ⟨large, large'⟩)
    · rw [← float_rounded a, same, float_rounded]
    · rw [float_overflow large, float_overflow large']

/-! ## Arithmetic -/

lemma mul_eq (x y : Float) : x * y =
    .ofModel (.pack (mul .binary64 x.toModel.unpack y.toModel.unpack)) :=
  rfl

lemma div_eq (x y : Float) : x / y =
    .ofModel (.pack (div .binary64 x.toModel.unpack y.toModel.unpack)) :=
  rfl

lemma add_eq (x y : Float) : x + y =
    .ofModel (.pack (add .binary64 x.toModel.unpack y.toModel.unpack)) :=
  rfl

/-- A product is rounded once. -/
lemma float_mul (small : rounded a < 2 ^ 1024) (small' : rounded b < 2 ^ 1024) :
    float a * float b = float (rounded a * rounded b) := by
  rw [mul_eq]
  by_cases none : a = 0
  · by_cases none' : b = 0
    · subst none none'
      rfl
    · obtain ⟨m, e, positive, eq, -⟩ := unpack_float none' small'
      have zero : rounded 0 * rounded b = 0 := Nat.zero_mul _
      rw [none, eq, zero]
      rfl
  · obtain ⟨m, e, positive, eq, scaled⟩ := unpack_float none small
    by_cases none' : b = 0
    · have zero : rounded a * rounded 0 = 0 := Nat.mul_zero _
      rw [none', eq, zero]
      rfl
    · obtain ⟨m', e', positive', eq', scaled'⟩ := unpack_float none' small'
      rw [eq, eq', float, mul, scaled.ofNatural_mul scaled']
      rfl

/-- A sum is rounded once. -/
lemma float_add (small : rounded a < 2 ^ 1024) (small' : rounded b < 2 ^ 1024) :
    float a + float b = float (rounded a + rounded b) := by
  rw [add_eq]
  by_cases none : a = 0
  · by_cases none' : b = 0
    · subst none none'
      rfl
    · obtain ⟨m, e, positive, eq, scaled⟩ := unpack_float none' small'
      have zero : rounded 0 + rounded b = rounded b := Nat.zero_add _
      rw [none, eq, zero, float_scaled scaled]
      rfl
  · obtain ⟨m, e, positive, eq, scaled⟩ := unpack_float none small
    by_cases none' : b = 0
    · have zero : rounded a + rounded 0 = rounded a := Nat.add_zero _
      rw [none', eq, zero, float_scaled scaled]
      rfl
    · obtain ⟨m', e', positive', eq', scaled'⟩ := unpack_float none' small'
      rw [eq, eq', float, add, scaled.ofNatural_add scaled']

lemma infinity_mul (some : b ≠ 0) (small : rounded b < 2 ^ 1024) :
    infinity * float b = infinity := by
  obtain ⟨m, e, positive, eq, -⟩ := unpack_float some small
  rw [mul_eq, unpack_infinity, eq]
  rfl

lemma infinity_add (small : rounded b < 2 ^ 1024) : infinity + float b = infinity := by
  rw [add_eq, unpack_infinity]
  by_cases none : b = 0
  · rw [none]
    rfl
  · obtain ⟨m, e, positive, eq, -⟩ := unpack_float none small
    rw [eq]
    rfl

/-- A quotient by one is exact. -/
lemma float_div_one (small : rounded a < 2 ^ 1024) : float a / float 1 = float (rounded a) := by
  rw [div_eq]
  by_cases none : a = 0
  · rw [none]
    rfl
  · obtain ⟨m, e, positive, eq, scaled⟩ := unpack_float none small
    have one : (float 1).toModel.unpack = .finite .positive (2 ^ 52) (-52) (by decide) := by
      rfl
    rw [eq, one, float, div, scaled.ofNatural_div_one]
    rfl

/-! ## Conversions -/

lemma one_eq : Float.ofBits 0x3FF0000000000000 = float 1 := by
  decide +kernel

lemma rounded_one : rounded 1 = 1 :=
  rounded_small (by decide)

lemma toFloat_eq (small : n < 2 ^ 53) : n.toUInt64.toFloat = float n := by
  have number : n.toUInt64.toNat = n := by
    rw [Nat.toUInt64_eq, UInt64.toNat_ofNat', Nat.mod_eq_of_lt (by omega)]
  change Float.ofModel
    (.pack (UnpackedFloat.normalize .binary64 (n.toUInt64.toNat : Int) 0 .positive)) = _
  rw [number, float]
  by_cases zero : n = 0
  · rw [zero]
    rfl
  · have order : compare (n : Int) 0 = .gt := by
      rw [compare_gt_iff_gt]
      omega
    simp only [UnpackedFloat.normalize, order, Int.toNat_natCast]
    rw [round_scale zero zero rfl (by omega : (0 : Int) = (0 : Nat) - (0 : Nat))]

/-- A large natural number comes from its digits directly. -/
lemma ofScientific_zero (large : 2 ^ 53 ≤ n) :
    Float.ofModel (Float.Model.ofScientific n 0) = float n := by
  have some : n ≠ 0 := by omega
  have wide : 2 ^ 52 ≤ n * 2 ^ 53 * 1 := by omega
  have same : n * 2 ^ 53 * 1 * 2 ^ 0 = n * 2 ^ 53 := by omega
  have high : ¬(0 : Int) > 2 ^ Format.binary64.exponentBits := by decide
  have low : ¬(0 : Int) < -(2 ^ Format.binary64.exponentBits + n.log2) := by
    have bits : (0 : Int) ≤ 2 ^ Format.binary64.exponentBits := by decide
    omega
  rw [float, ← roundWithAccuracy_scale some wide same]
  simp only [Float.Model.ofScientific, ofScientific, dif_neg some, if_neg high, if_neg low,
    le_refl, if_true, mul, Nat.shiftLeft_eq]
  rfl

/-- A decimal without a fraction denotes the nearest number. -/
lemma ofScientific_eq (n : Nat) (down : Bool) : Float.ofScientific n down 0 = float n := by
  by_cases small : n < 2 ^ 53
  · have exact := rounded_small small.le
    have one := rounded_one
    have inside : rounded n < 2 ^ 1024 := by omega
    have inside' : rounded 1 < 2 ^ 1024 := by omega
    rw [Float.ofScientific, dif_pos ⟨small, by decide⟩, toFloat_eq small]
    change (if down then float n / Float.ofBits 0x3FF0000000000000
      else float n * Float.ofBits 0x3FF0000000000000) = _
    rw [one_eq, float_div_one inside, float_mul inside inside', exact, one, Nat.mul_one, ite_self]
  · rw [Float.ofScientific, dif_neg (fun fast => small fast.1), ← ofScientific_zero (by omega)]
    cases down <;> rfl

lemma ofNat_eq (n : Nat) : Float.ofNat n = float n :=
  ofScientific_eq n false

end Lox.Binary
