import Lox.Proofs.Decimal.Rounding
import Mathlib

/-!
Binary64 numbers taken apart into a sign, a mantissa and an exponent, and put together again. What
is put together in normal form is found again; an exponent that is too large gives an infinity.
-/

namespace Lox.Binary

open Float.Model (Format UnpackedFloat)
open Float.Model.UnpackedFloat

variable {m : Nat} {e : Int}

/-- The size of a number, its sign aside. -/
def magnitude : UnpackedFloat → Magnitude
  | .infinity _ => .infinite
  | .notANumber => .nan
  | .zero _ => .zero
  | .finite _ m e _ => .finite m e

/-- Whether a number has a minus. -/
def isNegative : UnpackedFloat → Bool
  | .infinity s | .zero s | .finite s _ _ _ => s == .negative
  | .notANumber => false

lemma unpackSign_packComponents (s : Sign) (exponent : BitVec 11) (mantissa : BitVec 52) :
    Sign.ofBitVec (unpackSign (packComponents .binary64 s exponent mantissa)) = s := by
  simp only [unpackSign, packComponents, BitVec.extractLsb]
  rw [BitVec.extractLsb'_append_eq_of_le (by omega), BitVec.extractLsb'_append_eq_of_le (by omega)]
  cases s <;> rfl

/-- The first digit of a normal mantissa is not stored. -/
lemma toNat_implicit (mantissa : BitVec 52) :
    (1#1 ++ mantissa).toNat = 2 ^ 52 + mantissa.toNat := by
  rw [BitVec.toNat_append, ← Nat.shiftLeft_add_eq_or_of_lt mantissa.isLt]
  rfl

lemma log2_mantissa (large : 2 ^ 52 ≤ m) (fits : m < 2 ^ 53) : m.log2 = 52 := by
  rw [Nat.log2_eq_iff (by omega)]
  exact ⟨large, fits⟩

/-- A number in normal form is found again. -/
lemma unpack_pack (h : Magnitude.Normal m e) (large : 2 ^ 52 ≤ m) (s : Sign) :
    unpack .binary64 (pack .binary64 (.finite s m e h.positive)) = .finite s m e h.positive := by
  have fits := h.fits
  have least := h.least
  have most := h.most
  have log := log2_mantissa large fits
  have biased : (e + Format.binary64.exponentBias +
      Format.binary64.mantissaBitsWithoutImplicit).toNat = (e + 1075).toNat := by
    change (e + (1023 : Nat) + (52 : Nat)).toNat = _
    omega
  have exponent : (BitVec.ofNat 11 (e + 1075).toNat).toNat = (e + 1075).toNat := by
    rw [BitVec.toNat_ofNat, Nat.mod_eq_of_lt (by omega)]
  have special : BitVec.ofNat 11 (e + 1075).toNat ≠ -1#11 := by
    intro same
    have numbers := congrArg BitVec.toNat same
    rw [exponent] at numbers
    change _ = 2047 at numbers
    omega
  have some : BitVec.ofNat 11 (e + 1075).toNat ≠ 0#11 := by
    intro same
    have numbers := congrArg BitVec.toNat same
    rw [exponent] at numbers
    change _ = 0 at numbers
    omega
  have mantissa : (1#1 ++ BitVec.ofNat 52 m).toNat = m := by
    rw [toNat_implicit, BitVec.toNat_ofNat]
    omega
  rw [pack]
  simp only [log, biased]
  rw [if_neg (by omega), if_pos (by decide), unpack]
  simp only [unpackMantissa_packComponents, unpackExponent_packComponents,
    unpackSign_packComponents]
  rw [if_neg special, if_neg some]
  have bias : ((Format.binary64.exponentBias : Nat) : Int) = 1023 := rfl
  simp only [mantissa, exponent, bias, UnpackedFloat.finite.injEq, true_and]
  omega

/-- A number that is too large is packed as an infinity. -/
lemma pack_large (positive : 0 < m) (large : 971 < e) (s : Sign) :
    pack .binary64 (.finite s m e positive) = packedInfinity .binary64 s := by
  have biased : 2 ^ Format.binary64.exponentBits ≤ (e + Format.binary64.exponentBias +
      Format.binary64.mantissaBitsWithoutImplicit).toNat + 1 := by
    change 2048 ≤ (e + (1023 : Nat) + (52 : Nat)).toNat + 1
    omega
  simp only [pack, if_pos biased]

/-- The size and the sign of a number can be read off its bits. -/
lemma ofBits_eq (x : Float) : Magnitude.ofBits x.toBits.toNat = magnitude x.toModel.unpack ∧
    (magnitude x.toModel.unpack ≠ .nan →
      signBit x.toBits.toNat = isNegative x.toModel.unpack) := by
  let bits := x.toModel.toBits.toBitVec
  have exponent : (@unpackExponent .binary64 bits).toNat =
      x.toBits.toNat / 2 ^ 52 % 2 ^ 11 := by
    simp only [unpackExponent, BitVec.toNat_cast, BitVec.extractLsb_toNat,
      Nat.shiftRight_eq_div_pow]
    rfl
  have mantissa : (@unpackMantissa .binary64 bits).toNat = x.toBits.toNat % 2 ^ 52 := by
    simp only [unpackMantissa, BitVec.toNat_cast, BitVec.extractLsb_toNat,
      Nat.shiftRight_eq_div_pow]
    rw [Nat.pow_zero, Nat.div_one]
    rfl
  have sign : (@unpackSign .binary64 bits).toNat = x.toBits.toNat / 2 ^ 63 % 2 := by
    simp only [unpackSign, BitVec.toNat_cast, BitVec.extractLsb_toNat,
      Nat.shiftRight_eq_div_pow]
    rfl
  have negative : signBit x.toBits.toNat =
      (Sign.ofBitVec (@unpackSign .binary64 bits) == .negative) := by
    have minus : @unpackSign .binary64 bits = 0#1 ↔ x.toBits.toNat / 2 ^ 63 % 2 = 0 := by
      rw [← BitVec.toNat_inj, sign]
      rfl
    have two : x.toBits.toNat / 2 ^ 63 % 2 < 2 := Nat.mod_lt _ (by decide)
    simp only [signBit, Sign.ofBitVec, minus, Nat.pow_eq]
    split
    · next zero => rw [zero]; rfl
    · next one =>
      rw [show x.toBits.toNat / 2 ^ 63 % 2 = 1 by omega]
      rfl
  have special : @unpackExponent .binary64 bits = -1#11 ↔
      x.toBits.toNat / 2 ^ 52 % 2 ^ 11 = 2047 := by
    rw [← BitVec.toNat_inj, exponent]
    rfl
  have least : @unpackExponent .binary64 bits = 0#11 ↔
      x.toBits.toNat / 2 ^ 52 % 2 ^ 11 = 0 := by
    rw [← BitVec.toNat_inj, exponent]
    rfl
  have none : @unpackMantissa .binary64 bits = 0#52 ↔ x.toBits.toNat % 2 ^ 52 = 0 := by
    rw [← BitVec.toNat_inj, mantissa]
    rfl
  have bias : ((Format.binary64.exponentBias : Nat) : Int) = 1023 := rfl
  change Magnitude.ofBits x.toBits.toNat = magnitude (unpack .binary64 bits) ∧
    (magnitude (unpack .binary64 bits) ≠ .nan →
      signBit x.toBits.toNat = isNegative (unpack .binary64 bits))
  simp only [Magnitude.ofBits, unpack, special, least, none, Nat.pow_eq]
  split_ifs
  · exact ⟨rfl, fun _ => negative⟩
  · exact ⟨rfl, fun number => absurd rfl number⟩
  · exact ⟨rfl, fun _ => negative⟩
  · next zero _ =>
    refine ⟨?_, fun _ => negative⟩
    simp only [magnitude, mantissa, exponent, zero, bias]
    rfl
  · refine ⟨?_, fun _ => negative⟩
    simp only [magnitude, toNat_implicit, mantissa, exponent, bias, Magnitude.finite.injEq,
      true_and, Int.ofNat_eq_natCast]
    omega

end Lox.Binary
