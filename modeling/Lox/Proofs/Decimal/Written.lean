import Lox.Proofs.Decimal.Numeral
import Lox.Proofs.Decimal.Shortest

/-!
The written forms of binary64 numbers. Different finite numbers are written differently.
-/

namespace Lox

namespace Magnitude

variable {bits bits' : Nat} {m : Nat} {q : Int}

lemma normal_of_bits (h : ofBits bits = .finite m q) : Normal m q := by
  have fraction : bits % 2 ^ 52 < 2 ^ 52 := Nat.mod_lt _ (by decide)
  have biased : bits / 2 ^ 52 % 2 ^ 11 < 2 ^ 11 := Nat.mod_lt _ (by decide)
  simp only [ofBits, Nat.pow_eq] at h
  split_ifs at h with special _ least none
  · cases h
    exact ⟨by omega, by omega, by omega, by omega, by omega⟩
  · cases h
    exact ⟨by omega, by omega, by simp only [Int.ofNat_eq_natCast]; omega,
      by simp only [Int.ofNat_eq_natCast]; omega, by omega⟩

/-- The sign and the size of a number are all of its bits. -/
lemma bits_unique (h : bits < 2 ^ 64) (h' : bits' < 2 ^ 64) (sign : signBit bits = signBit bits')
    (size : ofBits bits = ofBits bits') (number : ofBits bits ≠ .nan) : bits = bits' := by
  have sign : bits / 2 ^ 63 % 2 = bits' / 2 ^ 63 % 2 := by
    have same : bits / 2 ^ 63 % 2 = 1 ↔ bits' / 2 ^ 63 % 2 = 1 := by
      simpa only [signBit, Nat.pow_eq, beq_iff_eq] using Bool.eq_iff_iff.mp sign
    omega
  have biased : bits / 2 ^ 52 % 2 ^ 11 = bits' / 2 ^ 52 % 2 ^ 11 ∧
      bits % 2 ^ 52 = bits' % 2 ^ 52 := by
    simp only [ofBits, Nat.pow_eq] at size number
    split_ifs at size number <;> simp only [finite.injEq, reduceCtorEq, ne_eq,
      not_true_eq_false, Int.ofNat_eq_natCast] at size number <;> omega
  omega

lemma of_isFinite {x : Float} (h : x.isFinite = true) :
    ofBits x.toBits.toNat ≠ .nan ∧ ofBits x.toBits.toNat ≠ .infinite := by
  have exponent : x.toBits.toNat / 2 ^ 52 % 2 ^ 11 ≠ 2047 := by
    intro special
    have ones : @Float.Model.UnpackedFloat.unpackExponent .binary64
        x.toModel.toBits.toBitVec = -1#11 := by
      apply BitVec.eq_of_toNat_eq
      simp only [Float.Model.UnpackedFloat.unpackExponent, BitVec.toNat_cast,
        BitVec.extractLsb_toNat, Nat.shiftRight_eq_div_pow]
      exact special
    delta Float.isFinite Float.Model.isFinite Float.Model.unpack
      Float.Model.UnpackedFloat.unpack at h
    dsimp only at h
    rw [if_pos ones] at h
    split at h <;> cases h
  simp only [ofBits, Nat.pow_eq]
  rw [if_neg exponent]
  split_ifs <;> simp

end Magnitude

/-- Two numbers with the same bits are the same number. -/
lemma eq_of_toBits {x y : Float} (same : x.toBits = y.toBits) : x = y := by
  obtain ⟨⟨bits, valid⟩⟩ := x
  obtain ⟨⟨bits', valid'⟩⟩ := y
  obtain rfl : bits = bits' := same
  rfl

namespace Numeral

/-- A character with which a number is written. -/
def IsMark (c : Char) : Prop :=
  c.isDigit = true ∨ c ∈ ['.', 'e', '-']

/-- What a number is written as, its sign aside: a digit comes first. -/
structure Spelled (cs : List Char) : Prop where
  starts : ∃ first rest, cs = first :: rest ∧ first.isDigit = true
  marks : ∀ c ∈ cs, IsMark c

variable {digits cs ds : List Char}

lemma marks_zeros (n : Nat) : ∀ c ∈ List.replicate n '0', IsMark c := by
  intro c within
  rw [List.eq_of_mem_replicate within]
  exact .inl rfl

lemma marks_append (first : ∀ c ∈ cs, IsMark c) (second : ∀ c ∈ ds, IsMark c) :
    ∀ c ∈ cs ++ ds, IsMark c := by
  intro c within
  exact (List.mem_append.mp within).elim (first c) (second c)

lemma marks_cons {mark : Char} (listed : mark ∈ ['.', 'e', '-']) (others : ∀ c ∈ cs, IsMark c) :
    ∀ c ∈ mark :: cs, IsMark c :=
  List.forall_mem_cons.mpr ⟨.inr listed, others⟩

lemma Spelled.of_digits (some : digits ≠ []) (hd : ∀ c ∈ digits, c.isDigit = true) :
    Spelled digits := by
  obtain ⟨first, rest, rfl⟩ := List.exists_cons_of_ne_nil some
  exact ⟨⟨first, rest, rfl, hd first List.mem_cons_self⟩, fun c within => .inl (hd c within)⟩

lemma Spelled.append (h : Spelled cs) (more : ∀ c ∈ ds, IsMark c) : Spelled (cs ++ ds) := by
  obtain ⟨first, rest, rfl, starts⟩ := h.starts
  exact ⟨⟨first, rest ++ ds, rfl, starts⟩, marks_append h.marks more⟩

lemma marks_toString (k : Int) : ∀ c ∈ (toString k).toList, IsMark c := by
  have digits (n : Nat) : ∀ c ∈ Nat.toDigits 10 n, IsMark c :=
    fun c within => .inl (Nat.isDigit_of_mem_toDigits (by decide) (by decide) within)
  rw [Int.toString_eq_repr, Int.repr_eq_if]
  split
  · rw [Nat.toList_repr]
    exact digits _
  · rw [String.toList_append, Nat.toList_repr]
    exact marks_cons (by decide : '-' ∈ _) (digits _)

end Numeral

namespace Layout

open Numeral

variable {l : Layout} {x y : Float} {digits : List Char}

lemma spelled_inFull (pointed : Bool) (some : digits ≠ []) (hd : ∀ c ∈ digits, c.isDigit = true)
    (k : Int) : Spelled (inFull pointed digits k) := by
  unfold inFull
  simp only
  split
  · refine ((Spelled.of_digits some hd).append (marks_zeros _)).append ?_
    cases pointed with
    | false => exact List.forall_mem_nil _
    | true => exact marks_cons (by decide) (marks_zeros 1)
  · split
    · next positive =>
      have some : digits.take (Int.ofNat digits.length + k).toNat ≠ [] := by
        rw [ne_eq, List.take_eq_nil_iff, not_or]
        exact ⟨by omega, some⟩
      refine (Spelled.of_digits some fun c within => hd c (List.mem_of_mem_take within)).append ?_
      exact marks_cons (by decide) fun c within => .inl (hd c (List.mem_of_mem_drop within))
    · have zero : Spelled ['0'] := .of_digits (by decide) (List.forall_mem_singleton.mpr rfl)
      refine zero.append (marks_cons (by decide) ?_)
      exact marks_append (marks_zeros _) fun c within => .inl (hd c within)

lemma spelled_scientific (some : digits ≠ []) (hd : ∀ c ∈ digits, c.isDigit = true) (k : Int) :
    Spelled (scientific digits k) := by
  obtain ⟨first, others, rfl⟩ := List.exists_cons_of_ne_nil some
  have start : Spelled [first] :=
    .of_digits (List.cons_ne_nil _ _) (by simpa using hd first List.mem_cons_self)
  refine (start.append ?_).append (marks_cons (by decide) (marks_toString _))
  split
  · exact marks_cons (by decide) fun c within => .inl (hd c (List.mem_cons_of_mem _ within))
  · exact List.forall_mem_nil _

lemma spelled_digits (l : Layout) (d : Decimal) : Spelled (l.digits d) := by
  have hd : ∀ c ∈ Nat.toDigits 10 d.coefficient, c.isDigit = true :=
    fun c within => Nat.isDigit_of_mem_toDigits (by decide) (by decide) within
  unfold Layout.digits
  simp only
  split
  · exact spelled_inFull _ Nat.toDigits_ne_nil hd _
  · split
    · exact spelled_inFull _ Nat.toDigits_ne_nil hd _
    · exact spelled_scientific Nat.toDigits_ne_nil hd _

/-- What is written of a finite number behind its sign denotes a rational that rounds to it. -/
lemma text_finite (l : Layout) (finite : x.isFinite = true) : ∃ body,
    (l.text x).toList = (if signBit x.toBits.toNat then ['-'] else []) ++ body ∧ Spelled body ∧
      (Magnitude.ofBits x.toBits.toNat = .zero ∧ rational body = 0 ∨
        ∃ m q, Magnitude.ofBits x.toBits.toNat = .finite m q ∧
          (Rounding.ofBinary m q).Contains (rational body)) := by
  obtain ⟨number, bounded⟩ := Magnitude.of_isFinite finite
  have sign : (if signBit x.toBits.toNat then "-" else "").toList =
      if signBit x.toBits.toNat then ['-'] else [] := by
    split <;> rfl
  rw [text, textOfBits]
  cases size : Magnitude.ofBits x.toBits.toNat with
  | nan => exact absurd size number
  | infinite => exact absurd size bounded
  | zero =>
    have whole : (if l.pointed then "0.0" else "0").toList = inFull l.pointed ['0'] 0 := by
      cases l.pointed <;> rfl
    have digits : ∀ c ∈ ['0'], c.isDigit = true := List.forall_mem_singleton.mpr rfl
    refine ⟨inFull l.pointed ['0'] 0, ?_, spelled_inFull _ (by decide) digits 0, .inl ⟨rfl, ?_⟩⟩
    · rw [String.toList_append, sign, whole]
    · rw [rational_inFull l.pointed digits, show natural ['0'] = 0 from rfl, Nat.cast_zero,
        zero_mul]
  | finite m q =>
    have contains := Decimal.shortest_contains (Magnitude.normal_of_bits size)
    refine ⟨l.digits (Decimal.shortest m q), ?_, spelled_digits l _, .inr ⟨m, q, rfl, ?_⟩⟩
    · rw [String.toList_append, sign, String.toList_ofList]
    · rwa [rational_digits]

/-- No number but zero rounds to zero. -/
lemma not_contains_zero {m : Nat} {q : Int} (h : Magnitude.Normal m q) :
    ¬(Rounding.ofBinary m q).Contains 0 := by
  rw [Rounding.contains_ofBinary]
  rintro ⟨low, -, -⟩
  have unit : (0 : ℚ) < 2 ^ (q - 2) := zpow_pos (by norm_num) (q - 2)
  have some : 0 < 4 * m - Rounding.gap m := by
    have positive := h.positive
    unfold Rounding.gap
    split <;> omega
  have positive : (0 : ℚ) < (4 * m - Rounding.gap m : Nat) := by exact_mod_cast some
  exact absurd low (not_le.mpr (mul_pos positive unit))

/-- Different finite numbers are written differently. -/
theorem text_injective (hx : x.isFinite = true) (hy : y.isFinite = true)
    (same : l.text x = l.text y) : x = y := by
  obtain ⟨body, written, spelled, size⟩ := text_finite l hx
  obtain ⟨body', written', spelled', size'⟩ := text_finite l hy
  obtain ⟨first, rest, rfl, starts⟩ := spelled.starts
  obtain ⟨first', rest', rfl, starts'⟩ := spelled'.starts
  rw [same, written'] at written
  -- a digit comes first behind the sign, so the sign is seen
  have signs : signBit x.toBits.toNat = signBit y.toBits.toNat ∧
      first :: rest = first' :: rest' := by
    cases hs : signBit x.toBits.toNat <;> cases hs' : signBit y.toBits.toNat <;>
      rw [hs, hs'] at written
    · exact ⟨rfl, written.symm⟩
    · obtain rfl : '-' = first := (List.cons.inj written).1
      cases starts
    · obtain rfl : first' = '-' := (List.cons.inj written).1
      cases starts'
    · exact ⟨rfl, (List.cons.inj written).2.symm⟩
  obtain ⟨sign, body⟩ := signs
  rw [← body] at size'
  have sizes : Magnitude.ofBits x.toBits.toNat = Magnitude.ofBits y.toBits.toNat := by
    rcases size with ⟨zero, none⟩ | ⟨m, q, size, contains⟩ <;>
      rcases size' with ⟨zero', none'⟩ | ⟨m', q', size', contains'⟩
    · rw [zero, zero']
    · rw [none] at contains'
      exact absurd contains' (not_contains_zero (Magnitude.normal_of_bits size'))
    · rw [none'] at contains
      exact absurd contains (not_contains_zero (Magnitude.normal_of_bits size))
    · obtain ⟨rfl, rfl⟩ := Rounding.contains_unique (Magnitude.normal_of_bits size)
        (Magnitude.normal_of_bits size') contains contains'
      rw [size, size']
  have bits := Magnitude.bits_unique x.toBits.toNat_lt y.toBits.toNat_lt sign sizes
    (Magnitude.of_isFinite hx).1
  exact eq_of_toBits (UInt64.toNat_inj.mp bits)

end Layout

end Lox
