/-!
The shortest decimal of a binary64 number: of the decimals that lie in the interval of reals that
round to the number, those with the fewest digits, and of these the nearest. All steps are exact
arithmetic on natural numbers.
-/

namespace Lox

/-- The decimal `coefficient * 10 ^ exponent`. -/
structure Decimal where
  coefficient : Nat
  exponent : Int
deriving DecidableEq, Inhabited

/-- The sizes of a float, its sign aside. -/
inductive Magnitude
  | nan
  | infinite
  | zero
  /-- The number is `mantissa * 2 ^ exponent`, with a positive mantissa. -/
  | finite (mantissa : Nat) (exponent : Int)
deriving DecidableEq, Inhabited

namespace Magnitude

/-- Reads the fields of the 64 bits. -/
def ofBits (bits : Nat) : Magnitude :=
  let biased := bits / Nat.pow 2 52 % Nat.pow 2 11
  let fraction := bits % Nat.pow 2 52
  if biased = 2047 then
    if fraction = 0 then .infinite else .nan
  else if biased = 0 then
    if fraction = 0 then .zero else .finite fraction (-1074)
  else .finite (Nat.pow 2 52 + fraction) (Int.ofNat biased - 1075)

end Magnitude

/-- Whether the sign bit of the 64 bits is set. -/
def signBit (bits : Nat) : Bool :=
  bits / Nat.pow 2 63 % 2 == 1

/-- The positive rational `num / den` with the interval of numbers that round to it, all three over
one denominator. `closed` says that the ends belong to the interval. -/
structure Rounding where
  low : Nat
  value : Nat
  high : Nat
  den : Nat
  closed : Bool
deriving DecidableEq, Inhabited

namespace Rounding

/-- The numbers that round to `m * 2 ^ q`. Below a power of two the neighbour is half as far. -/
def ofBinary (m : Nat) (q : Int) : Rounding :=
  let below := if m = Nat.pow 2 52 then 1 else 2
  let up := Nat.pow 2 (q - 2).toNat
  ⟨(4 * m - below) * up, 4 * m * up, (4 * m + 2) * up, Nat.pow 2 (2 - q).toNat, m % 2 == 0⟩

/-- Whether `c * 10 ^ k` rounds to the number. -/
def holds (r : Rounding) (c : Nat) (k : Int) : Bool :=
  let x := c * Nat.pow 10 k.toNat * r.den
  let unit := Nat.pow 10 (-k).toNat
  if r.closed then r.low * unit ≤ x && x ≤ r.high * unit
  else r.low * unit < x && x < r.high * unit

/-- Whether the number is below `10 ^ e`. -/
def below (r : Rounding) (e : Int) : Bool :=
  r.value * Nat.pow 10 (-e).toNat < r.den * Nat.pow 10 e.toNat

/-- The least exponent from `e` on, among the next `n`, whose power of ten is above the number. -/
def leastAbove (r : Rounding) (e : Int) : Nat → Int
  | 0 => e
  | n + 1 => if r.below e then e else leastAbove r (e + 1) n

/-- The exponent `e` with `10 ^ (e - 1) ≤ value / den < 10 ^ e`, sought from an estimate by the
number of bits. -/
def width (r : Rounding) : Int :=
  let bits := Int.ofNat r.value.log2 - Int.ofNat r.den.log2
  r.leastAbove (Int.fdiv (bits * 30103) 100000 - 1) 5

/-- The decimal nearest to the number among the two neighbours on the grid of step `10 ^ k` that
round to it, if one does. A tie goes up. -/
def onGrid? (r : Rounding) (k : Int) : Option Nat :=
  let num := r.value * Nat.pow 10 (-k).toNat
  let den := r.den * Nat.pow 10 k.toNat
  let c := num / den
  match r.holds c k, r.holds (c + 1) k with
  | true, true => some (if 2 * (num % den) < den then c else c + 1)
  | true, false => some c
  | false, true => some (c + 1)
  | false, false => none

/-- Tries grids of one digit more at each step. -/
def firstGrid (r : Rounding) (k : Int) : Nat → Decimal
  | 0 => ⟨r.value / r.den, 0⟩
  | n + 1 =>
    match r.onGrid? k with
    | some c => ⟨c, k⟩
    | none => firstGrid r (k - 1) n

end Rounding

namespace Decimal

/-- Moves the final zeros of a coefficient into the exponent, at most `n` of them. -/
def trim (d : Decimal) : Nat → Decimal
  | 0 => d
  | n + 1 =>
    if d.coefficient % 10 = 0 && d.coefficient != 0 then
      trim ⟨d.coefficient / 10, d.exponent + 1⟩ n
    else d

/-- The shortest decimal that rounds to `m * 2 ^ q`; 17 digits always suffice. -/
def shortest (m : Nat) (q : Int) : Decimal :=
  let r := Rounding.ofBinary m q
  (r.firstGrid (r.width - 1) 17).trim 20

end Decimal

end Lox
