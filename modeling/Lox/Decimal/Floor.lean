import Lox.Decimal.Shortest

/-!
Rounding toward negative infinity, by exact arithmetic on the bits of a number.
-/

namespace Lox.Floor

/-- The greatest integer that is no greater than a finite number. -/
def integer? (x : Float) : Option Int :=
  match Magnitude.ofBits x.toBits.toNat with
  | .nan | .infinite => none
  | .zero => some 0
  | .finite m q =>
    let n : Int := if signBit x.toBits.toNat then -Int.ofNat m else Int.ofNat m
    some (Int.fdiv (n * Int.ofNat (Nat.pow 2 q.toNat)) (Int.ofNat (Nat.pow 2 (-q).toNat)))

/-- Whether a number has no binary digits after the point: the zeros, the infinities, NaN, and all
numbers of large exponent. -/
def isCoarse (x : Float) : Bool :=
  match Magnitude.ofBits x.toBits.toNat with
  | .finite _ q => 0 ≤ q
  | _ => true

/-- The number rounded down. A negative zero stays one. -/
def float (x : Float) : Float :=
  if isCoarse x then x
  else match integer? x with
    | some n => Float.ofInt n
    | none => x

/-- The natural number that a number is, or that it is rounded down to. What is below zero and what
is no finite number counts as zero. -/
def natural (x : Float) : Nat :=
  ((integer? x).getD 0).toNat

end Lox.Floor
