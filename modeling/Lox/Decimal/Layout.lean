import Lox.Decimal.Shortest

/-!
How a number is written. The digits are always the shortest ones; a layout says where the point
and the exponent go and how the values without digits are called.
-/

namespace Lox

/-- The decisions of one written form of numbers. -/
structure Layout where
  /-- The weights of the leading digit for which no exponent is written; always, if absent. -/
  positional : Option (Int × Int)
  /-- Whether a whole number ends in a point and a zero. -/
  pointed : Bool
  infinity : String
deriving DecidableEq, Inhabited

namespace Layout

/-- Every number in full, whole numbers without a point. -/
def plain : Layout :=
  ⟨none, false, "inf"⟩

/-- Literals in listings: a whole number keeps its point, and an exponent is written from `10 ^ 16`
on and below `10 ^ -4`. -/
def literal : Layout :=
  ⟨some (-4, 16), true, "inf"⟩

/-- What the language prints. -/
def printed : Layout :=
  ⟨none, false, "Infinity"⟩

/-- All digits at their weights, padded with zeros. -/
def inFull (pointed : Bool) (digits : List Char) (exponent : Int) : List Char :=
  let whole := Int.ofNat digits.length + exponent
  if 0 ≤ exponent then
    digits ++ List.replicate exponent.toNat '0' ++ (if pointed then ['.', '0'] else [])
  else if 0 < whole then
    digits.take whole.toNat ++ '.' :: digits.drop whole.toNat
  else '0' :: '.' :: List.replicate (-whole).toNat '0' ++ digits

/-- One digit, the others after a point, and the exponent. -/
def scientific (digits : List Char) (exponent : Int) : List Char :=
  let weight := Int.ofNat digits.length - 1 + exponent
  digits.take 1 ++ (if 1 < digits.length then '.' :: digits.drop 1 else []) ++
    'e' :: (toString weight).toList

/-- The digits of a decimal under a layout. -/
def digits (l : Layout) (d : Decimal) : List Char :=
  let ds := Nat.toDigits 10 d.coefficient
  let weight := Int.ofNat ds.length - 1 + d.exponent
  match l.positional with
  | none => inFull l.pointed ds d.exponent
  | some (least, bound) =>
    if least ≤ weight && weight < bound then inFull l.pointed ds d.exponent
    else scientific ds d.exponent

/-- The text of a number given by its 64 bits. -/
def textOfBits (l : Layout) (bits : Nat) : String :=
  let sign := if signBit bits then "-" else ""
  match Magnitude.ofBits bits with
  | .nan => "NaN"
  | .infinite => sign ++ l.infinity
  | .zero => sign ++ (if l.pointed then "0.0" else "0")
  | .finite m q => sign ++ String.ofList (l.digits (Decimal.shortest m q))

/-- The text of a number. -/
def text (l : Layout) (x : Float) : String :=
  l.textOfBits x.toBits.toNat

end Layout

end Lox
