/-!
Reading numbers. A decimal numeral denotes the binary64 number nearest to it; an octal numeral is
summed digit by digit in binary64, so a long one rounds at each step.
-/

namespace Lox.Numeral

/-- Decimal digits, ASCII only. -/
def isDigit (c : Char) : Bool :=
  '0' ≤ c && c ≤ '9'

/-- Digits of base eight. -/
def isOctalDigit (c : Char) : Bool :=
  '0' ≤ c && c ≤ '7'

/-- The value of one digit. -/
def digitValue (c : Char) : Nat :=
  c.toNat - '0'.toNat

/-- The natural number that decimal digits denote. -/
def natural (cs : List Char) : Nat :=
  cs.foldl (fun n c => 10 * n + digitValue c) 0

/-- The number that digits, and more digits after a point, denote. -/
def decimal (whole fraction : List Char) : Float :=
  Float.ofScientific (natural (whole ++ fraction)) true fraction.length

/-- The number that octal digits denote. -/
def octal (cs : List Char) : Float :=
  cs.foldl (fun x c => x * 8 + Float.ofNat (digitValue c)) 0

/-- A numeral with an optional sign, fraction and exponent, or `inf` or `NaN`. -/
def read? (s : String) : Option Float :=
  let (negative, cs) :=
    match s.toList with
    | '-' :: cs => (true, cs)
    | '+' :: cs => (false, cs)
    | cs => (false, cs)
  let signed (x : Float) : Float := if negative then -x else x
  match String.ofList cs with
  | "inf" => some (signed (1 / 0))
  | "NaN" => some (0 / 0)
  | _ =>
    let whole := cs.takeWhile isDigit
    let afterWhole := cs.dropWhile isDigit
    let (fraction, afterFraction) :=
      match afterWhole with
      | '.' :: r => (r.takeWhile isDigit, r.dropWhile isDigit)
      | r => ([], r)
    if whole.isEmpty && fraction.isEmpty then none
    else
      let scaled (exponent : Int) : Float :=
        let e := exponent - Int.ofNat fraction.length
        let m := natural (whole ++ fraction)
        signed (if e < 0 then Float.ofScientific m true e.natAbs
          else Float.ofScientific m false e.natAbs)
      match afterFraction with
      | [] => some (scaled 0)
      | c :: r =>
        if c = 'e' || c = 'E' then
          let (down, ds) :=
            match r with
            | '-' :: ds => (true, ds)
            | '+' :: ds => (false, ds)
            | ds => (false, ds)
          if ds.isEmpty || !ds.all isDigit then none
          else
            let n := Int.ofNat (natural ds)
            some (scaled (if down then -n else n))
        else none

end Lox.Numeral
