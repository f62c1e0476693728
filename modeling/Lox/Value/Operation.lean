import Lox.Decimal.Floor
import Lox.Value.Fault

/-!
What the operators and the built-in functions do with values. Types are never converted.
-/

namespace Lox

namespace Value

def negate : Value → Except Fault Value
  | .number x => .ok (.number (-x))
  | v => .error (.notNumber v)

/-- Sums numbers and joins strings. -/
def add : Value → Value → Except Fault Value
  | .number x, .number y => .ok (.number (x + y))
  | .string s, .string t => .ok (.string (s ++ t))
  | l, r => .error (.notAddable l r)

/-- An operation on two numbers. -/
def numeric (op : Float → Float → Value) : Value → Value → Except Fault Value
  | .number x, .number y => .ok (op x y)
  | l, r => .error (.notNumbers l r)

def subtract : Value → Value → Except Fault Value :=
  numeric fun x y => .number (x - y)

def multiply : Value → Value → Except Fault Value :=
  numeric fun x y => .number (x * y)

/-- Dividing by zero gives an infinity or NaN. -/
def divide : Value → Value → Except Fault Value :=
  numeric fun x y => .number (x / y)

def less : Value → Value → Except Fault Value :=
  numeric fun x y => .bool (x < y)

def lessEqual : Value → Value → Except Fault Value :=
  numeric fun x y => .bool (x ≤ y)

def greater : Value → Value → Except Fault Value :=
  numeric fun x y => .bool (y < x)

def greaterEqual : Value → Value → Except Fault Value :=
  numeric fun x y => .bool (y ≤ x)

end Value

namespace Native

/-- The characters from `start` on, up to but without `stop`. -/
def slice (text : List Char) (start stop : Nat) : List Char :=
  (text.drop start).take (stop - start)

/-- Rounds its argument down. -/
def applyFloor : List Value → Except Fault Value
  | [.number x] => .ok (.number (Floor.float x))
  | [v] => .error (.argumentNotNumber v)
  | vs => .error (.argumentCount vs.length Native.floor.arity)

/-- Whether a number is an index of a text of some length. The last index is just behind the text,
and NaN is none. -/
def isIndex (length : Nat) (x : Float) : Bool :=
  !(x < 0 || Float.ofNat length < x) && !x.isNaN

/-- Indices count characters and are rounded down first. They may reach the end of the text; a range
that stops before it starts is empty. -/
def applySubstring : List Value → Except Fault Value
  | [.string s, .number a, .number b] =>
    let text := s.toList
    let start := Floor.float a
    let stop := Floor.float b
    if isIndex text.length start && isIndex text.length stop then
      if stop ≤ start then .ok (.string "")
      else .ok (.string (String.ofList (slice text (Floor.natural start) (Floor.natural stop))))
    else .error (.substringRange start stop text.length)
  | _ => .error .substringArguments

/-- Applies a built-in function at the time `now`, in seconds. -/
def apply (now : Float) : Native → List Value → Except Fault Value
  | .clock, _ => .ok (.number now)
  | .floor, vs => applyFloor vs
  | .substring, vs => applySubstring vs

end Native

end Lox
