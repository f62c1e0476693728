import Lox.Decimal.Layout
import Lox.Value.Basic

/-!
The faults a running program can commit, and their wording.
-/

namespace Lox

inductive Fault
  | notNumber (operand : Value)
  | notNumbers (lhs rhs : Value)
  | notAddable (lhs rhs : Value)
  | undefined (name : String)
  | notCallable (callee : Value)
  | argumentCount (actual expected : Nat)
  | argumentNotNumber (argument : Value)
  | substringArguments
  | substringRange (start stop : Float) (length : Nat)
  | notIterable (value : Value)
  | callsTooDeep
deriving DecidableEq, Inhabited

namespace Fault

/-- What is wrong, in words. -/
def message : Fault → String
  | .notNumber _ => "Operand must be a number."
  | .notNumbers _ _ => "Operands must be numbers."
  | .notAddable _ _ => "Operands must be two numbers or two strings."
  | .undefined name => "Undefined variable '" ++ name ++ "'."
  | .notCallable _ => "Can only call functions."
  | .argumentCount actual expected =>
    "Expected " ++ Nat.repr expected ++ " arguments but got " ++ Nat.repr actual ++ "."
  | .argumentNotNumber _ => "Argument must be a number."
  | .substringArguments => "Arguments must be a string and two numbers."
  | .substringRange start stop length =>
    "Substring indices [" ++ Layout.plain.text start ++ ", " ++ Layout.plain.text stop ++
      ") out of range for string of length " ++ Nat.repr length ++ "."
  | .notIterable _ => "Loop expression must be a string."
  | .callsTooDeep => "Stack overflow."

/-- The number under which a fault is documented. -/
def code : Fault → String
  | .notNumber _ => "RT001"
  | .notNumbers _ _ => "RT002"
  | .notAddable _ _ => "RT003"
  | .undefined _ => "RT004"
  | .notCallable _ => "RT005"
  | .argumentCount _ _ => "RT006"
  | .argumentNotNumber _ => "RT007"
  | .substringArguments => "RT008"
  | .substringRange _ _ _ => "RT009"
  | .notIterable _ => "RT010"
  | .callsTooDeep => "RT011"

end Fault

/-- A fault and the line of the program on which it was committed. -/
structure RuntimeError where
  fault : Fault
  line : Nat
deriving DecidableEq, Inhabited

end Lox
