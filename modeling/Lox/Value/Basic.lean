/-!
The values of the language. A callable is an object with an identity: each evaluation of a function
declaration makes a new one, and two callables are equal only if they are one object.
-/

namespace Lox

/-- The functions that are built in. -/
inductive Native
  | clock | floor | substring
deriving DecidableEq, Inhabited

namespace Native

def name : Native → String
  | .clock => "clock"
  | .floor => "floor"
  | .substring => "substring"

/-- How many arguments a built-in function takes. -/
def arity : Native → Nat
  | .clock => 0
  | .floor => 1
  | .substring => 3

end Native

/-- A built-in function as an object. -/
structure NativeObject where
  native : Native
  identity : Nat
deriving DecidableEq, Inhabited

/-- A function of the program as an object. Its number is the place of its code among the functions
made so far, so it is its identity too; `scope` is the scope in which it was declared. -/
structure FunctionObject where
  name : String
  arity : Nat
  number : Nat
  scope : Nat
deriving DecidableEq, Inhabited

inductive Value
  | nil
  | bool (b : Bool)
  | number (x : Float)
  | string (s : String)
  | native (f : NativeObject)
  | function (f : FunctionObject)
deriving DecidableEq, Inhabited

namespace Value

/-- Only nil and false count as false. -/
def isTrue : Value → Bool
  | .nil => false
  | .bool b => b
  | _ => true

/-- Equality as the language has it: never between values of two types, by identity for callables,
and for numbers as binary64 compares them, so NaN differs from itself. -/
def equals : Value → Value → Bool
  | .nil, .nil => true
  | .bool a, .bool b => a == b
  | .number a, .number b => a == b
  | .string a, .string b => a == b
  | .native f, .native g => f.identity == g.identity
  | .function f, .function g => f.number == g.number
  | _, _ => false

end Value

end Lox
