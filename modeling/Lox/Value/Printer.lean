import Lox.Dump
import Lox.Value.Fault

/-!
The written forms of values, faults and runtime errors.
-/

namespace Lox

namespace Value

/-- What the language prints for a value. -/
def text : Value → String
  | .nil => "nil"
  | .bool b => Dump.bool b
  | .number x => Layout.printed.text x
  | .string s => s
  | .native _ => "<native fn>"
  | .function f => "<fn " ++ f.name ++ ">"

def nativeDump : Native → String
  | .clock => "NativeClock"
  | .floor => "NativeFloor"
  | .substring => "NativeSubstring"

/-- The scope of a function is not shown. -/
def functionDump (f : FunctionObject) : String :=
  "Function \x7b name: " ++ Quoted.string f.name ++ ", arity: " ++ Dump.nat f.arity ++ ", .. \x7d"

def dump : Value → String
  | .nil => "Nil"
  | .bool b => Dump.applied "Bool" [Dump.bool b]
  | .number x => Dump.applied "Number" [Dump.number x]
  | .string s => Dump.applied "String" [Quoted.string s]
  | .native f => Dump.applied "Callable" [Dump.applied "Native" [nativeDump f.native]]
  | .function f => Dump.applied "Callable" [Dump.applied "Function" [functionDump f]]

end Value

namespace Fault

def dump : Fault → String
  | .notNumber v => Dump.applied "NonNumeric" [v.dump]
  | .notNumbers l r => Dump.applied "NonNumerics" [l.dump, r.dump]
  | .notAddable l r => Dump.applied "NonAddable" [l.dump, r.dump]
  | .undefined name => Dump.applied "UndefinedVariable" [Quoted.string name]
  | .notCallable v => Dump.applied "InvalidCallee" [v.dump]
  | .argumentCount actual expected =>
    Dump.record "InvalidArgumentCount"
      [("actual", Dump.nat actual), ("expected", Dump.nat expected)]
  | .argumentNotNumber v => Dump.applied "NonNumericArgument" [v.dump]
  | .substringArguments => "InvalidSubstringArguments"
  | .substringRange start stop length =>
    Dump.record "SubstringOutOfRange"
      [("start", Dump.number start), ("end", Dump.number stop), ("length", Dump.nat length)]
  | .notIterable v => Dump.applied "NonStringIterable" [v.dump]
  | .callsTooDeep => "StackOverflow"

/-- What a report writes beside the marked line. -/
def label : Fault → String
  | .notNumber v => "Operand is `" ++ v.text ++ "`"
  | .notNumbers l r | .notAddable l r => "Operands are `" ++ l.text ++ "` and `" ++ r.text ++ "`"
  | .undefined name => "`" ++ name ++ "` is not declared"
  | .notCallable v => "`" ++ v.text ++ "` is not callable"
  | .argumentCount actual expected =>
    "Called with " ++ Nat.repr actual ++ " of " ++ Nat.repr expected ++ " arguments"
  | .argumentNotNumber v => "Argument is `" ++ v.text ++ "`"
  | .substringArguments => "Called with the wrong types"
  | .substringRange _ _ _ => "Indices are out of range"
  | .notIterable v => "Iterating over `" ++ v.text ++ "`"
  | .callsTooDeep => "Too many nested calls"

end Fault

namespace RuntimeError

/-- The message, and its line on a line of its own. -/
def plain (e : RuntimeError) : String :=
  e.fault.message ++ "\n[line " ++ Nat.repr e.line ++ "]"

def dump (e : RuntimeError) : String :=
  Dump.record "RuntimeError" [("kind", e.fault.dump), ("line", Dump.nat e.line)]

end RuntimeError

end Lox
