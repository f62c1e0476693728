import Lox.Token.Kind
import Lox.Value.Operation

/-!
Operators: their symbols, how tightly they bind, and what they do.
-/

namespace Lox

inductive UnaryOp
  | not | negate
deriving DecidableEq, Inhabited

inductive BinaryOp
  | multiply | divide | add | subtract | less | lessEqual | greater | greaterEqual | equal
  | notEqual
deriving DecidableEq, Inhabited

/-- The operators that may leave their right operand unevaluated. -/
inductive LogicalOp
  | and | or
deriving DecidableEq, Inhabited

namespace UnaryOp

def symbol : UnaryOp → String
  | .not => "!"
  | .negate => "-"

def dump : UnaryOp → String
  | .not => "Bang"
  | .negate => "Minus"

def apply : UnaryOp → Value → Except Fault Value
  | .not, v => .ok (.bool !v.isTrue)
  | .negate, v => v.negate

end UnaryOp

namespace BinaryOp

def symbol : BinaryOp → String
  | .multiply => "*"
  | .divide => "/"
  | .add => "+"
  | .subtract => "-"
  | .less => "<"
  | .lessEqual => "<="
  | .greater => ">"
  | .greaterEqual => ">="
  | .equal => "=="
  | .notEqual => "!="

def dump : BinaryOp → String
  | .multiply => "Multiply"
  | .divide => "Divide"
  | .add => "Add"
  | .subtract => "Subtract"
  | .less => "LessThan"
  | .lessEqual => "LessThanEqual"
  | .greater => "GreaterThan"
  | .greaterEqual => "GreaterThanEqual"
  | .equal => "EqualEqual"
  | .notEqual => "BangEqual"

def apply : BinaryOp → Value → Value → Except Fault Value
  | .multiply, l, r => l.multiply r
  | .divide, l, r => l.divide r
  | .add, l, r => l.add r
  | .subtract, l, r => l.subtract r
  | .less, l, r => l.less r
  | .lessEqual, l, r => l.lessEqual r
  | .greater, l, r => l.greater r
  | .greaterEqual, l, r => l.greaterEqual r
  | .equal, l, r => .ok (.bool (l.equals r))
  | .notEqual, l, r => .ok (.bool !l.equals r)

end BinaryOp

namespace LogicalOp

def symbol : LogicalOp → String
  | .and => "and"
  | .or => "or"

def dump : LogicalOp → String
  | .and => "And"
  | .or => "Or"

/-- Whether the left operand is already the result. -/
def decidedBy : LogicalOp → Value → Bool
  | .and, v => !v.isTrue
  | .or, v => v.isTrue

end LogicalOp

/-- What may follow an operand and make it part of a larger expression. -/
inductive Continuation
  | call
  | binary (op : BinaryOp)
  | logical (op : LogicalOp)
  | assign
deriving DecidableEq, Inhabited

namespace Continuation

/-- The continuation that a token announces. -/
def ofKind? : TokenKind → Option Continuation
  | .leftParen => some .call
  | .star => some (.binary .multiply)
  | .slash => some (.binary .divide)
  | .plus => some (.binary .add)
  | .minus => some (.binary .subtract)
  | .less => some (.binary .less)
  | .lessEqual => some (.binary .lessEqual)
  | .greater => some (.binary .greater)
  | .greaterEqual => some (.binary .greaterEqual)
  | .equalEqual => some (.binary .equal)
  | .bangEqual => some (.binary .notEqual)
  | .kwAnd => some (.logical .and)
  | .kwOr => some (.logical .or)
  | .equal => some .assign
  | _ => none

/-- How tightly it holds the operand on its left. -/
def leftPower : Continuation → Nat
  | .call => 17
  | .binary .multiply | .binary .divide => 13
  | .binary .add | .binary .subtract => 11
  | .binary .less | .binary .lessEqual | .binary .greater | .binary .greaterEqual => 9
  | .binary .equal | .binary .notEqual => 7
  | .logical .and => 5
  | .logical .or => 3
  | .assign => 2

/-- How tightly an operator must hold to become part of the operand on its right. Assignment lets
another assignment in, all other operators group to the left. -/
def rightPower : Continuation → Nat
  | .assign => 1
  | c => c.leftPower + 1

/-- The power of a unary operator over its operand. -/
def unaryPower : Nat :=
  15

end Continuation

end Lox
