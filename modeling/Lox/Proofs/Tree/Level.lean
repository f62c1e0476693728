import Lox.Proofs.Tree.Term

/-!
The levels of precedence of the operators that stand between two operands.
-/

namespace Lox

/-- An operator between two operands. -/
inductive Infix
  | binary (op : BinaryOp)
  | logical (op : LogicalOp)
deriving DecidableEq

/-- The larger term that an operator on a line makes of two. -/
def Infix.join (lhs rhs : Term) (line : Nat) : Infix → Term
  | .binary op => .binary op lhs rhs line
  | .logical op => .logical op lhs rhs line

/-- The levels of operators between two operands, loosest first. -/
inductive Level
  | or | and | equality | comparison | additive | multiplicative
deriving DecidableEq

namespace Level

/-- The operator of the level that a token stands for. -/
def operator? : Level → TokenKind → Option Infix
  | .or, .kwOr => some (.logical .or)
  | .and, .kwAnd => some (.logical .and)
  | .equality, .equalEqual => some (.binary .equal)
  | .equality, .bangEqual => some (.binary .notEqual)
  | .comparison, .greater => some (.binary .greater)
  | .comparison, .greaterEqual => some (.binary .greaterEqual)
  | .comparison, .less => some (.binary .less)
  | .comparison, .lessEqual => some (.binary .lessEqual)
  | .additive, .plus => some (.binary .add)
  | .additive, .minus => some (.binary .subtract)
  | .multiplicative, .star => some (.binary .multiply)
  | .multiplicative, .slash => some (.binary .divide)
  | _, _ => none

/-- The next level, whose operators bind more tightly. -/
def next? : Level → Option Level
  | .or => some .and
  | .and => some .equality
  | .equality => some .comparison
  | .comparison => some .additive
  | .additive => some .multiplicative
  | .multiplicative => none

end Level

end Lox
