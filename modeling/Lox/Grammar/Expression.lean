import Lox.Grammar.Reading

/-!
Reading expressions by the power of operators. What is read within an operand or after it is a
parameter of the rules, and the rules are tied together under a depth, which every call lowers;
three per token are enough.
-/

namespace Lox.Grammar

open Reader

/-- What follows `floor` on a line. -/
def floorOf (operation : Nat → Reader NodeRef) (line : Nat) : Reader NodeRef := do
  let _ ← require .floorOpen
  let argument ← operation 0
  let _ ← require .floorClose
  push (.floor argument line)

/-- What follows `substring` on a line. -/
def substringOf (operation : Nat → Reader NodeRef) (line : Nat) : Reader NodeRef := do
  let _ ← require .substringOpen
  let subject ← operation 0
  let _ ← require .substringComma
  let start ← operation 0
  let _ ← require .substringComma
  let stop ← operation 0
  let _ ← require .substringClose
  push (.substring subject start stop line)

/-- What follows a unary operator on a line. -/
def unaryOf (operation : Nat → Reader NodeRef) (op : UnaryOp) (line : Nat) : Reader NodeRef := do
  let rhs ← operation Continuation.unaryPower
  push (.unary op rhs line)

/-- What follows the parenthesis that opens a group. -/
def groupOf (operation : Nat → Reader NodeRef) : Reader NodeRef := do
  let inner ← operation 0
  let _ ← require .groupClose
  push (.group inner)

/-- An operand: a literal, a name, a group, or a unary or built-in form. -/
def operandOf (operation : Nat → Reader NodeRef) : Reader NodeRef := do
  let t ← current
  match t.kind, t.literal with
  | .number, some (.number x) =>
    let _ ← advance
    push (.atom (.number x) t.line)
  | .string, some (.string s) =>
    let _ ← advance
    push (.atom (.string s) t.line)
  | .identifier, _ =>
    let _ ← advance
    push (.atom (.identifier (ident t)) t.line)
  | .kwNil, _ =>
    let _ ← advance
    push (.atom .nil t.line)
  | .kwTrue, _ =>
    let _ ← advance
    push (.atom (.bool true) t.line)
  | .kwFalse, _ =>
    let _ ← advance
    push (.atom (.bool false) t.line)
  | .kwRead, _ =>
    let _ ← advance
    push (.read t.line)
  | .kwRand, _ =>
    let _ ← advance
    push (.rand t.line)
  | .kwFloor, _ =>
    let _ ← advance
    floorOf operation t.line
  | .kwSubstring, _ =>
    let _ ← advance
    substringOf operation t.line
  | .minus, _ =>
    let _ ← advance
    unaryOf operation .negate t.line
  | .bang, _ =>
    let _ ← advance
    unaryOf operation .not t.line
  | .leftParen, _ =>
    let _ ← advance
    groupOf operation
  | _, _ => fail .noExpression

/-- Reads what follows the token `t`, which announces a continuation of the operand `lhs`, and yields
the larger operand. An assignment to anything but a name is recorded and leaves the operand as it
was. -/
def continuedOf (operation : Nat → Reader NodeRef) (arguments : Reader (List NodeRef))
    (next : Continuation) (t : Token) (lhs : NodeRef) : Reader NodeRef :=
  match next with
  | .call => do
    let arguments ← unlessAt .rightParen [] arguments
    let close ← require .argumentsClose
    push (.call lhs arguments close.line)
  | .binary op => do
    let rhs ← operation next.rightPower
    push (.binary op lhs rhs t.line)
  | .logical op => do
    let rhs ← operation next.rightPower
    push (.logical op lhs rhs t.line)
  | .assign => do
    let rhs ← operation next.rightPower
    match (← get).nodes[lhs]?.bind Node.target? with
    | some target => push (.assign target rhs)
    | none =>
      record (SyntaxError.atToken t .badTarget)
      return lhs

/-- What follows the operand `lhs` and holds it with at least the given power; `again` goes on after
one continuation. -/
def continuationsOf (operation : Nat → Reader NodeRef) (arguments : Reader (List NodeRef))
    (again : NodeRef → Reader NodeRef) (power : Nat) (lhs : NodeRef) : Reader NodeRef := do
  let t ← current
  match Continuation.ofKind? t.kind with
  | none => return lhs
  | some next =>
    if next.leftPower < power then return lhs
    else
      let _ ← advance
      let larger ← continuedOf operation arguments next t lhs
      again larger

/-- The arguments of a call, of which `count` are read. Each one over the limit is recorded. -/
def argumentsOf (operation : Nat → Reader NodeRef) (others : Reader (List NodeRef)) (count : Nat) :
    Reader (List NodeRef) := do
  limit count .tooManyArguments
  let argument ← operation 0
  if ← accept .comma then
    let others ← others
    return argument :: others
  else return [argument]

mutual

/-- An operand. -/
def operand : Nat → Reader NodeRef
  | 0 => fail .noExpression
  | depth + 1 => operandOf (operation depth)

/-- An operand with all that follows it and holds it with at least the given power. -/
def operation : Nat → Nat → Reader NodeRef
  | 0, _ => fail .noExpression
  | depth + 1, power => do
    let lhs ← operand depth
    continuations depth power lhs

/-- All that follows the operand `lhs` and holds it with at least the given power. -/
def continuations : Nat → Nat → NodeRef → Reader NodeRef
  | 0, _, _ => fail .noExpression
  | depth + 1, power, lhs =>
    continuationsOf (operation depth) (arguments depth 0) (continuations depth power) power lhs

/-- The arguments of a call, of which `count` are read. -/
def arguments : Nat → Nat → Reader (List NodeRef)
  | 0, _ => fail .noExpression
  | depth + 1, count => argumentsOf (operation depth) (arguments depth (count + 1)) count

end

/-- A whole expression, which gets nodes of its own. -/
def expressionOf (operation : Nat → Reader NodeRef) : Reader Expression := do
  modify Reading.bare
  let root ← operation 0
  modifyGet fun s => (⟨s.nodes, root⟩, s.bare)

/-- A whole expression. -/
def expression (depth : Nat) : Reader Expression :=
  expressionOf (operation depth)

end Lox.Grammar
