import Lox.Grammar.Expression
import Lox.Proofs.Tree.Level

/-!
Reading expressions by recursive descent, with one reader for each level of precedence. Nothing here
knows of powers or nodes: the result is a term. Every call lowers a depth, and without any depth
left there is no outcome, which is `none`.
-/

namespace Lox

/-- A step of recursive descent. -/
abbrev Descent := ExceptT SyntaxError (StateT Reading Option)

namespace Descent

open Reader

/-- A step of reading that makes no nodes. -/
def step {α : Type} (x : Reader α) : Descent α := fun s =>
  match x s with
  | .ok a t => some (.ok a, t)
  | .error e t => some (.error e, t)

instance : MonadLift Reader Descent :=
  ⟨step⟩

/-- No depth is left. -/
def stuck {α : Type} : Descent α := fun _ =>
  none

mutual

def assignment : Nat → Descent Term
  | 0 => stuck
  | depth + 1 => do
    let target ← level depth .or
    let t ← current
    if ← accept .equal then
      let value ← assignment depth
      match target.target? with
      | some name => return .assign name value
      | none =>
        record (SyntaxError.atToken t .badTarget)
        return target
    else return target

/-- Operands of the next level with operators of this level between them. -/
def level : Nat → Level → Descent Term
  | 0, _ => stuck
  | depth + 1, k => do
    let first ← tighter depth k
    levelRest depth k first

/-- The operators and operands after the first operand, grouped to the left. -/
def levelRest : Nat → Level → Term → Descent Term
  | 0, _, _ => stuck
  | depth + 1, k, lhs => do
    let t ← current
    match k.operator? t.kind with
    | some op =>
      let _ ← advance
      let rhs ← tighter depth k
      levelRest depth k (op.join lhs rhs t.line)
    | none => return lhs

/-- An operand of a level. -/
def tighter : Nat → Level → Descent Term
  | 0, _ => stuck
  | depth + 1, k =>
    match k.next? with
    | some k => level depth k
    | none => unary depth

def unary : Nat → Descent Term
  | 0 => stuck
  | depth + 1 => do
    let t ← current
    match t.kind with
    | .minus =>
      let _ ← advance
      let rhs ← unary depth
      return .unary .negate rhs t.line
    | .bang =>
      let _ ← advance
      let rhs ← unary depth
      return .unary .not rhs t.line
    | _ => call depth

def call : Nat → Descent Term
  | 0 => stuck
  | depth + 1 => do
    let callee ← primary depth
    callRest depth callee

/-- The lists of arguments after what is called. -/
def callRest : Nat → Term → Descent Term
  | 0, _ => stuck
  | depth + 1, callee => do
    if ← accept .leftParen then
      let arguments ← argumentList depth
      let close ← require .argumentsClose
      callRest depth (.call callee arguments close.line)
    else return callee

def argumentList : Nat → Descent (List Term)
  | 0 => stuck
  | depth + 1 => do
    if ← sees .rightParen then return [] else arguments depth 0

/-- At least one argument, after `count` others. -/
def arguments : Nat → Nat → Descent (List Term)
  | 0, _ => stuck
  | depth + 1, count => do
    limit count .tooManyArguments
    let argument ← assignment depth
    if ← accept .comma then
      let others ← arguments depth (count + 1)
      return argument :: others
    else return [argument]

def primary : Nat → Descent Term
  | 0 => stuck
  | depth + 1 => do
    let t ← current
    match t.kind, t.literal with
    | .number, some (.number x) =>
      let _ ← advance
      return .atom (.number x) t.line
    | .string, some (.string s) =>
      let _ ← advance
      return .atom (.string s) t.line
    | .identifier, _ =>
      let _ ← advance
      return .atom (.identifier (ident t)) t.line
    | .kwNil, _ =>
      let _ ← advance
      return .atom .nil t.line
    | .kwTrue, _ =>
      let _ ← advance
      return .atom (.bool true) t.line
    | .kwFalse, _ =>
      let _ ← advance
      return .atom (.bool false) t.line
    | .kwRead, _ =>
      let _ ← advance
      return .read t.line
    | .kwRand, _ =>
      let _ ← advance
      return .rand t.line
    | .kwFloor, _ =>
      let _ ← advance
      let _ ← require .floorOpen
      let argument ← assignment depth
      let _ ← require .floorClose
      return .floor argument t.line
    | .kwSubstring, _ =>
      let _ ← advance
      let _ ← require .substringOpen
      let subject ← assignment depth
      let _ ← require .substringComma
      let start ← assignment depth
      let _ ← require .substringComma
      let stop ← assignment depth
      let _ ← require .substringClose
      return .substring subject start stop t.line
    | .leftParen, _ =>
      let _ ← advance
      let inner ← assignment depth
      let _ ← require .groupClose
      return .group inner
    | _, _ => fail .noExpression

end

end Descent

end Lox
