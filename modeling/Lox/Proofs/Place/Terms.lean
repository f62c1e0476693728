import Lox.Proofs.Place.Located
import Lox.Proofs.Tree.Term

/-!
Changes of place in trees.
-/

namespace Lox

namespace Term

mutual

def moved (m : Relocation) : Term → Term
  | .atom a line => .atom (Located.moved m a) (m.line line)
  | .group inner => .group (inner.moved m)
  | .unary op rhs line => .unary op (rhs.moved m) (m.line line)
  | .binary op lhs rhs line => .binary op (lhs.moved m) (rhs.moved m) (m.line line)
  | .assign target rhs => .assign (Located.moved m target) (rhs.moved m)
  | .logical op lhs rhs line => .logical op (lhs.moved m) (rhs.moved m) (m.line line)
  | .call callee arguments line =>
    .call (callee.moved m) (allMoved m arguments) (m.line line)
  | .read line => .read (m.line line)
  | .rand line => .rand (m.line line)
  | .floor argument line => .floor (argument.moved m) (m.line line)
  | .substring subject start stop line =>
    .substring (subject.moved m) (start.moved m) (stop.moved m) (m.line line)
  | .value v line => .value v (m.line line)

def allMoved (m : Relocation) : List Term → List Term
  | [] => []
  | t :: ts => t.moved m :: allMoved m ts

end

end Term

instance : Located Term := ⟨Term.moved⟩

namespace Phrase

mutual

def moved (m : Relocation) : Phrase → Phrase
  | .declareVar name initial => .declareVar (Located.moved m name) (Located.moved m initial)
  | .declareFun name parameters body =>
    .declareFun (Located.moved m name) (Located.moved m parameters) (allMoved m body)
  | .expression value => .expression (value.moved m)
  | .print value => .print (value.moved m)
  | .block body => .block (allMoved m body)
  | .branch condition success failure =>
    .branch (condition.moved m) (success.moved m) (maybeMoved m failure)
  | .whileLoop condition body => .whileLoop (condition.moved m) (body.moved m)
  | .returnFrom line value => .returnFrom (m.line line) (Located.moved m value)
  | .stringLoop name iterable body =>
    .stringLoop (Located.moved m name) (iterable.moved m) (body.moved m)

/-- The same where there may be no phrase. -/
def maybeMoved (m : Relocation) : Option Phrase → Option Phrase
  | none => none
  | some p => some (p.moved m)

def allMoved (m : Relocation) : List Phrase → List Phrase
  | [] => []
  | p :: ps => p.moved m :: allMoved m ps

end

end Phrase

instance : Located Phrase := ⟨Phrase.moved⟩

lemma Phrase.allMoved_eq (m : Relocation) (ps : List Phrase) :
    allMoved m ps = Located.moved m ps := by
  induction ps with
  | nil => rfl
  | cons p ps ih => exact congrArg (List.cons _) ih

end Lox
