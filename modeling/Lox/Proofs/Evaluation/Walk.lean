import Lox.Evaluation.Run
import Lox.Proofs.Tree.Term

/-!
Running programs as trees, by recursion on the tree. A `return` cuts short everything that encloses
it, up to the nearest call of a function. Fuel bounds only the rounds of a `while` loop and the
calls that lie inside one another.
-/

namespace Lox

/-- Why a walk through a tree is cut short. -/
inductive Abrupt
  | returned (value : Value)
  | stopped (stop : Stop)
deriving DecidableEq, Inhabited

/-- A step of a walk through a tree. -/
abbrev Walk (Body : Type) := EStateM Abrupt (Machine Body)

namespace Walk

variable {Body α : Type}

/-- A step that can stop but not return. -/
def lift (x : ExecOf Body α) : Walk Body α := fun m =>
  match x m with
  | .ok a n => .ok a n
  | .error stop n => .error (.stopped stop) n

/-- Runs the body of a function as one more call. Here a `return` comes to its end. -/
def called (body : Walk Body Unit) : Walk Body Value := fun m =>
  match body { m with calls := m.calls + 1 } with
  | .ok _ n => .ok .nil { n with calls := n.calls - 1 }
  | .error (.returned v) n => .ok v { n with calls := n.calls - 1 }
  | .error (.stopped stop) n => .error (.stopped stop) { n with calls := n.calls - 1 }

/-- Goes round as long as a condition holds, at most as often as the fuel allows. -/
def rounds : Nat → Walk Body Value → Walk Body Unit → Walk Body Unit
  | 0, _, _ => throw (.stopped .outOfFuel)
  | fuel + 1, condition, body => do
    let v ← condition
    if v.isTrue then
      body
      rounds fuel condition body

/-- Goes round once for each character, which is bound in the scope of the loop itself. -/
def characters (scope : Nat) (name : String) (body : Walk Body Unit) : List Char → Walk Body Unit
  | [] => pure ()
  | c :: rest => do
    lift (Exec.declare scope name (.string (String.singleton c)))
    body
    characters scope name body rest

/-- The value of a call, where `run` runs the body of a function in a scope. -/
def apply (run : Nat → Body → Walk Body Unit) (callee : Value) (arguments : List Value)
    (line : Nat) : Walk Body Value :=
  match callee with
  | .native f => lift (Run.native f.native arguments line)
  | .function f => do
    match (← get).codes[f.number]? with
    | none => throw (.stopped (.defect (.missingCode f.number)))
    | some code =>
      let scope ← lift (Run.enter code f.scope arguments line)
      called (run scope code.body)
  | v => lift (Exec.fault line (.notCallable v))

section

variable (call : Value → List Value → Nat → Walk (List Phrase) Value)

mutual

/-- The value of a term in a scope. -/
def term (scope : Nat) : Term → Walk (List Phrase) Value
  | .atom atom line => lift (atom.evaluate scope line)
  | .group inner => term scope inner
  | .unary op rhs line => do
    let r ← term scope rhs
    lift (Exec.ofExcept line (op.apply r))
  | .binary op lhs rhs line => do
    let l ← term scope lhs
    let r ← term scope rhs
    lift (Exec.ofExcept line (op.apply l r))
  | .assign target rhs => do
    let r ← term scope rhs
    lift (Exec.assign scope target.name r target.line)
    return r
  | .logical op lhs rhs _ => do
    let l ← term scope lhs
    if op.decidedBy l then return l else term scope rhs
  | .call callee arguments line => do
    let f ← term scope callee
    let vs ← terms scope arguments
    call f vs line
  | .read _ => lift Exec.read
  | .rand _ => lift Exec.rand
  | .floor argument line => do
    let v ← term scope argument
    lift (Run.native .floor [v] line)
  | .substring subject start stop line => do
    let v ← term scope subject
    let a ← term scope start
    let b ← term scope stop
    lift (Run.native .substring [v, a, b] line)
  | .value v _ => return v

/-- The values of terms, one after the other. -/
def terms (scope : Nat) : List Term → Walk (List Phrase) (List Value)
  | [] => return []
  | t :: ts => do
    let v ← term scope t
    let vs ← terms scope ts
    return v :: vs

end

variable (fuel : Nat)

mutual

/-- Runs a phrase in a scope. -/
def phrase (scope : Nat) : Phrase → Walk (List Phrase) Unit
  | .declareVar name none => lift (Exec.declare scope name.name .nil)
  | .declareVar name (some initial) => do
    let v ← term call scope initial
    lift (Exec.declare scope name.name v)
  | .declareFun name parameters body => do
    let f ← lift (Exec.makeFunction ⟨name, parameters, body⟩ scope)
    lift (Exec.declare scope name.name f)
  | .expression t => do
    let _ ← term call scope t
  | .print t => do
    let v ← term call scope t
    lift (Exec.print v.text)
  | .block body => do
    let inner ← lift (Exec.openScope scope [])
    phrases inner body
  | .branch condition success failure => do
    let v ← term call scope condition
    if v.isTrue then phrase scope success else maybePhrase scope failure
  | .whileLoop condition body => rounds fuel (term call scope condition) (phrase scope body)
  | .returnFrom _ none => throw (.returned .nil)
  | .returnFrom _ (some t) => do
    let v ← term call scope t
    throw (.returned v)
  | .stringLoop name iterable body => do
    match ← term call scope iterable with
    | .string text => characters scope name.name (phrase scope body) text.toList
    | v => lift (Exec.fault name.line (.notIterable v))

/-- The same where there may be no phrase. -/
def maybePhrase (scope : Nat) : Option Phrase → Walk (List Phrase) Unit
  | none => pure ()
  | some p => phrase scope p

/-- Runs phrases in a scope, one after the other. -/
def phrases (scope : Nat) : List Phrase → Walk (List Phrase) Unit
  | [] => pure ()
  | p :: ps => do
    phrase scope p
    phrases scope ps

end

end

/-- The value of a call, with at most as many calls inside one another as the fuel allows. -/
def call : Nat → Value → List Value → Nat → Walk (List Phrase) Value
  | 0, _, _, _ => throw (.stopped .outOfFuel)
  | fuel + 1, callee, arguments, line => apply (phrases (call fuel) fuel) callee arguments line

/-- Ends a program, where no call is under way that could take a `return`. -/
def ended (x : Walk Body Unit) : ExecOf Body Unit := fun m =>
  match x m with
  | .ok _ n => .ok () n
  | .error (.stopped stop) n => .error stop n
  | .error (.returned _) n => .error (.defect .strayReturn) n

/-- Runs a program in the global scope. -/
def program (fuel : Nat) (ps : List Phrase) : ExecOf (List Phrase) Unit :=
  ended (phrases (call fuel) fuel globalScope ps)

end Walk

end Lox
