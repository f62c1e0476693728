import Lox.Evaluation.State
import Lox.Value.Printer

/-!
Running programs. Operands and arguments are evaluated once each, from left to right. Every function
here lowers its fuel with every call, and running out of it is a result of its own.
-/

namespace Lox

/-- How a statement ends if nothing stops it. -/
inductive Completion
  | normal
  | returned (value : Value)
deriving DecidableEq, Inhabited

namespace Completion

/-- The value of a call whose body ends so. -/
def value : Completion → Value
  | .normal => .nil
  | .returned v => v

end Completion

namespace Atom

/-- The value of an atom in a scope. -/
def evaluate {Body : Type} (scope line : Nat) : Atom → ExecOf Body Value
  | .number x => pure (.number x)
  | .bool b => pure (.bool b)
  | .nil => pure .nil
  | .string s => pure (.string s)
  | .identifier name => Exec.lookup scope name.name line

end Atom

namespace Run

section

variable {Body : Type}

/-- Stops unless a callable gets as many arguments as it takes. -/
def checkArity (expected actual line : Nat) : ExecOf Body Unit :=
  if expected = actual then pure () else Exec.fault line (.argumentCount actual expected)

/-- Applies a built-in function. -/
def native (f : Native) (arguments : List Value) (line : Nat) : ExecOf Body Value := do
  checkArity f.arity arguments.length line
  Exec.ofExcept line (f.apply (← Exec.time f) arguments)

/-- The scope in which a call runs its body: it holds the parameters and lies in the scope of the
function. -/
def enter (code : Code Body) (scope : Nat) (arguments : List Value) (line : Nat) :
    ExecOf Body Nat := do
  checkArity code.parameters.length arguments.length line
  if maxCalls ≤ (← get).calls then Exec.fault line .callsTooDeep
  else Exec.openScope scope (Bindings.ofLists (code.parameters.map (·.name)) arguments [])

end

mutual

/-- The value of a node in a scope. -/
def node : Nat → Array Node → Nat → NodeRef → Exec Value
  | 0, _, _, _ => throw .outOfFuel
  | fuel + 1, nodes, scope, ref =>
    match nodes[ref]? with
    | none => throw (.defect (.missingNode ref))
    | some (.atom atom line) => atom.evaluate scope line
    | some (.group inner) => node fuel nodes scope inner
    | some (.unary op rhs line) => do
      let r ← node fuel nodes scope rhs
      Exec.ofExcept line (op.apply r)
    | some (.binary op lhs rhs line) => do
      let l ← node fuel nodes scope lhs
      let r ← node fuel nodes scope rhs
      Exec.ofExcept line (op.apply l r)
    | some (.assign target rhs) => do
      let r ← node fuel nodes scope rhs
      Exec.assign scope target.name r target.line
      return r
    | some (.logical op lhs rhs _) => do
      let l ← node fuel nodes scope lhs
      if op.decidedBy l then return l else node fuel nodes scope rhs
    | some (.call callee arguments line) => do
      let f ← node fuel nodes scope callee
      let vs ← operands fuel nodes scope arguments
      call fuel f vs line
    | some (.read _) => Exec.read
    | some (.rand _) => Exec.rand
    | some (.floor argument line) => do
      let v ← node fuel nodes scope argument
      native .floor [v] line
    | some (.substring subject start stop line) => do
      let v ← node fuel nodes scope subject
      let a ← node fuel nodes scope start
      let b ← node fuel nodes scope stop
      native .substring [v, a, b] line
    | some (.value v _) => return v

/-- The values of nodes, one after the other. -/
def operands : Nat → Array Node → Nat → List NodeRef → Exec (List Value)
  | _, _, _, [] => return []
  | 0, _, _, _ :: _ => throw .outOfFuel
  | fuel + 1, nodes, scope, ref :: refs => do
    let v ← node fuel nodes scope ref
    let vs ← operands fuel nodes scope refs
    return v :: vs

/-- The value of a call with arguments. -/
def call : Nat → Value → List Value → Nat → Exec Value
  | 0, _, _, _ => throw .outOfFuel
  | fuel + 1, callee, arguments, line =>
    match callee with
    | .native f => native f.native arguments line
    | .function f => do
      match (← get).codes[f.number]? with
      | none => throw (.defect (.missingCode f.number))
      | some code =>
        let scope ← enter code f.scope arguments line
        let completion ← Exec.nested (statements fuel scope code.body)
        return completion.value
    | v => Exec.fault line (.notCallable v)

/-- Runs a statement in a scope. -/
def statement : Nat → Nat → Statement → Exec Completion
  | 0, _, _ => throw .outOfFuel
  | fuel + 1, scope, s =>
    match s with
    | .declareVar name none => do
      Exec.declare scope name.name .nil
      return .normal
    | .declareVar name (some initial) => do
      let v ← node fuel initial.nodes scope initial.root
      Exec.declare scope name.name v
      return .normal
    | .declareFun name parameters body => do
      let f ← Exec.makeFunction ⟨name, parameters, body⟩ scope
      Exec.declare scope name.name f
      return .normal
    | .expression e => do
      let _ ← node fuel e.nodes scope e.root
      return .normal
    | .print e => do
      let v ← node fuel e.nodes scope e.root
      Exec.print v.text
      return .normal
    | .block body => do
      let inner ← Exec.openScope scope []
      statements fuel inner body
    | .branch condition success failure => do
      let v ← node fuel condition.nodes scope condition.root
      if v.isTrue then statement fuel scope success
      else
        match failure with
        | some failure => statement fuel scope failure
        | none => return .normal
    | .whileLoop condition body => whileLoop fuel scope condition body
    | .returnFrom _ none => return .returned .nil
    | .returnFrom _ (some e) => do
      let v ← node fuel e.nodes scope e.root
      return .returned v
    | .stringLoop name iterable body => do
      match ← node fuel iterable.nodes scope iterable.root with
      | .string text => characters fuel scope name.name body text.toList
      | v => Exec.fault name.line (.notIterable v)

/-- Runs statements in a scope up to the first that returns. -/
def statements : Nat → Nat → List Statement → Exec Completion
  | _, _, [] => return .normal
  | 0, _, _ :: _ => throw .outOfFuel
  | fuel + 1, scope, s :: rest => do
    match ← statement fuel scope s with
    | .returned v => return .returned v
    | .normal => statements fuel scope rest

/-- Runs a body as long as a condition holds. -/
def whileLoop : Nat → Nat → Expression → Statement → Exec Completion
  | 0, _, _, _ => throw .outOfFuel
  | fuel + 1, scope, condition, body => do
    let v ← node fuel condition.nodes scope condition.root
    if v.isTrue then
      match ← statement fuel scope body with
      | .returned v => return .returned v
      | .normal => whileLoop fuel scope condition body
    else return .normal

/-- Runs a body once for each character, which is bound in the scope of the loop itself. -/
def characters : Nat → Nat → String → Statement → List Char → Exec Completion
  | _, _, _, _, [] => return .normal
  | 0, _, _, _, _ :: _ => throw .outOfFuel
  | fuel + 1, scope, name, body, c :: rest => do
    Exec.declare scope name (.string (String.singleton c))
    match ← statement fuel scope body with
    | .returned v => return .returned v
    | .normal => characters fuel scope name body rest

end

/-- The value of an expression in a scope. -/
def expression (fuel : Nat) (scope : Nat) (e : Expression) : Exec Value :=
  node fuel e.nodes scope e.root

/-- Runs a program in the global scope. -/
def program (fuel : Nat) (ss : List Statement) : Exec Unit := do
  match ← statements fuel globalScope ss with
  | .normal => return ()
  | .returned _ => throw (.defect .strayReturn)

/-- More fuel than any run that ends in our time uses. -/
def ampleFuel : Nat :=
  Nat.pow 2 62

end Run

end Lox
