import Lox.Evaluation.Run
import Mathlib.Tactic.Lemma

/-!
Plays. A play is a run apart from the place where it is performed: it prints, asks for lines and for
random numbers, and goes on with whatever it is handed. So it is performed in the same way wherever
lines can be written and read.
-/

namespace Lox

variable {α β C : Type}

/-- What a program does that can be told from outside. -/
inductive Event
  | print (text : String)
  | read (line : String)
  | rand (number : Float)

/-- A place where programs are run: it takes lines, and it hands out lines until there are no
more. -/
structure Context (C : Type) where
  writeLine : C → String → C
  readLine : C → Option String × C

/-- What is left to do of a run. The console and the cursor of the states in it mean nothing: where
the play is performed there are others. -/
inductive Play (α : Type)
  | ends (result : EStateM.Result Stop State α)
  | print (text : String) (rest : Play α)
  | read (rest : String → Play α)
  | rand (rest : Float → Play α)

namespace Play

/-- Goes on when a play has ended. -/
def andThen (next : EStateM.Result Stop State α → Play β) : Play α → Play β
  | ends result => next result
  | print text rest => print text (rest.andThen next)
  | read rest => read fun line => (rest line).andThen next
  | rand rest => rand fun number => (rest number).andThen next

/-- What comes of a play: everything that was done, how it ended, and what is left of the context
and of the cycle of random numbers. -/
@[ext] structure Performed (C α : Type) where
  events : List Event
  result : EStateM.Result Stop State α
  context : C
  cursor : Fin 12

/-- The same after something else was done. -/
def Performed.after (events : List Event) (p : Performed C α) : Performed C α :=
  { p with events := events ++ p.events }

/-- Performs a play. At the end of the input every line is empty. -/
def perform (ctx : Context C) : Play α → C → Fin 12 → Performed C α
  | ends result, c, cursor => ⟨[], result, c, cursor⟩
  | print text rest, c, cursor =>
    (rest.perform ctx (ctx.writeLine c text) cursor).after [.print text]
  | read rest, c, cursor =>
    let (line?, c) := ctx.readLine c
    let line := line?.getD ""
    ((rest line).perform ctx c cursor).after [.read line]
  | rand rest, c, cursor =>
    let number := Rand.number cursor
    ((rest number).perform ctx c (Rand.next cursor)).after [.rand number]

@[simp] lemma Performed.after_nil (p : Performed C α) : p.after [] = p :=
  rfl

@[simp] lemma Performed.after_after (before events : List Event) (p : Performed C α) :
    (p.after events).after before = p.after (before ++ events) := by
  simp [after]

/-- What a play does that goes on comes after what it did before. -/
lemma perform_andThen (ctx : Context C) (next : EStateM.Result Stop State α → Play β)
    (p : Play α) (c : C) (cursor : Fin 12) :
    (p.andThen next).perform ctx c cursor =
      ((next (p.perform ctx c cursor).result).perform ctx (p.perform ctx c cursor).context
        (p.perform ctx c cursor).cursor).after (p.perform ctx c cursor).events := by
  induction p generalizing c cursor with
  | ends result => simp [andThen, perform]
  | print text rest ih => simp [andThen, perform, ih, Performed.after]
  | read rest ih => simp [andThen, perform, ih, Performed.after]
  | rand rest ih => simp [andThen, perform, ih, Performed.after]

end Play

/-- A step of a run, to be performed somewhere. -/
def Plan (α : Type) : Type :=
  State → Play α

namespace Plan

/-- A plan stops with the first step that does. -/
instance : Monad Plan where
  pure a s := .ends (.ok a s)
  bind p f s := (p s).andThen fun
    | .ok a t => f a t
    | .error e t => .ends (.error e t)

section

variable {p : Plan α} {f : α → Plan β} {s t : State} (ctx : Context C) (c : C) (cursor : Fin 12)

end

/-- A step that does nothing outside. -/
def silent (x : Exec α) : Plan α :=
  fun s => .ends (x s)

def print (text : String) : Plan Unit :=
  fun s => .print text (.ends (.ok () s))

def read : Plan Value :=
  fun s => .read fun line => .ends (.ok (.string line) s)

def rand : Plan Value :=
  fun s => .rand fun number => .ends (.ok (.number number) s)

/-- Runs the body of a function as one more call. The count goes back on both ways out. -/
def nested (body : Plan α) : Plan α := fun s =>
  (body { s with calls := s.calls + 1 }).andThen fun
    | .ok a t => .ends (.ok a { t with calls := t.calls - 1 })
    | .error e t => .ends (.error e { t with calls := t.calls - 1 })

mutual

/-- The value of a node in a scope. -/
def node : Nat → Array Node → Nat → NodeRef → Plan Value
  | 0, _, _, _ => silent (throw .outOfFuel)
  | fuel + 1, nodes, scope, ref =>
    match nodes[ref]? with
    | none => silent (throw (.defect (.missingNode ref)))
    | some (.atom atom line) => silent (atom.evaluate scope line)
    | some (.group inner) => node fuel nodes scope inner
    | some (.unary op rhs line) => do
      let r ← node fuel nodes scope rhs
      silent (Exec.ofExcept line (op.apply r))
    | some (.binary op lhs rhs line) => do
      let l ← node fuel nodes scope lhs
      let r ← node fuel nodes scope rhs
      silent (Exec.ofExcept line (op.apply l r))
    | some (.assign target rhs) => do
      let r ← node fuel nodes scope rhs
      silent (Exec.assign scope target.name r target.line)
      return r
    | some (.logical op lhs rhs _) => do
      let l ← node fuel nodes scope lhs
      if op.decidedBy l then return l else node fuel nodes scope rhs
    | some (.call callee arguments line) => do
      let f ← node fuel nodes scope callee
      let vs ← operands fuel nodes scope arguments
      call fuel f vs line
    | some (.read _) => read
    | some (.rand _) => rand
    | some (.floor argument line) => do
      let v ← node fuel nodes scope argument
      silent (Run.native .floor [v] line)
    | some (.substring subject start stop line) => do
      let v ← node fuel nodes scope subject
      let a ← node fuel nodes scope start
      let b ← node fuel nodes scope stop
      silent (Run.native .substring [v, a, b] line)
    | some (.value v _) => return v

/-- The values of nodes, one after the other. -/
def operands : Nat → Array Node → Nat → List NodeRef → Plan (List Value)
  | _, _, _, [] => return []
  | 0, _, _, _ :: _ => silent (throw .outOfFuel)
  | fuel + 1, nodes, scope, ref :: refs => do
    let v ← node fuel nodes scope ref
    let vs ← operands fuel nodes scope refs
    return v :: vs

/-- The value of a call with arguments. -/
def call : Nat → Value → List Value → Nat → Plan Value
  | 0, _, _, _ => silent (throw .outOfFuel)
  | fuel + 1, callee, arguments, line =>
    match callee with
    | .native f => silent (Run.native f.native arguments line)
    | .function f => do
      match (← silent get).codes[f.number]? with
      | none => silent (throw (.defect (.missingCode f.number)))
      | some code =>
        let scope ← silent (Run.enter code f.scope arguments line)
        let completion ← nested (statements fuel scope code.body)
        return completion.value
    | v => silent (Exec.fault line (.notCallable v))

/-- Runs a statement in a scope. -/
def statement : Nat → Nat → Statement → Plan Completion
  | 0, _, _ => silent (throw .outOfFuel)
  | fuel + 1, scope, s =>
    match s with
    | .declareVar name none => do
      silent (Exec.declare scope name.name .nil)
      return .normal
    | .declareVar name (some initial) => do
      let v ← node fuel initial.nodes scope initial.root
      silent (Exec.declare scope name.name v)
      return .normal
    | .declareFun name parameters body => do
      let f ← silent (Exec.makeFunction ⟨name, parameters, body⟩ scope)
      silent (Exec.declare scope name.name f)
      return .normal
    | .expression e => do
      let _ ← node fuel e.nodes scope e.root
      return .normal
    | .print e => do
      let v ← node fuel e.nodes scope e.root
      print v.text
      return .normal
    | .block body => do
      let inner ← silent (Exec.openScope scope [])
      statements fuel inner body
    | .branch condition success failure => do
      let v ← node fuel condition.nodes scope condition.root
      if v.isTrue then statement fuel scope success
      else
        match failure with
        | some failure => statement fuel scope failure
        | none => return .normal
    | .whileLoop condition body => whileLoop fuel scope condition body
    | .returnFrom _ none => return .returned .nil
    | .returnFrom _ (some e) => do
      let v ← node fuel e.nodes scope e.root
      return .returned v
    | .stringLoop name iterable body => do
      match ← node fuel iterable.nodes scope iterable.root with
      | .string text => characters fuel scope name.name body text.toList
      | v => silent (Exec.fault name.line (.notIterable v))

/-- Runs statements in a scope up to the first that returns. -/
def statements : Nat → Nat → List Statement → Plan Completion
  | _, _, [] => return .normal
  | 0, _, _ :: _ => silent (throw .outOfFuel)
  | fuel + 1, scope, s :: rest => do
    match ← statement fuel scope s with
    | .returned v => return .returned v
    | .normal => statements fuel scope rest

/-- Runs a body as long as a condition holds. -/
def whileLoop : Nat → Nat → Expression → Statement → Plan Completion
  | 0, _, _, _ => silent (throw .outOfFuel)
  | fuel + 1, scope, condition, body => do
    let v ← node fuel condition.nodes scope condition.root
    if v.isTrue then
      match ← statement fuel scope body with
      | .returned v => return .returned v
      | .normal => whileLoop fuel scope condition body
    else return .normal

/-- Runs a body once for each character, which is bound in the scope of the loop itself. -/
def characters : Nat → Nat → String → Statement → List Char → Plan Completion
  | _, _, _, _, [] => return .normal
  | 0, _, _, _, _ :: _ => silent (throw .outOfFuel)
  | fuel + 1, scope, name, body, c :: rest => do
    silent (Exec.declare scope name (.string (String.singleton c)))
    match ← statement fuel scope body with
    | .returned v => return .returned v
    | .normal => characters fuel scope name body rest

end

/-- Runs a program in the global scope. -/
def program (fuel : Nat) (ss : List Statement) : Plan Unit := do
  match ← statements fuel globalScope ss with
  | .normal => return ()
  | .returned _ => silent (throw (.defect .strayReturn))

end Plan

end Lox
