import Lox.Proofs.Interaction.Play

/-!
Runs are plays. A run from any state does what its plan does when that is performed on the console
and on the cycle of random numbers of the state; apart from these the plan does not depend on them.
-/

namespace Lox

variable {α β : Type} {s t : State} {console : Console} {cursor : Fin 12}

/-- A console is a place where programs are run. -/
def Console.context : Context Console where
  writeLine := Console.writeLine
  readLine c :=
    let (line, c) := (c.write c.prompt).next
    (line.map InputLine.content, c)

/-- The state with another console, and at another place of the cycle of random numbers. -/
def State.placed (s : State) (console : Console) (cursor : Fin 12) : State :=
  { s with console, rand := cursor }

/-- The state apart from its console and its place in the cycle. -/
def State.bare (s : State) : State :=
  s.placed default Rand.first

lemma State.placed_calls (s : State) : (s.placed console cursor).calls = s.calls :=
  rfl

lemma State.placed_codes (s : State) : (s.placed console cursor).codes = s.codes :=
  rfl

/-- How the run ends of which a play on a console tells. -/
def Play.Performed.outcome (p : Performed Console α) : EStateM.Result Stop State α :=
  match p.result with
  | .ok a t => .ok a (t.placed p.context p.cursor)
  | .error e t => .error e (t.placed p.context p.cursor)

@[simp] lemma Play.Performed.outcome_after (events : List Event) (p : Performed Console α) :
    (p.after events).outcome = p.outcome :=
  rfl

namespace Plan

/-- A step ends as the plan does when it is performed on the console of the state. -/
def Describes (p : Plan α) (x : Exec α) : Prop :=
  ∀ s console cursor,
    x (s.placed console cursor) = ((p s).perform Console.context console cursor).outcome

/-- A step does nothing outside, and what is there does not matter to it. -/
def Quiet (x : Exec α) : Prop :=
  (silent x).Describes x

section

variable {p : Plan α} {x : Exec α} {f : α → Exec β} {g : α → Plan β}

lemma describes_pure (a : α) : (pure a : Plan α).Describes (pure a) :=
  fun _ _ _ => rfl

lemma Describes.bind (h : p.Describes x) (hf : ∀ a, (g a).Describes (f a)) :
    (p >>= g).Describes (x >>= f) := by
  intro s console cursor
  change EStateM.bind x f (s.placed console cursor) = (((p s).andThen _).perform _ _ _).outcome
  rw [Play.perform_andThen, Play.Performed.outcome_after, EStateM.bind, h s console cursor,
    Play.Performed.outcome]
  cases ((p s).perform Console.context console cursor).result with
  | ok a t => exact hf a t _ _
  | error e t => rfl

lemma Quiet.bind (h : Quiet x) (hf : ∀ a, Quiet (f a)) : Quiet (x >>= f) := by
  intro s console cursor
  have first := h s console cursor
  change EStateM.bind x f (s.placed console cursor) =
    Play.Performed.outcome ⟨[], EStateM.bind x f s, console, cursor⟩
  simp only [silent, Play.perform, Play.Performed.outcome] at first
  rw [EStateM.bind, first, EStateM.bind]
  cases x s with
  | ok a t => exact hf a t console cursor
  | error e t => rfl

lemma quiet_pure (a : α) : Quiet (pure a) :=
  describes_pure a

lemma quiet_throw (e : Stop) : Quiet (throw e : Exec α) :=
  fun _ _ _ => rfl

lemma quiet_fault (line : Nat) (f : Fault) : Quiet (Exec.fault line f : Exec α) :=
  quiet_throw _

lemma quiet_ofExcept (line : Nat) (r : Except Fault α) : Quiet (Exec.ofExcept line r) := by
  cases r with
  | ok a => exact quiet_pure a
  | error f => exact quiet_fault line f

end

/-- What goes on from the state only has to agree on what is not of the outside. -/
lemma describes_get {f : State → Exec α} {g : State → Plan α}
    (h : ∀ s console cursor, (g s).Describes (f (s.placed console cursor))) :
    (silent get >>= g).Describes (get >>= f) :=
  fun s console cursor => h s console cursor s console cursor

lemma quiet_get {f : State → Exec α} (h : ∀ s, Quiet (f s))
    (same : ∀ s console cursor, f (s.placed console cursor) = f s) : Quiet (get >>= f) := by
  intro s console cursor
  change f (s.placed console cursor) (s.placed console cursor) = _
  rw [same]
  exact h s s console cursor

lemma quiet_lookup (scope : Nat) (name : String) (line : Nat) :
    Quiet (Exec.lookup scope name line) := by
  intro s console cursor
  simp only [silent, Exec.lookup, State.placed, Play.perform, Play.Performed.outcome]
  cases s.scopes.get? scope name <;> rfl

lemma quiet_evaluate (scope line : Nat) (a : Atom) : Quiet (a.evaluate scope line) := by
  cases a with
  | identifier name => exact quiet_lookup scope name.name line
  | _ => exact quiet_pure _

lemma quiet_declare (scope : Nat) (name : String) (v : Value) :
    Quiet (Exec.declare scope name v) :=
  fun _ _ _ => rfl

lemma quiet_assign (scope : Nat) (name : String) (v : Value) (line : Nat) :
    Quiet (Exec.assign scope name v line) := by
  intro s console cursor
  simp only [silent, Exec.assign, State.placed, Play.perform, Play.Performed.outcome]
  cases s.scopes.find? scope name <;> rfl

lemma quiet_openScope (parent : Nat) (bindings : Bindings) :
    Quiet (Exec.openScope parent bindings) :=
  fun _ _ _ => rfl

lemma quiet_makeFunction (code : Code (List Statement)) (scope : Nat) :
    Quiet (Exec.makeFunction code scope) :=
  fun _ _ _ => rfl

lemma quiet_time (f : Native) : Quiet (Exec.time f) := by
  cases f <;> exact fun _ _ _ => rfl

lemma quiet_checkArity (expected actual line : Nat) :
    Quiet (Run.checkArity expected actual line) := by
  unfold Run.checkArity
  split
  · exact quiet_pure ()
  · exact quiet_fault line _

lemma quiet_native (f : Native) (arguments : List Value) (line : Nat) :
    Quiet (Run.native f arguments line) :=
  (quiet_checkArity _ _ line).bind fun _ => (quiet_time f).bind fun _ => quiet_ofExcept line _

lemma quiet_enter (code : Code (List Statement)) (scope : Nat) (arguments : List Value)
    (line : Nat) : Quiet (Run.enter code scope arguments line) := by
  refine (quiet_checkArity _ _ line).bind fun _ => quiet_get (fun s => ?_) fun _ _ _ => rfl
  split
  · exact quiet_fault line _
  · exact quiet_openScope scope _

lemma describes_print (text : String) : (print text).Describes (Exec.print text) :=
  fun _ _ _ => rfl

lemma describes_read : read.Describes Exec.read :=
  fun _ _ _ => rfl

lemma describes_rand : rand.Describes Exec.rand :=
  fun _ _ _ => rfl

lemma Describes.nested {p : Plan α} {x : Exec α} (h : p.Describes x) :
    (nested p).Describes (Exec.nested x) := by
  intro s console cursor
  have body : x { s.placed console cursor with calls := s.calls + 1 } = _ :=
    h { s with calls := s.calls + 1 } console cursor
  change Exec.nested x (s.placed console cursor) = (((p _).andThen _).perform _ _ _).outcome
  rw [Play.perform_andThen, Play.Performed.outcome_after]
  simp only [Exec.nested, State.placed_calls, body, Play.Performed.outcome]
  cases ((p { s with calls := s.calls + 1 }).perform Console.context console cursor).result <;> rfl

/-- With so much fuel, runs are as their plans describe. -/
structure Faithful (fuel : Nat) : Prop where
  node (nodes : Array Node) (scope : Nat) (ref : NodeRef) :
    (node fuel nodes scope ref).Describes (Run.node fuel nodes scope ref)
  operands (nodes : Array Node) (scope : Nat) (refs : List NodeRef) :
    (operands fuel nodes scope refs).Describes (Run.operands fuel nodes scope refs)
  call (callee : Value) (arguments : List Value) (line : Nat) :
    (call fuel callee arguments line).Describes (Run.call fuel callee arguments line)
  statement (scope : Nat) (st : Statement) :
    (statement fuel scope st).Describes (Run.statement fuel scope st)
  statements (scope : Nat) (ss : List Statement) :
    (statements fuel scope ss).Describes (Run.statements fuel scope ss)
  whileLoop (scope : Nat) (condition : Expression) (body : Statement) :
    (whileLoop fuel scope condition body).Describes (Run.whileLoop fuel scope condition body)
  characters (scope : Nat) (name : String) (body : Statement) (text : List Char) :
    (characters fuel scope name body text).Describes (Run.characters fuel scope name body text)

namespace Faithful

lemma zero : Faithful 0 where
  node _ _ _ := by
    rw [Plan.node, Run.node]
    exact quiet_throw _
  operands _ _ refs := by
    cases refs with
    | nil =>
      rw [Plan.operands, Run.operands]
      exact describes_pure []
    | cons =>
      rw [Plan.operands, Run.operands]
      exact quiet_throw _
  call _ _ _ := by
    rw [Plan.call, Run.call]
    exact quiet_throw _
  statement _ _ := by
    rw [Plan.statement, Run.statement]
    exact quiet_throw _
  statements _ ss := by
    cases ss with
    | nil =>
      rw [Plan.statements, Run.statements]
      exact describes_pure _
    | cons =>
      rw [Plan.statements, Run.statements]
      exact quiet_throw _
  whileLoop _ _ _ := by
    rw [Plan.whileLoop, Run.whileLoop]
    exact quiet_throw _
  characters _ _ _ text := by
    cases text with
    | nil =>
      rw [Plan.characters, Run.characters]
      exact describes_pure _
    | cons =>
      rw [Plan.characters, Run.characters]
      exact quiet_throw _

variable {fuel : Nat} (h : Faithful fuel)
include h

lemma node_succ (nodes : Array Node) (scope : Nat) (ref : NodeRef) :
    (Plan.node (fuel + 1) nodes scope ref).Describes (Run.node (fuel + 1) nodes scope ref) := by
  cases found : nodes[ref]? with
  | none =>
    simp only [Plan.node, Run.node, found]
    exact quiet_throw _
  | some node =>
    cases node with
    | atom atom line =>
      simp only [Plan.node, Run.node, found]
      exact quiet_evaluate scope line atom
    | group inner =>
      simp only [Plan.node, Run.node, found]
      exact h.node nodes scope inner
    | unary op rhs line =>
      simp only [Plan.node, Run.node, found]
      exact (h.node nodes scope rhs).bind fun _ => quiet_ofExcept line _
    | binary op lhs rhs line =>
      simp only [Plan.node, Run.node, found]
      refine (h.node nodes scope lhs).bind fun _ => ?_
      exact (h.node nodes scope rhs).bind fun _ => quiet_ofExcept line _
    | assign target rhs =>
      simp only [Plan.node, Run.node, found]
      refine (h.node nodes scope rhs).bind fun v => ?_
      exact Describes.bind (quiet_assign scope _ v _) fun _ => describes_pure v
    | logical op lhs rhs line =>
      simp only [Plan.node, Run.node, found]
      refine (h.node nodes scope lhs).bind fun v => ?_
      split
      · exact describes_pure v
      · exact h.node nodes scope rhs
    | call callee arguments line =>
      simp only [Plan.node, Run.node, found]
      refine (h.node nodes scope callee).bind fun f => ?_
      exact (h.operands nodes scope arguments).bind fun vs => h.call f vs line
    | read line =>
      simp only [Plan.node, Run.node, found]
      exact describes_read
    | rand line =>
      simp only [Plan.node, Run.node, found]
      exact describes_rand
    | floor argument line =>
      simp only [Plan.node, Run.node, found]
      exact (h.node nodes scope argument).bind fun _ => quiet_native _ _ line
    | substring subject start stop line =>
      simp only [Plan.node, Run.node, found]
      refine (h.node nodes scope subject).bind fun _ => ?_
      refine (h.node nodes scope start).bind fun _ => ?_
      exact (h.node nodes scope stop).bind fun _ => quiet_native _ _ line
    | value v line =>
      simp only [Plan.node, Run.node, found]
      exact describes_pure v

lemma operands_succ (nodes : Array Node) (scope : Nat) (refs : List NodeRef) :
    (Plan.operands (fuel + 1) nodes scope refs).Describes
      (Run.operands (fuel + 1) nodes scope refs) := by
  cases refs with
  | nil =>
    simp only [Plan.operands, Run.operands]
    exact describes_pure []
  | cons ref refs =>
    simp only [Plan.operands, Run.operands]
    refine (h.node nodes scope ref).bind fun v => ?_
    exact (h.operands nodes scope refs).bind fun vs => describes_pure (v :: vs)

lemma call_succ (f : Value) (vs : List Value) (line : Nat) :
    (Plan.call (fuel + 1) f vs line).Describes (Run.call (fuel + 1) f vs line) := by
  cases f with
  | native f =>
    simp only [Plan.call, Run.call]
    exact quiet_native f.native vs line
  | function f =>
    simp only [Plan.call, Run.call]
    refine describes_get fun s console cursor => ?_
    rw [State.placed_codes]
    cases s.codes[f.number]? with
    | none => exact quiet_throw _
    | some code =>
      refine Describes.bind (quiet_enter code f.scope vs line) fun inner => ?_
      exact (h.statements inner code.body).nested.bind fun c => describes_pure c.value
  | _ =>
    simp only [Plan.call, Run.call]
    exact quiet_fault line _

lemma statement_succ (scope : Nat) (st : Statement) :
    (Plan.statement (fuel + 1) scope st).Describes (Run.statement (fuel + 1) scope st) := by
  cases st with
  | declareVar name initial =>
    cases initial with
    | none =>
      simp only [Plan.statement, Run.statement]
      exact Describes.bind (quiet_declare scope _ _) fun _ => describes_pure _
    | some e =>
      simp only [Plan.statement, Run.statement]
      refine (h.node _ scope _).bind fun v => ?_
      exact Describes.bind (quiet_declare scope _ v) fun _ => describes_pure _
  | declareFun name parameters body =>
    simp only [Plan.statement, Run.statement]
    refine Describes.bind (quiet_makeFunction _ scope) fun f => ?_
    exact Describes.bind (quiet_declare scope _ f) fun _ => describes_pure _
  | expression e =>
    simp only [Plan.statement, Run.statement]
    exact (h.node _ scope _).bind fun _ => describes_pure _
  | print e =>
    simp only [Plan.statement, Run.statement]
    refine (h.node _ scope _).bind fun v => ?_
    exact (describes_print v.text).bind fun _ => describes_pure _
  | block body =>
    simp only [Plan.statement, Run.statement]
    exact Describes.bind (quiet_openScope scope []) fun inner => h.statements inner body
  | branch condition success failure =>
    cases failure with
    | none =>
      simp only [Plan.statement, Run.statement]
      refine (h.node _ scope _).bind fun v => ?_
      split
      · exact h.statement scope success
      · exact describes_pure _
    | some failure =>
      simp only [Plan.statement, Run.statement]
      refine (h.node _ scope _).bind fun v => ?_
      split
      · exact h.statement scope success
      · exact h.statement scope failure
  | whileLoop condition body =>
    simp only [Plan.statement, Run.statement]
    exact h.whileLoop scope condition body
  | returnFrom line value =>
    cases value with
    | none =>
      simp only [Plan.statement, Run.statement]
      exact describes_pure _
    | some e =>
      simp only [Plan.statement, Run.statement]
      exact (h.node _ scope _).bind fun v => describes_pure _
  | stringLoop name e body =>
    simp only [Plan.statement, Run.statement]
    refine (h.node _ scope _).bind fun v => ?_
    cases v with
    | string text => exact h.characters scope name.name body text.toList
    | _ => exact quiet_fault name.line _

lemma statements_succ (scope : Nat) (ss : List Statement) :
    (Plan.statements (fuel + 1) scope ss).Describes (Run.statements (fuel + 1) scope ss) := by
  cases ss with
  | nil =>
    simp only [Plan.statements, Run.statements]
    exact describes_pure _
  | cons st ss =>
    simp only [Plan.statements, Run.statements]
    refine (h.statement scope st).bind fun completion => ?_
    cases completion with
    | normal => exact h.statements scope ss
    | returned v => exact describes_pure _

lemma whileLoop_succ (scope : Nat) (condition : Expression) (body : Statement) :
    (Plan.whileLoop (fuel + 1) scope condition body).Describes
      (Run.whileLoop (fuel + 1) scope condition body) := by
  simp only [Plan.whileLoop, Run.whileLoop]
  refine (h.node _ scope _).bind fun v => ?_
  split
  · refine (h.statement scope body).bind fun completion => ?_
    cases completion with
    | normal => exact h.whileLoop scope condition body
    | returned v => exact describes_pure _
  · exact describes_pure _

lemma characters_succ (scope : Nat) (name : String) (body : Statement) (text : List Char) :
    (Plan.characters (fuel + 1) scope name body text).Describes
      (Run.characters (fuel + 1) scope name body text) := by
  cases text with
  | nil =>
    simp only [Plan.characters, Run.characters]
    exact describes_pure _
  | cons c text =>
    simp only [Plan.characters, Run.characters]
    refine Describes.bind (quiet_declare scope name _) fun _ => ?_
    refine (h.statement scope body).bind fun completion => ?_
    cases completion with
    | normal => exact h.characters scope name body text
    | returned v => exact describes_pure _

lemma succ : Faithful (fuel + 1) where
  node := h.node_succ
  operands := h.operands_succ
  call := h.call_succ
  statement := h.statement_succ
  statements := h.statements_succ
  whileLoop := h.whileLoop_succ
  characters := h.characters_succ

end Faithful

/-- Runs are as their plans describe. -/
theorem faithful : ∀ fuel, Faithful fuel
  | 0 => .zero
  | fuel + 1 => (faithful fuel).succ

lemma program_describes (fuel : Nat) (ss : List Statement) :
    (program fuel ss).Describes (Run.program fuel ss) := by
  refine ((faithful fuel).statements globalScope ss).bind fun completion => ?_
  cases completion with
  | normal => exact describes_pure ()
  | returned v => exact quiet_throw _

end Plan

end Lox
