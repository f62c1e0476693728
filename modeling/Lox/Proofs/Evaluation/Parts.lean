import Lox.Session
import Mathlib.Logic.Relation

/-!
The parts of a run. A part is the run of one node, call or statement within a larger one; it begins
in the state that the parts before it have left. A state is met by a session if a part begins or
ends in it.
-/

namespace Lox

namespace Statement

/-- The statements of which a statement is made, with those of the body of a function. -/
def parts : Statement → List Statement
  | .declareFun _ _ body | .block body => body
  | .branch _ success none => [success]
  | .branch _ success (some failure) => [success, failure]
  | .whileLoop _ body | .stringLoop _ _ body => [body]
  | .declareVar _ _ | .expression _ | .print _ | .returnFrom _ _ => []

/-- The expression that a statement evaluates before all else. -/
def subject? : Statement → Option Expression
  | .declareVar _ initial => initial
  | .expression e | .print e | .branch e _ _ | .whileLoop e _ | .stringLoop _ e _ => some e
  | .returnFrom _ value => value
  | .declareFun _ _ _ | .block _ => none

mutual

/-- The names that a statement may bind in the scope in which it is run. What stands in a block or
in the body of a function is run in a scope of its own. -/
def declares : Statement → List String
  | .declareVar name _ | .declareFun name _ _ => [name.name]
  | .expression _ | .print _ | .block _ | .returnFrom _ _ => []
  | .branch _ success failure => success.declares ++ maybeDeclares failure
  | .whileLoop _ body => body.declares
  | .stringLoop name _ body => name.name :: body.declares

/-- The same where there may be no statement. -/
def maybeDeclares : Option Statement → List String
  | none => []
  | some st => st.declares

end

/-- A statement is written in a text without mistakes, at the top or within another statement. -/
inductive Written : Statement → Prop
  | top {text : List Char} {ss : List Statement} {st : Statement} :
    Source.program text = .ok ss → st ∈ ss → Written st
  | part {st part : Statement} : Written st → part ∈ st.parts → Written part

end Statement

/-- The state in which a step ends, whether it stops or not. -/
def Exec.after {α : Type} (x : Exec α) (s : State) : State :=
  match x s with
  | .ok _ t | .error _ t => t

/-- A step that succeeds ends in the state after it. -/
lemma Exec.eq_ok {α : Type} {x : Exec α} {s : State} {a : α} (h : (match x s with
    | .ok b _ => some b
    | .error _ _ => none) = some a) : x s = .ok a (x.after s) := by
  cases run : x s with
  | ok b t =>
    simp only [run, Option.some.injEq] at h
    simp only [Exec.after, run, h]
  | error e t => simp [run] at h

/-- What is run in a part of a run. -/
inductive Part
  | node (nodes : Array Node) (scope : Nat) (ref : NodeRef)
  | call (callee : Value) (arguments : List Value) (line : Nat)
  | statement (scope : Nat) (st : Statement)
  | statements (scope : Nat) (ss : List Statement)
  | whileLoop (scope : Nat) (condition : Expression) (body : Statement)
  | characters (scope : Nat) (name : String) (body : Statement) (text : List Char)

/-- The state in which a part ends. -/
def Part.after (fuel : Nat) : Part → State → State
  | .node nodes scope ref => (Run.node fuel nodes scope ref).after
  | .call callee arguments line => (Run.call fuel callee arguments line).after
  | .statement scope st => (Run.statement fuel scope st).after
  | .statements scope ss => (Run.statements fuel scope ss).after
  | .whileLoop scope condition body => (Run.whileLoop fuel scope condition body).after
  | .characters scope name body text => (Run.characters fuel scope name body text).after

/-- Why a step stops, if it does. -/
def Exec.stop? {α : Type} (x : Exec α) (s : State) : Option Stop :=
  match x s with
  | .ok _ _ => none
  | .error stop _ => some stop

/-- Why a part stops, if it does. -/
def Part.stop? (fuel : Nat) : Part → State → Option Stop
  | .node nodes scope ref => (Run.node fuel nodes scope ref).stop?
  | .call callee arguments line => (Run.call fuel callee arguments line).stop?
  | .statement scope st => (Run.statement fuel scope st).stop?
  | .statements scope ss => (Run.statements fuel scope ss).stop?
  | .whileLoop scope condition body => (Run.whileLoop fuel scope condition body).stop?
  | .characters scope name body text => (Run.characters fuel scope name body text).stop?

/-- The values in the result of a step, if it does not stop. -/
def Exec.yields {α : Type} (values : α → List Value) (x : Exec α) (s : State) : List Value :=
  match x s with
  | .ok a _ => values a
  | .error _ _ => []

/-- The value that is returned, if one is. -/
def Completion.values : Completion → List Value
  | .normal => []
  | .returned v => [v]

/-- The values that a part hands on when it ends. -/
def Part.yields (fuel : Nat) : Part → State → List Value
  | .node nodes scope ref => (Run.node fuel nodes scope ref).yields fun v => [v]
  | .call callee arguments line => (Run.call fuel callee arguments line).yields fun v => [v]
  | .statement scope st => (Run.statement fuel scope st).yields Completion.values
  | .statements scope ss => (Run.statements fuel scope ss).yields Completion.values
  | .whileLoop scope condition body =>
    (Run.whileLoop fuel scope condition body).yields Completion.values
  | .characters scope name body text =>
    (Run.characters fuel scope name body text).yields Completion.values

/-- The beginning of a part of a run. -/
structure Moment where
  part : Part
  /-- How many bodies of functions enclose the part. -/
  bodies : Nat
  state : State

namespace Moment

/-- The second part begins within the first one, whose earlier parts have ended. -/
inductive Leads : Moment → Moment → Prop
  /-- The right operand of `and` and `or` is a part only where the left one does not decide. -/
  | operand {nodes scope ref node before next others fuel vs n s t} :
    nodes[ref]? = some node → node.operands = before ++ next :: others →
    Run.operands fuel nodes scope before s = .ok vs t →
    (∀ op lhs rhs line v, node = .logical op lhs rhs line → vs = [v] → op.decidedBy v = false) →
    Leads ⟨.node nodes scope ref, n, s⟩ ⟨.node nodes scope next, n, t⟩
  | call {nodes scope ref callee arguments line fuel f vs n s t} :
    nodes[ref]? = some (.call callee arguments line) →
    Run.operands fuel nodes scope (callee :: arguments) s = .ok (f :: vs) t →
    Leads ⟨.node nodes scope ref, n, s⟩ ⟨.call f vs line, n, t⟩
  | body {f vs line code scope n s t} :
    s.codes[f.number]? = some code → Run.enter code f.scope vs line s = .ok scope t →
    Leads ⟨.call (.function f) vs line, n, s⟩
      ⟨.statements scope code.body, n + 1, { t with calls := t.calls + 1 }⟩
  | subject {scope st e n s} :
    st.subject? = some e →
    Leads ⟨.statement scope st, n, s⟩ ⟨.node e.nodes scope e.root, n, s⟩
  | block {scope body inner n s t} :
    Exec.openScope scope [] s = .ok inner t →
    Leads ⟨.statement scope (.block body), n, s⟩ ⟨.statements inner body, n, t⟩
  | success {scope e success failure fuel v n s t} :
    Run.expression fuel scope e s = .ok v t → v.isTrue = true →
    Leads ⟨.statement scope (.branch e success failure), n, s⟩ ⟨.statement scope success, n, t⟩
  | failure {scope e success failure fuel v n s t} :
    Run.expression fuel scope e s = .ok v t → v.isTrue = false →
    Leads ⟨.statement scope (.branch e success (some failure)), n, s⟩
      ⟨.statement scope failure, n, t⟩
  | whileLoop {scope e body n s} :
    Leads ⟨.statement scope (.whileLoop e body), n, s⟩ ⟨.whileLoop scope e body, n, s⟩
  | stringLoop {scope name e body fuel text n s t} :
    Run.expression fuel scope e s = .ok (.string text) t →
    Leads ⟨.statement scope (.stringLoop name e body), n, s⟩
      ⟨.characters scope name.name body text.toList, n, t⟩
  | first {scope st ss n s} :
    Leads ⟨.statements scope (st :: ss), n, s⟩ ⟨.statement scope st, n, s⟩
  | others {scope st ss fuel n s t} :
    Run.statement fuel scope st s = .ok .normal t →
    Leads ⟨.statements scope (st :: ss), n, s⟩ ⟨.statements scope ss, n, t⟩
  | condition {scope e body n s} :
    Leads ⟨.whileLoop scope e body, n, s⟩ ⟨.node e.nodes scope e.root, n, s⟩
  | round {scope e body fuel v n s t} :
    Run.expression fuel scope e s = .ok v t → v.isTrue = true →
    Leads ⟨.whileLoop scope e body, n, s⟩ ⟨.statement scope body, n, t⟩
  | again {scope e body fuel v n s t u} :
    Run.expression fuel scope e s = .ok v t → v.isTrue = true →
    Run.statement fuel scope body t = .ok .normal u →
    Leads ⟨.whileLoop scope e body, n, s⟩ ⟨.whileLoop scope e body, n, u⟩
  | character {scope name body c text n s t} :
    Exec.declare scope name (.string (String.singleton c)) s = .ok () t →
    Leads ⟨.characters scope name body (c :: text), n, s⟩ ⟨.statement scope body, n, t⟩
  | next {scope name body c text fuel n s t u} :
    Exec.declare scope name (.string (String.singleton c)) s = .ok () t →
    Run.statement fuel scope body t = .ok .normal u →
    Leads ⟨.characters scope name body (c :: text), n, s⟩
      ⟨.characters scope name body text, n, u⟩

/-- A part of the run of a program, at the moment in which it begins. -/
def Within (ss : List Statement) (s : State) (m : Moment) : Prop :=
  Relation.ReflTransGen Leads ⟨.statements globalScope ss, 0, s⟩ m

end Moment

namespace Session

variable {fuel : Nat} {s : State}

/-- A program leaves the state in which its run ends. -/
lemma feed_of_program {text : List Char} {ss : List Statement} (read : Source.program text = .ok ss)
    (fuel : Nat) (s : State) : (feed fuel text s).2 = (Run.program fuel ss).after s := by
  simp only [feed, read, Exec.after]
  cases Run.program fuel ss s with
  | ok _ t => rfl
  | error stop t => cases stop <;> rfl

/-- A session keeps what each of its texts keeps, and all outcomes are as those of one text are. -/
lemma feedAll_keeps {P : State → Prop} {Q : Outcome → Prop}
    (collected : ∀ s, P s → P (collect s).2)
    (kept : ∀ text s, P s → P (feed fuel text s).2 ∧ Q (feed fuel text s).1)
    (texts : List (List Char)) (start : P s) :
    P (feedAll fuel texts s).2 ∧ ∀ result ∈ (feedAll fuel texts s).1, Q result.1 := by
  induction texts generalizing s with
  | nil => exact ⟨start, by simp [feedAll]⟩
  | cons text texts ih =>
    obtain ⟨after, first⟩ := kept text s start
    obtain ⟨last, others⟩ := ih (collected _ after)
    simp only [feedAll, List.mem_cons, forall_eq_or_imp]
    exact ⟨last, first, others⟩

end Session

/-- A state that a session meets: after some texts have been run, a part of the run of one more
begins or ends in it. -/
inductive State.Met : State → Prop
  | begins {fuel texts now console text ss} {m : Moment} :
    Source.program text = .ok ss →
    m.Within ss (Session.feedAll fuel texts (State.fresh now console)).2 → Met m.state
  | ends {fuel texts now console text ss} {m : Moment} (rest : Nat) :
    Source.program text = .ok ss →
    m.Within ss (Session.feedAll fuel texts (State.fresh now console)).2 →
    Met (m.part.after rest m.state)

end Lox
