import Lox.Proofs.Evaluation.Discipline
import Lox.Proofs.Evaluation.Fuel

/-!
Where errors come from. A run that ends with an error has come to a part that raises it, once the
parts of that part have ended.
-/

namespace Lox

variable {α β : Type} {s t : State} {e : RuntimeError}

namespace Moment

/-- A part stops with an error of its own, after the parts within it have ended. -/
inductive Raises : Moment → RuntimeError → Prop
  | name {nodes scope ref name line n s} :
    nodes[ref]? = some (.atom (.identifier name) line) →
    s.scopes.get? scope name.name = none →
    Raises ⟨.node nodes scope ref, n, s⟩ ⟨.undefined name.name, line⟩
  | target {nodes scope ref target rhs fuel v n s t} :
    nodes[ref]? = some (.assign target rhs) → Run.node fuel nodes scope rhs s = .ok v t →
    t.scopes.find? scope target.name = none →
    Raises ⟨.node nodes scope ref, n, s⟩ ⟨.undefined target.name, target.line⟩
  | unary {nodes scope ref op rhs line fuel v fault n s t} :
    nodes[ref]? = some (.unary op rhs line) → Run.node fuel nodes scope rhs s = .ok v t →
    op.apply v = .error fault → Raises ⟨.node nodes scope ref, n, s⟩ ⟨fault, line⟩
  | binary {nodes scope ref op lhs rhs line fuel v w fault n s t} :
    nodes[ref]? = some (.binary op lhs rhs line) →
    Run.operands fuel nodes scope [lhs, rhs] s = .ok [v, w] t →
    op.apply v w = .error fault → Raises ⟨.node nodes scope ref, n, s⟩ ⟨fault, line⟩
  | floor {nodes scope ref argument line fuel v e n s t u} :
    nodes[ref]? = some (.floor argument line) → Run.node fuel nodes scope argument s = .ok v t →
    Run.native .floor [v] line t = .error (.error e) u → Raises ⟨.node nodes scope ref, n, s⟩ e
  | substring {nodes scope ref subject start stop line fuel vs e n s t u} :
    nodes[ref]? = some (.substring subject start stop line) →
    Run.operands fuel nodes scope [subject, start, stop] s = .ok vs t →
    Run.native .substring vs line t = .error (.error e) u →
    Raises ⟨.node nodes scope ref, n, s⟩ e
  | native {f vs line e n s t} :
    Run.native f.native vs line s = .error (.error e) t →
    Raises ⟨.call (.native f) vs line, n, s⟩ e
  | entry {f code vs line e n s t} :
    s.codes[f.number]? = some code → Run.enter code f.scope vs line s = .error (.error e) t →
    Raises ⟨.call (.function f) vs line, n, s⟩ e
  | callee {v vs line n s} :
    v.Plain → (∀ f, v ≠ .native f) → Raises ⟨.call v vs line, n, s⟩ ⟨.notCallable v, line⟩
  | iterable {scope name e body fuel v n s t} :
    Run.expression fuel scope e s = .ok v t → (∀ text, v ≠ .string text) →
    Raises ⟨.statement scope (.stringLoop name e body), n, s⟩ ⟨.notIterable v, name.line⟩

/-- The run of a part comes to one that raises the error. -/
def Arises (m : Moment) (e : RuntimeError) : Prop :=
  ∃ m', Relation.ReflTransGen Leads m m' ∧ m'.Raises e

lemma Raises.arises {m : Moment} (h : m.Raises e) : m.Arises e :=
  ⟨m, .refl, h⟩

lemma Leads.arises {m m' : Moment} (leads : m.Leads m') (h : m'.Arises e) : m.Arises e := by
  obtain ⟨last, way, raises⟩ := h
  exact ⟨last, .head leads way, raises⟩

end Moment

namespace Exec

lemma bind_stops {x : Exec α} {f : α → Exec β} {stop : Stop} (h : (x >>= f) s = .error stop t) :
    x s = .error stop t ∨ ∃ a u, x s = .ok a u ∧ f a u = .error stop t := by
  change EStateM.bind x f s = _ at h
  rw [EStateM.bind] at h
  cases hx : x s with
  | ok a u =>
    rw [hx] at h
    exact .inr ⟨a, u, rfl, h⟩
  | error stop' u =>
    rw [hx] at h
    cases h
    exact .inl rfl

lemma nested_stops {x : Exec α} {stop : Stop} (h : nested x s = .error stop t) :
    ∃ u, x { s with calls := s.calls + 1 } = .error stop u := by
  simp only [nested] at h
  split at h
  · cases h
  · next u run =>
    cases h
    exact ⟨u, run⟩

lemma ofExcept_stops {line : Nat} {x : Except Fault α}
    (h : ofExcept line x s = .error (.error e) t) : ∃ f, x = .error f ∧ e = ⟨f, line⟩ := by
  cases x with
  | ok a => cases h
  | error f =>
    cases h
    exact ⟨f, rfl, rfl⟩

end Exec

namespace Run

lemma checkArity_stops {expected actual line : Nat}
    (h : checkArity expected actual line s = .error (.error e) t) :
    expected ≠ actual ∧ e = ⟨.argumentCount actual expected, line⟩ := by
  unfold checkArity at h
  split at h
  · cases h
  · next different =>
    cases h
    exact ⟨different, rfl⟩

/-- An error of a built-in function is on the line of its call. -/
lemma native_stops {f : Native} {vs : List Value} {line : Nat}
    (h : native f vs line s = .error (.error e) t) :
    e.line = line ∧ (e.fault = .argumentCount vs.length f.arity ∨
      ∃ now, f.apply now vs = .error e.fault) := by
  rcases Exec.bind_stops h with h | ⟨_, u, -, h⟩
  · obtain ⟨-, rfl⟩ := checkArity_stops h
    exact ⟨rfl, .inl rfl⟩
  rcases Exec.bind_stops h with h | ⟨now, u', -, h⟩
  · cases f <;> cases h
  · obtain ⟨fault, failed, rfl⟩ := Exec.ofExcept_stops h
    exact ⟨rfl, .inr ⟨now, failed⟩⟩

/-- A call that does not come to the body of its function fails on its own line. -/
lemma enter_stops {code : Code (List Statement)} {scope : Nat} {vs : List Value} {line : Nat}
    (h : enter code scope vs line s = .error (.error e) t) : e.line = line := by
  rcases Exec.bind_stops h with h | ⟨_, u, -, h⟩
  · obtain ⟨-, rfl⟩ := checkArity_stops h
    rfl
  rcases Exec.bind_stops h with h | ⟨_, u', -, h⟩
  · cases h
  · split at h <;> cases h
    rfl

open Moment (Arises Raises Leads)

/-- With so much fuel, an error of a run arises within it. -/
structure Traced (fuel : Nat) : Prop where
  node {nodes : Array Node} {scope : Nat} {i : NodeRef} {s t : State} {e : RuntimeError} (n : Nat) :
    node fuel nodes scope i s = .error (.error e) t → Arises ⟨.node nodes scope i, n, s⟩ e
  operands {nodes : Array Node} {scope : Nat} {refs : List NodeRef} {s t : State}
    {e : RuntimeError} (n : Nat) : operands fuel nodes scope refs s = .error (.error e) t →
    ∃ before next others vs u, refs = before ++ next :: others ∧
      Settles (fun fuel => Run.operands fuel nodes scope before) s (.ok vs u) ∧
      Arises ⟨.node nodes scope next, n, u⟩ e
  call {f : Value} {vs : List Value} {line : Nat} {s t : State} {e : RuntimeError} (n : Nat) :
    call fuel f vs line s = .error (.error e) t → Arises ⟨.call f vs line, n, s⟩ e
  statement {scope : Nat} {st : Statement} {s t : State} {e : RuntimeError} (n : Nat) :
    statement fuel scope st s = .error (.error e) t → Arises ⟨.statement scope st, n, s⟩ e
  statements {scope : Nat} {ss : List Statement} {s t : State} {e : RuntimeError} (n : Nat) :
    statements fuel scope ss s = .error (.error e) t → Arises ⟨.statements scope ss, n, s⟩ e
  whileLoop {scope : Nat} {c : Expression} {st : Statement} {s t : State} {e : RuntimeError}
    (n : Nat) : whileLoop fuel scope c st s = .error (.error e) t →
    Arises ⟨.whileLoop scope c st, n, s⟩ e
  characters {scope : Nat} {name : String} {st : Statement} {text : List Char} {s t : State}
    {e : RuntimeError} (n : Nat) : characters fuel scope name st text s = .error (.error e) t →
    Arises ⟨.characters scope name st text, n, s⟩ e

namespace Traced

lemma zero : Traced 0 where
  node _ h := by
    rw [Run.node] at h
    cases h
  operands {_ _ refs _ _ _} _ h := by
    cases refs <;> rw [Run.operands] at h <;> cases h
  call _ h := by
    rw [Run.call] at h
    cases h
  statement _ h := by
    rw [Run.statement] at h
    cases h
  statements {_ ss _ _ _} _ h := by
    cases ss <;> rw [Run.statements] at h <;> cases h
  whileLoop _ h := by
    rw [Run.whileLoop] at h
    cases h
  characters {_ _ _ text _ _ _} _ h := by
    cases text <;> rw [Run.characters] at h <;> cases h

variable {fuel : Nat} (h : Traced fuel) {scope n : Nat}
include h

lemma node_succ {nodes : Array Node} {i : NodeRef}
    (run : Run.node (fuel + 1) nodes scope i s = .error (.error e) t) :
    Arises ⟨.node nodes scope i, n, s⟩ e := by
  cases found : nodes[i]? with
  | none =>
    simp only [Run.node, found] at run
    cases run
  | some node =>
    -- The error of an operand, once those before it have their values.
    have operand (before : List NodeRef) {next : NodeRef} {others : List NodeRef}
        {vs : List Value} {u : State} (split : node.operands = before ++ next :: others)
        (values : Settles (fun fuel => Run.operands fuel nodes scope before) s (.ok vs u))
        (undecided : ∀ op lhs rhs line v, node = .logical op lhs rhs line → vs = [v] →
          op.decidedBy v = false)
        (arises : Arises ⟨.node nodes scope next, n, u⟩ e) :
        Arises ⟨.node nodes scope i, n, s⟩ e := by
      obtain ⟨k, values⟩ := values.exists_run
      exact (Leads.operand found split values undecided).arises arises
    have none : Settles (fun fuel => Run.operands fuel nodes scope []) s (.ok [] s) :=
      ⟨0, fun fuel _ => operands_nil nodes scope fuel s⟩
    simp only [Run.node, found] at run
    cases node with
    | atom atom line =>
      cases atom with
      | identifier name =>
        simp only [Atom.evaluate, Exec.lookup] at run
        split at run
        · cases run
        · next unbound =>
          cases run
          exact (Raises.name found unbound).arises
      | _ => cases run
    | group inner => exact operand [] rfl none (by simp) (h.node n run)
    | unary op rhs line =>
      rcases Exec.bind_stops run with run | ⟨v, u, value, run⟩
      · exact operand [] rfl none (by simp) (h.node n run)
      · obtain ⟨f, fault, rfl⟩ := Exec.ofExcept_stops run
        exact (Raises.unary found value fault).arises
    | binary op lhs rhs line =>
      rcases Exec.bind_stops run with run | ⟨v, u, left, run⟩
      · exact operand [] rfl none (by simp) (h.node n run)
      rcases Exec.bind_stops run with run | ⟨w, u', right, run⟩
      · exact operand [lhs] rfl (settles_node left).operand (by simp) (h.node n run)
      · obtain ⟨f, fault, rfl⟩ := Exec.ofExcept_stops run
        obtain ⟨k, values⟩ := ((settles_node left).operands_cons
          (settles_node right).operand).exists_run
        exact (Raises.binary found values fault).arises
    | assign target rhs =>
      rcases Exec.bind_stops run with run | ⟨v, u, value, run⟩
      · exact operand [] rfl none (by simp) (h.node n run)
      rcases Exec.bind_stops run with run | ⟨_, _, _, run⟩
      · simp only [Exec.assign] at run
        split at run
        · cases run
        · next unbound =>
          cases run
          exact (Raises.target found value unbound).arises
      · cases run
    | logical op lhs rhs line =>
      rcases Exec.bind_stops run with run | ⟨v, u, value, run⟩
      · refine operand [] rfl none ?_ (h.node n run)
        intro op lhs rhs line v _ some
        cases some
      · cases decides : op.decidedBy v with
        | true =>
          rw [if_pos decides] at run
          cases run
        | false =>
          rw [if_neg (by simp [decides])] at run
          refine operand [lhs] rfl (settles_node value).operand ?_ (h.node n run)
          rintro op lhs rhs line v ⟨⟩ ⟨⟩
          exact decides
    | call callee arguments line =>
      rcases Exec.bind_stops run with run | ⟨f, u, value, run⟩
      · exact operand [] rfl none (by simp) (h.node n run)
      rcases Exec.bind_stops run with run | ⟨vs, u', values, run⟩
      · obtain ⟨before, next, others, vs, w, rfl, values, arises⟩ := h.operands n run
        exact operand (callee :: before) rfl ((settles_node value).operands_cons values)
          (by simp) arises
      · obtain ⟨k, values⟩ :=
          ((settles_node value).operands_cons (settles_operands values)).exists_run
        exact (Leads.call found values).arises (h.call n run)
    | floor argument line =>
      rcases Exec.bind_stops run with run | ⟨v, u, value, run⟩
      · exact operand [] rfl none (by simp) (h.node n run)
      · exact (Raises.floor found value run).arises
    | substring subject start stop line =>
      rcases Exec.bind_stops run with run | ⟨v, u, first, run⟩
      · exact operand [] rfl none (by simp) (h.node n run)
      rcases Exec.bind_stops run with run | ⟨a, u', second, run⟩
      · exact operand [subject] rfl (settles_node first).operand (by simp) (h.node n run)
      rcases Exec.bind_stops run with run | ⟨b, u'', third, run⟩
      · exact operand [subject, start] rfl
          ((settles_node first).operands_cons (settles_node second).operand) (by simp)
          (h.node n run)
      · obtain ⟨k, values⟩ := ((settles_node first).operands_cons
          ((settles_node second).operands_cons (settles_node third).operand)).exists_run
        exact (Raises.substring found values run).arises
    | read | rand | value => cases run

lemma operands_succ {nodes : Array Node} {refs : List NodeRef}
    (run : Run.operands (fuel + 1) nodes scope refs s = .error (.error e) t) :
    ∃ before next others vs u, refs = before ++ next :: others ∧
      Settles (fun fuel => Run.operands fuel nodes scope before) s (.ok vs u) ∧
      Arises ⟨.node nodes scope next, n, u⟩ e := by
  cases refs with
  | nil =>
    rw [Run.operands] at run
    cases run
  | cons ref refs =>
    simp only [Run.operands] at run
    rcases Exec.bind_stops run with run | ⟨v, u, value, run⟩
    · exact ⟨[], ref, refs, [], s, rfl, ⟨0, fun fuel _ => operands_nil nodes scope fuel s⟩,
        h.node n run⟩
    rcases Exec.bind_stops run with run | ⟨_, _, _, run⟩
    · obtain ⟨before, next, others, vs, w, rfl, values, arises⟩ := h.operands n run
      exact ⟨ref :: before, next, others, v :: vs, w, rfl,
        (settles_node value).operands_cons values, arises⟩
    · cases run

lemma call_succ {f : Value} {vs : List Value} {line : Nat}
    (run : Run.call (fuel + 1) f vs line s = .error (.error e) t) :
    Arises ⟨.call f vs line, n, s⟩ e := by
  cases f with
  | native f =>
    simp only [Run.call] at run
    exact (Raises.native run).arises
  | function f =>
    simp only [Run.call] at run
    rcases Exec.bind_stops run with run | ⟨_, _, same, run⟩
    · cases run
    cases same
    cases found : s.codes[f.number]? with
    | none =>
      simp only [found] at run
      cases run
    | some code =>
      simp only [found] at run
      rcases Exec.bind_stops run with run | ⟨inner, u, entered, run⟩
      · exact (Raises.entry found run).arises
      rcases Exec.bind_stops run with run | ⟨_, _, _, run⟩
      · obtain ⟨w, run⟩ := Exec.nested_stops run
        exact (Leads.body found entered).arises (h.statements (n + 1) run)
      · cases run
  | _ =>
    simp only [Run.call] at run
    cases run
    refine (Raises.callee ?_ ?_).arises
    · intro f same
      cases same
    · intro f same
      cases same

lemma statement_succ {st : Statement}
    (run : Run.statement (fuel + 1) scope st s = .error (.error e) t) :
    Arises ⟨.statement scope st, n, s⟩ e := by
  have subject {x : Expression} {t : State} (here : st.subject? = some x)
      (run : Run.node fuel x.nodes scope x.root s = .error (.error e) t) :
      Arises ⟨.statement scope st, n, s⟩ e :=
    (Leads.subject here).arises (h.node n run)
  cases st with
  | declareVar name initial =>
    cases initial with
    | none =>
      simp only [Run.statement] at run
      cases run
    | some x =>
      simp only [Run.statement] at run
      rcases Exec.bind_stops run with run | ⟨v, u, value, run⟩
      · exact subject rfl run
      · cases run
  | declareFun name parameters body =>
    simp only [Run.statement] at run
    cases run
  | expression x =>
    simp only [Run.statement] at run
    rcases Exec.bind_stops run with run | ⟨v, u, value, run⟩
    · exact subject rfl run
    · cases run
  | print x =>
    simp only [Run.statement] at run
    rcases Exec.bind_stops run with run | ⟨v, u, value, run⟩
    · exact subject rfl run
    · cases run
  | block body =>
    simp only [Run.statement] at run
    rcases Exec.bind_stops run with run | ⟨inner, u, opened, run⟩
    · cases run
    · exact (Leads.block opened).arises (h.statements n run)
  | branch x success failure =>
    cases failure with
    | none =>
      simp only [Run.statement] at run
      rcases Exec.bind_stops run with run | ⟨v, u, value, run⟩
      · exact subject rfl run
      split at run
      · next holds => exact (Leads.success value holds).arises (h.statement n run)
      · cases run
    | some failure =>
      simp only [Run.statement] at run
      rcases Exec.bind_stops run with run | ⟨v, u, value, run⟩
      · exact subject rfl run
      split at run
      · next holds => exact (Leads.success value holds).arises (h.statement n run)
      · next fails =>
        exact (Leads.failure value (by simpa using fails)).arises (h.statement n run)
  | whileLoop x body =>
    simp only [Run.statement] at run
    exact Leads.whileLoop.arises (h.whileLoop n run)
  | returnFrom line value =>
    cases value with
    | none =>
      simp only [Run.statement] at run
      cases run
    | some x =>
      simp only [Run.statement] at run
      rcases Exec.bind_stops run with run | ⟨v, u, value, run⟩
      · exact subject rfl run
      · cases run
  | stringLoop name x body =>
    simp only [Run.statement] at run
    rcases Exec.bind_stops run with run | ⟨v, u, value, run⟩
    · exact subject rfl run
    · cases v with
      | string text => exact (Leads.stringLoop value).arises (h.characters n run)
      | _ =>
        cases run
        exact (Raises.iterable value (by simp)).arises

lemma statements_succ {ss : List Statement}
    (run : Run.statements (fuel + 1) scope ss s = .error (.error e) t) :
    Arises ⟨.statements scope ss, n, s⟩ e := by
  cases ss with
  | nil =>
    rw [Run.statements] at run
    cases run
  | cons st ss =>
    simp only [Run.statements] at run
    rcases Exec.bind_stops run with run | ⟨completion, u, first, run⟩
    · exact Leads.first.arises (h.statement n run)
    · cases completion with
      | normal => exact (Leads.others first).arises (h.statements n run)
      | returned v => cases run

lemma whileLoop_succ {c : Expression} {st : Statement}
    (run : Run.whileLoop (fuel + 1) scope c st s = .error (.error e) t) :
    Arises ⟨.whileLoop scope c st, n, s⟩ e := by
  simp only [Run.whileLoop] at run
  rcases Exec.bind_stops run with run | ⟨v, u, value, run⟩
  · exact Leads.condition.arises (h.node n run)
  split at run
  · next holds =>
    rcases Exec.bind_stops run with run | ⟨completion, u', round, run⟩
    · exact (Leads.round value holds).arises (h.statement n run)
    · cases completion with
      | normal => exact (Leads.again value holds round).arises (h.whileLoop n run)
      | returned v => cases run
  · cases run

lemma characters_succ {name : String} {st : Statement} {text : List Char}
    (run : Run.characters (fuel + 1) scope name st text s = .error (.error e) t) :
    Arises ⟨.characters scope name st text, n, s⟩ e := by
  cases text with
  | nil =>
    rw [Run.characters] at run
    cases run
  | cons c text =>
    simp only [Run.characters] at run
    rcases Exec.bind_stops run with run | ⟨_, u, bound, run⟩
    · cases run
    rcases Exec.bind_stops run with run | ⟨completion, u', round, run⟩
    · exact (Leads.character bound).arises (h.statement n run)
    · cases completion with
      | normal => exact (Leads.next bound round).arises (h.characters n run)
      | returned v => cases run

lemma succ : Traced (fuel + 1) where
  node _ run := h.node_succ run
  operands _ run := h.operands_succ run
  call _ run := h.call_succ run
  statement _ run := h.statement_succ run
  statements _ run := h.statements_succ run
  whileLoop _ run := h.whileLoop_succ run
  characters _ run := h.characters_succ run

end Traced

lemma traced : ∀ fuel, Traced fuel
  | 0 => .zero
  | fuel + 1 => (traced fuel).succ

end Run

end Lox
