import Lox.Proofs.Evaluation.Faults
import Lox.Proofs.Evaluation.Leaving

/-!
What errors lead to. A run that comes to a part that raises an error ends with that error, so a run
whose fuel does not give out ends with an error if and only if it comes to a part that raises it. On
the way out of the part only the count of calls changes.
-/

namespace Lox

variable {α β : Type} {s t w : State} {e : RuntimeError}

/-- With all fuel from some point on, a run ends with an error, in the last state but for the count
of calls. -/
def Fails (x : Nat → Exec α) (s : State) (e : RuntimeError) (last : State) : Prop :=
  ∃ calls, Settles x s (.error (.error e) { last with calls })

namespace Fails

variable {x : Nat → Exec α} {f : Nat → α → Exec β}

lemma bind (h : Fails x s e w) : Fails (fun fuel => x fuel >>= f fuel) s e w := by
  obtain ⟨n, h⟩ := h
  exact ⟨n, h.bind_error⟩

lemma later {a : α} (h : Settles x s (.ok a t)) (hf : Fails (fun fuel => f fuel a) t e w) :
    Fails (fun fuel => x fuel >>= f fuel) s e w := by
  obtain ⟨n, hf⟩ := hf
  exact ⟨n, h.bind_ok hf⟩

lemma of_succ (h : Fails (fun fuel => x (fuel + 1)) s e w) : Fails x s e w := by
  obtain ⟨n, h⟩ := h
  exact ⟨n, h.of_succ⟩

lemma nested (h : Fails x { s with calls := s.calls + 1 } e w) :
    Fails (fun fuel => Exec.nested (x fuel)) s e w := by
  obtain ⟨n, least, ends⟩ := h
  refine ⟨n - 1, least, fun fuel le => ?_⟩
  simp only [Exec.nested, ends fuel le]

end Fails

/-- With all fuel from some point on, a part ends with an error, in the last state but for the count
of calls. -/
def Part.Fails : Part → State → RuntimeError → State → Prop
  | .node nodes scope ref => Lox.Fails fun fuel => Run.node fuel nodes scope ref
  | .call callee arguments line => Lox.Fails fun fuel => Run.call fuel callee arguments line
  | .statement scope st => Lox.Fails fun fuel => Run.statement fuel scope st
  | .statements scope ss => Lox.Fails fun fuel => Run.statements fuel scope ss
  | .whileLoop scope condition body => Lox.Fails fun fuel => Run.whileLoop fuel scope condition body
  | .characters scope name body text =>
    Lox.Fails fun fuel => Run.characters fuel scope name body text

namespace Exec

variable {scope : Nat} {name : String}

lemma lookup_unbound (unbound : s.scopes.get? scope name = none) (line : Nat) :
    lookup scope name line s = .error (.error ⟨.undefined name, line⟩) s := by
  simp only [lookup, unbound]

lemma assign_unbound (v : Value) (unbound : s.scopes.find? scope name = none) (line : Nat) :
    assign scope name v line s = .error (.error ⟨.undefined name, line⟩) s := by
  simp only [assign, unbound]

end Exec

section

variable {nodes : Array Node} {scope : Nat} {ref : NodeRef} {refs : List NodeRef}

lemma Fails.const {x : Exec α} (h : x s = .error (.error e) t) : Fails (fun _ => x) s e t :=
  ⟨t.calls, .const h⟩

lemma Settles.operands_ends {vs : List Value}
    (h : Settles (fun fuel => Run.operands fuel nodes scope (ref :: refs)) s (.ok vs t)) :
    ∃ v u others, vs = v :: others ∧
      Settles (fun fuel => Run.node fuel nodes scope ref) s (.ok v u) ∧
      Settles (fun fuel => Run.operands fuel nodes scope refs) u (.ok others t) := by
  obtain ⟨fuel, run⟩ := h.exists_run
  cases fuel with
  | zero =>
    rw [Run.operands] at run
    cases run
  | succ fuel =>
    simp only [Run.operands] at run
    obtain ⟨v, u, first, run⟩ := Exec.bind_ends run
    obtain ⟨others, w, second, run⟩ := Exec.bind_ends run
    cases run
    exact ⟨v, u, others, rfl, Run.settles_node first, Run.settles_operands second⟩

lemma Settles.operand_ends {vs : List Value}
    (h : Settles (fun fuel => Run.operands fuel nodes scope [ref]) s (.ok vs t)) :
    ∃ v, vs = [v] ∧ Settles (fun fuel => Run.node fuel nodes scope ref) s (.ok v t) := by
  obtain ⟨v, u, others, rfl, value, none⟩ := h.operands_ends
  obtain ⟨fuel, none⟩ := none.exists_run
  cases (Run.operands_nil nodes scope fuel u).symm.trans none
  exact ⟨v, rfl, value⟩

lemma Fails.operands_cons
    (h : Fails (fun fuel => Run.operands fuel nodes scope (ref :: refs)) s e w) :
    Fails (fun fuel => Run.node fuel nodes scope ref) s e w ∨
      ∃ v u, Settles (fun fuel => Run.node fuel nodes scope ref) s (.ok v u) ∧
        Fails (fun fuel => Run.operands fuel nodes scope refs) u e w := by
  obtain ⟨n, h⟩ := h
  obtain ⟨fuel, run⟩ := h.exists_run
  cases fuel with
  | zero =>
    rw [Run.operands] at run
    cases run
  | succ fuel =>
    simp only [Run.operands] at run
    rcases Exec.bind_stops run with run | ⟨v, u, first, run⟩
    · exact .inl ⟨n, .of_error (fun fuel => (Run.lasting fuel).node nodes scope ref) run⟩
    rcases Exec.bind_stops run with run | ⟨_, _, _, run⟩
    · exact .inr ⟨v, u, Run.settles_node first, n,
        .of_error (fun fuel => (Run.lasting fuel).operands nodes scope refs) run⟩
    · cases run

lemma Fails.operands_nil : ¬Fails (fun fuel => Run.operands fuel nodes scope []) s e w := by
  rintro ⟨n, h⟩
  obtain ⟨fuel, run⟩ := h.exists_run
  cases (Run.operands_nil nodes scope fuel s).symm.trans run

lemma Fails.operand (h : Fails (fun fuel => Run.operands fuel nodes scope [ref]) s e w) :
    Fails (fun fuel => Run.node fuel nodes scope ref) s e w := by
  rcases h.operands_cons with h | ⟨v, u, -, h⟩
  · exact h
  · exact absurd h Fails.operands_nil

/-- Operands fail with the first of them that fails. -/
lemma Fails.operands {before : List NodeRef} {next : NodeRef} {others : List NodeRef}
    {vs : List Value}
    (values : Settles (fun fuel => Run.operands fuel nodes scope before) s (.ok vs t))
    (h : Fails (fun fuel => Run.node fuel nodes scope next) t e w) :
    Fails (fun fuel => Run.operands fuel nodes scope (before ++ next :: others)) s e w := by
  induction before generalizing s vs with
  | nil =>
    obtain ⟨fuel, run⟩ := values.exists_run
    rw [Run.operands_nil] at run
    cases run
    refine .of_succ ?_
    simp only [List.nil_append, Run.operands]
    exact h.bind
  | cons first before ih =>
    obtain ⟨v, u, vs, rfl, value, values⟩ := values.operands_ends
    refine .of_succ ?_
    simp only [List.cons_append, Run.operands]
    exact .later value (ih values).bind

/-- A node fails with its operands, if it evaluates all of them. -/
lemma Fails.node {node : Node} (found : nodes[ref]? = some node)
    (whole : ∀ op lhs rhs line, node ≠ .logical op lhs rhs line)
    (h : Fails (fun fuel => Run.operands fuel nodes scope node.operands) s e w) :
    Fails (fun fuel => Run.node fuel nodes scope ref) s e w := by
  refine .of_succ ?_
  simp only [Run.node, found]
  cases node with
  | atom | read | rand | value => exact absurd h Fails.operands_nil
  | group inner => exact h.operand
  | unary op rhs line => exact h.operand.bind
  | binary op lhs rhs line =>
    rcases h.operands_cons with h | ⟨v, u, left, h⟩
    · exact h.bind
    · exact .later left h.operand.bind
  | assign target rhs => exact h.operand.bind
  | logical op lhs rhs line => exact absurd rfl (whole op lhs rhs line)
  | call callee arguments line =>
    rcases h.operands_cons with h | ⟨v, u, value, h⟩
    · exact h.bind
    · exact .later value h.bind
  | floor argument line => exact h.operand.bind
  | substring subject start stop line =>
    rcases h.operands_cons with h | ⟨v, u, first, h⟩
    · exact h.bind
    rcases h.operands_cons with h | ⟨w, u', second, h⟩
    · exact .later first h.bind
    · exact .later first (.later second h.operand.bind)

/-- A node fails with its next operand, if the ones before it leave it to be evaluated. -/
lemma Fails.next_operand {node : Node} {before : List NodeRef} {next : NodeRef}
    {others : List NodeRef} {vs : List Value} (found : nodes[ref]? = some node)
    (split : node.operands = before ++ next :: others)
    (values : Settles (fun fuel => Run.operands fuel nodes scope before) s (.ok vs t))
    (undecided : ∀ op lhs rhs line v, node = .logical op lhs rhs line → vs = [v] →
      op.decidedBy v = false)
    (h : Fails (fun fuel => Run.node fuel nodes scope next) t e w) :
    Fails (fun fuel => Run.node fuel nodes scope ref) s e w := by
  by_cases logical : ∃ op lhs rhs line, node = .logical op lhs rhs line
  · obtain ⟨op, lhs, rhs, line, rfl⟩ := logical
    refine .of_succ ?_
    simp only [Run.node, found]
    match before with
    | [] =>
      cases split
      obtain ⟨fuel, run⟩ := values.exists_run
      cases (Run.operands_nil nodes scope fuel s).symm.trans run
      exact h.bind
    | [left] =>
      cases split
      obtain ⟨v, rfl, value⟩ := values.operand_ends
      refine .later value ?_
      simp only [undecided op _ _ line v rfl rfl, Bool.false_eq_true, if_false]
      exact h
    | left :: right :: before => simp [Node.operands] at split
  · refine Fails.node found (fun op lhs rhs line same => logical ⟨op, lhs, rhs, line, same⟩) ?_
    rw [split]
    exact Fails.operands values h

/-- A statement fails with the expression it begins with. -/
lemma Fails.subject {st : Statement} {x : Expression} (here : st.subject? = some x)
    (h : Fails (fun fuel => Run.node fuel x.nodes scope x.root) s e w) :
    Fails (fun fuel => Run.statement fuel scope st) s e w := by
  refine .of_succ ?_
  cases st with
  | declareVar | returnFrom | expression | print | stringLoop =>
    cases here
    simp only [Run.statement]
    exact h.bind
  | branch x success failure =>
    cases here
    cases failure <;> simp only [Run.statement] <;> exact h.bind
  | whileLoop x body =>
    cases here
    simp only [Run.statement]
    refine .of_succ ?_
    simp only [Run.whileLoop]
    exact h.bind
  | declareFun | block => cases here

end

namespace Moment

lemma Raises.fails {m : Moment} (h : m.Raises e) : ∃ last, m.part.Fails m.state e last := by
  cases h with
  | @name nodes scope ref name line n s found unbound =>
    refine ⟨s, .of_succ ?_⟩
    simp only [Run.node, found]
    exact .const (Exec.lookup_unbound unbound _)
  | @target nodes scope ref target rhs fuel v n s t found run unbound =>
    refine ⟨t, .of_succ ?_⟩
    simp only [Run.node, found]
    exact .later (Run.settles_node run) (Fails.const (Exec.assign_unbound _ unbound _)).bind
  | @unary nodes scope ref op rhs line fuel v fault n s t found run failed =>
    refine ⟨t, .of_succ ?_⟩
    simp only [Run.node, found]
    exact .later (Run.settles_node run) (.const (by rw [failed]; rfl))
  | @binary nodes scope ref op lhs rhs line fuel v w fault n s t found run failed =>
    obtain ⟨v, u, vs, same, left, second⟩ := (Run.settles_operands run).operands_ends
    cases same
    obtain ⟨w, same, right⟩ := second.operand_ends
    cases same
    refine ⟨t, .of_succ ?_⟩
    simp only [Run.node, found]
    exact .later left (.later right (.const (by rw [failed]; rfl)))
  | @floor nodes scope ref argument line fuel v e n s t u found run failed =>
    refine ⟨u, .of_succ ?_⟩
    simp only [Run.node, found]
    exact .later (Run.settles_node run) (.const failed)
  | @substring nodes scope ref subject start stop line fuel vs e n s t u found run failed =>
    obtain ⟨v, s', vs, rfl, first, others⟩ := (Run.settles_operands run).operands_ends
    obtain ⟨a, s'', vs, rfl, second, last⟩ := others.operands_ends
    obtain ⟨b, rfl, third⟩ := last.operand_ends
    refine ⟨u, .of_succ ?_⟩
    simp only [Run.node, found]
    exact .later first (.later second (.later third (.const failed)))
  | @native f vs line e n s t failed =>
    refine ⟨t, .of_succ ?_⟩
    simp only [Run.call]
    exact .const failed
  | @entry f code vs line e n s t found failed =>
    refine ⟨t, .of_succ ?_⟩
    simp only [Run.call]
    refine .later (a := s) (.const rfl) ?_
    simp only [found]
    exact (Fails.const failed).bind
  | @callee v vs line n s function native =>
    refine ⟨s, .of_succ ?_⟩
    cases v with
    | native f => exact absurd rfl (native f)
    | function f => exact absurd rfl (function f)
    | _ =>
      simp only [Run.call]
      exact .const rfl
  | @iterable scope name x body fuel v n s t run string =>
    refine ⟨t, .of_succ ?_⟩
    simp only [Run.statement]
    refine .later (Run.settles_node run) ?_
    cases v with
    | string text => exact absurd rfl (string text)
    | _ => exact .const rfl

/-- The error of a part is one of the part in which it lies. -/
lemma Leads.fails {m m' : Moment} (h : m.Leads m') (fails : m'.part.Fails m'.state e w) :
    m.part.Fails m.state e w := by
  have leads := h
  cases h with
  | operand found split run undecided =>
    exact .next_operand found split (Run.settles_operands run) undecided fails
  | @call nodes scope ref callee arguments line fuel f vs n s t found run =>
    obtain ⟨v, u, vs, same, value, values⟩ := (Run.settles_operands run).operands_ends
    cases same
    refine .of_succ ?_
    simp only [Run.node, found]
    exact .later value (.later values fails)
  | @body f vs line code scope n s t found run =>
    refine .of_succ ?_
    simp only [Run.call]
    refine .later (a := s) (.const rfl) ?_
    simp only [found]
    exact .later (.const run) (Fails.nested fails).bind
  | subject here => exact .subject here fails
  | condition =>
    refine .of_succ ?_
    simp only [Run.whileLoop]
    exact Fails.bind fails
  | _ =>
    obtain ⟨calls, ends⟩ := fails
    exact Exists.intro calls (leads.completes (.stopped _ _) rfl ends)

lemma onward_fails {m m' : Moment} (way : Relation.ReflTransGen Leads m m')
    (fails : m'.part.Fails m'.state e w) : m.part.Fails m.state e w := by
  induction way using Relation.ReflTransGen.head_induction_on with
  | refl => exact fails
  | head leads _ ih => exact leads.fails ih

end Moment

section

variable {x : Nat → Exec α} {fuel : Nat}

lemma Exec.stop?_eq_some {x : Exec α} {stop : Stop} :
    x.stop? s = some stop ↔ ∃ t, x s = .error stop t := by
  unfold Exec.stop?
  cases x s <;> simp

/-- A run that fails ends with its error, unless its fuel gives out. -/
lemma Fails.run_eq (h : ∀ fuel, Exec.Lasts (x fuel) (x (fuel + 1))) (fails : Fails x s e w)
    (ends : (x fuel).stop? s ≠ some .outOfFuel) :
    ∃ calls, x fuel s = .error (.error e) { w with calls } := by
  have alive : ¬Exhausted (x fuel s) := fun spent => ends (Exec.stop?_eq_some.mpr spent)
  obtain ⟨n, settles⟩ := fails
  exact ⟨n, (Settles.of_lasts h alive).unique settles⟩

lemma Fails.ends (h : ∀ fuel, Exec.Lasts (x fuel) (x (fuel + 1))) (fails : Fails x s e w)
    (ends : (x fuel).stop? s ≠ some .outOfFuel) :
    (x fuel).stop? s = some (.error e) ∧ ∃ calls, (x fuel).after s = { w with calls } := by
  obtain ⟨n, run⟩ := fails.run_eq h ends
  exact ⟨Exec.stop?_eq_some.mpr ⟨_, run⟩, n, by rw [Exec.after, run]⟩

end

lemma Part.Fails.ends {part : Part} {fuel : Nat} (fails : part.Fails s e w)
    (ends : part.stop? fuel s ≠ some .outOfFuel) :
    part.stop? fuel s = some (.error e) ∧ ∃ calls, part.after fuel s = { w with calls } := by
  cases part with
  | node nodes scope i =>
    exact Lox.Fails.ends (x := fun k => Run.node k nodes scope i)
      (fun k => (Run.lasting k).node nodes scope i) fails ends
  | call f vs line =>
    exact Lox.Fails.ends (x := fun k => Run.call k f vs line)
      (fun k => (Run.lasting k).call f vs line) fails ends
  | statement scope st =>
    exact Lox.Fails.ends (x := fun k => Run.statement k scope st)
      (fun k => (Run.lasting k).statement scope st) fails ends
  | statements scope ss =>
    exact Lox.Fails.ends (x := fun k => Run.statements k scope ss)
      (fun k => (Run.lasting k).statements scope ss) fails ends
  | whileLoop scope c st =>
    exact Lox.Fails.ends (x := fun k => Run.whileLoop k scope c st)
      (fun k => (Run.lasting k).whileLoop scope c st) fails ends
  | characters scope name st text =>
    exact Lox.Fails.ends (x := fun k => Run.characters k scope name st text)
      (fun k => (Run.lasting k).characters scope name st text) fails ends

namespace Moment

lemma Arises.of_stop? {m : Moment} {fuel : Nat}
    (stops : m.part.stop? fuel m.state = some (.error e)) : m.Arises e := by
  obtain ⟨part, n, s⟩ := m
  have traced := Run.traced fuel
  cases part with
  | node nodes scope i =>
    obtain ⟨t, run⟩ := Exec.stop?_eq_some.mp stops
    exact traced.node n run
  | call f vs line =>
    obtain ⟨t, run⟩ := Exec.stop?_eq_some.mp stops
    exact traced.call n run
  | statement scope st =>
    obtain ⟨t, run⟩ := Exec.stop?_eq_some.mp stops
    exact traced.statement n run
  | statements scope ss =>
    obtain ⟨t, run⟩ := Exec.stop?_eq_some.mp stops
    exact traced.statements n run
  | whileLoop scope c st =>
    obtain ⟨t, run⟩ := Exec.stop?_eq_some.mp stops
    exact traced.whileLoop n run
  | characters scope name st text =>
    obtain ⟨t, run⟩ := Exec.stop?_eq_some.mp stops
    exact traced.characters n run

/-- Where an error arises, the part that raises it ends, and whatever it is a part of ends as it does
but for the count of calls. -/
lemma Arises.ends {m : Moment} (arises : m.Arises e) :
    ∃ m' last, Relation.ReflTransGen Leads m m' ∧ m'.Raises e ∧
      m'.part.Fails m'.state e last ∧ m.part.Fails m.state e last := by
  obtain ⟨m', way, raises⟩ := arises
  obtain ⟨last, fails⟩ := raises.fails
  exact ⟨m', last, way, raises, fails, onward_fails way fails⟩

/-- A part whose fuel does not give out ends with an error if and only if its run comes to a part
that raises it. -/
theorem stop?_eq_error_iff {m : Moment} {fuel : Nat}
    (ends : m.part.stop? fuel m.state ≠ some .outOfFuel) (e : RuntimeError) :
    m.part.stop? fuel m.state = some (.error e) ↔ m.Arises e := by
  refine ⟨.of_stop?, fun arises => ?_⟩
  obtain ⟨m', last, -, -, -, fails⟩ := arises.ends
  exact (fails.ends ends).1

end Moment

end Lox
