import Lox.Proofs.Evaluation.Follows

/-!
Fuel only bounds how far a run comes. A run whose fuel does not give out ends with all greater fuel
as it does with its own.
-/

namespace Lox

variable {α β : Type} {s t : State}

namespace Exec

/-- The second step ends as the first one does, unless the fuel of the first one gives out. -/
def Lasts (x y : Exec α) : Prop :=
  ∀ s, Exhausted (x s) ∨ y s = x s

namespace Lasts

variable {x y : Exec α}

lemma refl (x : Exec α) : Lasts x x :=
  fun _ => .inr rfl

lemma of_throw (y : Exec α) : Lasts (throw .outOfFuel) y :=
  fun s => .inl ⟨s, rfl⟩

lemma bind {f g : α → Exec β} (h : Lasts x y) (hf : ∀ a, Lasts (f a) (g a)) :
    Lasts (x >>= f) (y >>= g) := by
  intro s
  change Exhausted (EStateM.bind x f s) ∨ EStateM.bind y g s = EStateM.bind x f s
  rw [EStateM.bind, EStateM.bind]
  rcases h s with ⟨t, spent⟩ | same
  · rw [spent]
    exact .inl ⟨t, rfl⟩
  · rw [same]
    cases x s with
    | ok a t => exact hf a t
    | error e t => exact .inr rfl

/-- What follows a step that does not use fuel. -/
lemma after (x : Exec α) {f g : α → Exec β} (hf : ∀ a, Lasts (f a) (g a)) :
    Lasts (x >>= f) (x >>= g) :=
  (Lasts.refl x).bind hf

lemma nested (h : Lasts x y) : Lasts (Exec.nested x) (Exec.nested y) := by
  intro s
  simp only [Exec.nested]
  rcases h { s with calls := s.calls + 1 } with ⟨t, spent⟩ | same
  · rw [spent]
    exact .inl ⟨_, rfl⟩
  · rw [same]
    exact .inr rfl

end Lasts

end Exec

namespace Run

open Exec

/-- One more unit of fuel changes no run that ends. -/
structure Lasting (fuel : Nat) : Prop where
  node (nodes : Array Node) (scope : Nat) (i : NodeRef) :
    Lasts (node fuel nodes scope i) (node (fuel + 1) nodes scope i)
  operands (nodes : Array Node) (scope : Nat) (refs : List NodeRef) :
    Lasts (operands fuel nodes scope refs) (operands (fuel + 1) nodes scope refs)
  call (f : Value) (vs : List Value) (line : Nat) :
    Lasts (call fuel f vs line) (call (fuel + 1) f vs line)
  statement (scope : Nat) (st : Statement) :
    Lasts (statement fuel scope st) (statement (fuel + 1) scope st)
  statements (scope : Nat) (ss : List Statement) :
    Lasts (statements fuel scope ss) (statements (fuel + 1) scope ss)
  whileLoop (scope : Nat) (e : Expression) (st : Statement) :
    Lasts (whileLoop fuel scope e st) (whileLoop (fuel + 1) scope e st)
  characters (scope : Nat) (name : String) (st : Statement) (text : List Char) :
    Lasts (characters fuel scope name st text) (characters (fuel + 1) scope name st text)

namespace Lasting

lemma zero : Lasting 0 where
  node nodes scope i := by
    rw [Run.node]
    exact .of_throw _
  operands nodes scope refs := by
    cases refs with
    | nil =>
      rw [Run.operands, Run.operands]
      exact .refl _
    | cons ref refs =>
      rw [Run.operands]
      exact .of_throw _
  call f vs line := by
    rw [Run.call]
    exact .of_throw _
  statement scope st := by
    rw [Run.statement]
    exact .of_throw _
  statements scope ss := by
    cases ss with
    | nil =>
      rw [Run.statements, Run.statements]
      exact .refl _
    | cons st ss =>
      rw [Run.statements]
      exact .of_throw _
  whileLoop scope e st := by
    rw [Run.whileLoop]
    exact .of_throw _
  characters scope name st text := by
    cases text with
    | nil =>
      rw [Run.characters, Run.characters]
      exact .refl _
    | cons c text =>
      rw [Run.characters]
      exact .of_throw _

variable {fuel : Nat} (h : Lasting fuel)
include h

lemma node_succ (nodes : Array Node) (scope : Nat) (i : NodeRef) :
    Lasts (Run.node (fuel + 1) nodes scope i) (Run.node (fuel + 2) nodes scope i) := by
  cases found : nodes[i]? with
  | none =>
    simp only [Run.node, found]
    exact .refl _
  | some node =>
    have here (j : NodeRef) := h.node nodes scope j
    rw [Run.node, Run.node, found]
    cases node with
    | group inner => exact here inner
    | unary op rhs line => exact (here rhs).bind fun v => .refl _
    | binary op lhs rhs line => exact (here lhs).bind fun v => (here rhs).bind fun w => .refl _
    | assign target rhs => exact (here rhs).bind fun v => .refl _
    | logical op lhs rhs line =>
      refine (here lhs).bind fun v => ?_
      split
      · exact .refl _
      · exact here rhs
    | call callee arguments line =>
      exact (here callee).bind fun f => (h.operands nodes scope arguments).bind fun vs =>
        h.call f vs line
    | floor argument line => exact (here argument).bind fun v => .refl _
    | substring subject start stop line =>
      exact (here subject).bind fun v => (here start).bind fun a => (here stop).bind fun b =>
        .refl _
    | atom | read | rand | value => exact .refl _

lemma operands_succ (nodes : Array Node) (scope : Nat) (refs : List NodeRef) :
    Lasts (Run.operands (fuel + 1) nodes scope refs)
      (Run.operands (fuel + 2) nodes scope refs) := by
  cases refs with
  | nil =>
    rw [Run.operands, Run.operands]
    exact .refl _
  | cons ref refs =>
    rw [Run.operands, Run.operands]
    exact (h.node nodes scope ref).bind fun v => (h.operands nodes scope refs).bind fun vs =>
      .refl _

lemma call_succ (f : Value) (vs : List Value) (line : Nat) :
    Lasts (Run.call (fuel + 1) f vs line) (Run.call (fuel + 2) f vs line) := by
  cases f with
  | function f =>
    rw [Run.call, Run.call]
    refine .after _ fun s => ?_
    cases s.codes[f.number]? with
    | none => exact .refl _
    | some code =>
      exact .after _ fun scope => (h.statements scope code.body).nested.bind fun _ => .refl _
  | _ =>
    simp only [Run.call]
    exact .refl _

lemma statement_succ (scope : Nat) (st : Statement) :
    Lasts (Run.statement (fuel + 1) scope st) (Run.statement (fuel + 2) scope st) := by
  have subject (e : Expression) := h.node e.nodes scope e.root
  cases st with
  | declareVar name initial =>
    cases initial with
    | none =>
      rw [Run.statement, Run.statement]
      exact .refl _
    | some e =>
      rw [Run.statement, Run.statement]
      exact (subject e).bind fun v => .refl _
  | declareFun name parameters body =>
    rw [Run.statement, Run.statement]
    exact .refl _
  | expression e =>
    rw [Run.statement, Run.statement]
    exact (subject e).bind fun v => .refl _
  | print e =>
    rw [Run.statement, Run.statement]
    exact (subject e).bind fun v => .refl _
  | block body =>
    rw [Run.statement, Run.statement]
    exact .after _ fun inner => h.statements inner body
  | branch e success failure =>
    cases failure with
    | none =>
      simp only [Run.statement]
      refine (subject e).bind fun v => ?_
      split
      · exact h.statement scope success
      · exact .refl _
    | some failure =>
      simp only [Run.statement]
      refine (subject e).bind fun v => ?_
      split
      · exact h.statement scope success
      · exact h.statement scope failure
  | whileLoop e body =>
    rw [Run.statement, Run.statement]
    exact h.whileLoop scope e body
  | returnFrom line value =>
    cases value with
    | none =>
      rw [Run.statement, Run.statement]
      exact .refl _
    | some e =>
      rw [Run.statement, Run.statement]
      exact (subject e).bind fun v => .refl _
  | stringLoop name e body =>
    rw [Run.statement, Run.statement]
    refine (subject e).bind fun v => ?_
    cases v with
    | string text => exact h.characters scope name.name body text.toList
    | _ => exact .refl _

lemma statements_succ (scope : Nat) (ss : List Statement) :
    Lasts (Run.statements (fuel + 1) scope ss) (Run.statements (fuel + 2) scope ss) := by
  cases ss with
  | nil =>
    rw [Run.statements, Run.statements]
    exact .refl _
  | cons st ss =>
    rw [Run.statements, Run.statements]
    refine (h.statement scope st).bind fun completion => ?_
    cases completion with
    | normal => exact h.statements scope ss
    | returned v => exact .refl _

lemma whileLoop_succ (scope : Nat) (e : Expression) (st : Statement) :
    Lasts (Run.whileLoop (fuel + 1) scope e st) (Run.whileLoop (fuel + 2) scope e st) := by
  rw [Run.whileLoop, Run.whileLoop]
  refine (h.node e.nodes scope e.root).bind fun v => ?_
  split
  · refine (h.statement scope st).bind fun completion => ?_
    cases completion with
    | normal => exact h.whileLoop scope e st
    | returned v => exact .refl _
  · exact .refl _

lemma characters_succ (scope : Nat) (name : String) (st : Statement) (text : List Char) :
    Lasts (Run.characters (fuel + 1) scope name st text)
      (Run.characters (fuel + 2) scope name st text) := by
  cases text with
  | nil =>
    rw [Run.characters, Run.characters]
    exact .refl _
  | cons c text =>
    rw [Run.characters, Run.characters]
    refine .after _ fun _ => (h.statement scope st).bind fun completion => ?_
    cases completion with
    | normal => exact h.characters scope name st text
    | returned v => exact .refl _

lemma succ : Lasting (fuel + 1) where
  node := h.node_succ
  operands := h.operands_succ
  call := h.call_succ
  statement := h.statement_succ
  statements := h.statements_succ
  whileLoop := h.whileLoop_succ
  characters := h.characters_succ

end Lasting

lemma lasting : ∀ fuel, Lasting fuel
  | 0 => .zero
  | fuel + 1 => (lasting fuel).succ

end Run

/-- With all fuel from some point on, a run ends so. -/
def Settles (x : Nat → Exec α) (s : State) (r : EStateM.Result Stop State α) : Prop :=
  ∃ least, ∀ fuel, least ≤ fuel → x fuel s = r

namespace Settles

variable {x : Nat → Exec α} {r : EStateM.Result Stop State α}

lemma of_lasts (h : ∀ fuel, Exec.Lasts (x fuel) (x (fuel + 1))) {fuel : Nat}
    (ends : ¬Exhausted (x fuel s)) : Settles x s (x fuel s) := by
  refine ⟨fuel, fun more le => ?_⟩
  obtain ⟨k, rfl⟩ := Nat.exists_eq_add_of_le le
  clear le
  induction k with
  | zero => rfl
  | succ k ih =>
    rw [← ih]
    refine (h (fuel + k) s).resolve_left fun spent => ends ?_
    rwa [ih] at spent

/-- A run ends in one way only. -/
lemma unique {r' : EStateM.Result Stop State α} (h : Settles x s r) (h' : Settles x s r') :
    r = r' := by
  obtain ⟨least, ends⟩ := h
  obtain ⟨least', ends'⟩ := h'
  rw [← ends (max least least') (Nat.le_max_left _ _), ends' _ (Nat.le_max_right _ _)]

lemma of_succ (h : Settles (fun fuel => x (fuel + 1)) s r) : Settles x s r := by
  obtain ⟨least, ends⟩ := h
  refine ⟨least + 1, fun fuel le => ?_⟩
  obtain ⟨fuel, rfl⟩ := Nat.exists_eq_add_one_of_ne_zero (by omega : fuel ≠ 0)
  exact ends fuel (Nat.le_of_succ_le_succ le)

lemma const {y : Exec α} (h : y s = r) : Settles (fun _ => y) s r :=
  ⟨0, fun _ _ => h⟩

lemma bind_ok {a : α} {f : Nat → α → Exec β} {r' : EStateM.Result Stop State β}
    (h : Settles x s (.ok a t)) (hf : Settles (fun fuel => f fuel a) t r') :
    Settles (fun fuel => x fuel >>= f fuel) s r' := by
  obtain ⟨least, ends⟩ := h
  obtain ⟨least', ends'⟩ := hf
  refine ⟨max least least', fun fuel le => ?_⟩
  change EStateM.bind (x fuel) (f fuel) s = r'
  rw [EStateM.bind, ends fuel (Nat.le_trans (Nat.le_max_left _ _) le)]
  exact ends' fuel (Nat.le_trans (Nat.le_max_right _ _) le)

lemma bind_error {e : Stop} {f : Nat → α → Exec β} (h : Settles x s (.error e t)) :
    Settles (fun fuel => x fuel >>= f fuel) s (.error e t) := by
  obtain ⟨least, ends⟩ := h
  refine ⟨least, fun fuel le => ?_⟩
  change EStateM.bind (x fuel) (f fuel) s = _
  rw [EStateM.bind, ends fuel le]

end Settles

section

variable {e : RuntimeError} {nodes : Array Node} {scope : Nat} {fuel : Nat}

lemma not_exhausted_ok {a : α} : ¬Exhausted (.ok a t : EStateM.Result Stop State α) := by
  rintro ⟨u, same⟩
  cases same

lemma not_exhausted_error : ¬Exhausted (α := α) (.error (.error e) t) := by
  rintro ⟨u, same⟩
  cases same

lemma Settles.of_ok {x : Nat → Exec α} {a : α} (h : ∀ fuel, Exec.Lasts (x fuel) (x (fuel + 1)))
    (run : x fuel s = .ok a t) : Settles x s (.ok a t) := by
  rw [← run]
  exact .of_lasts h (run ▸ not_exhausted_ok)

lemma Settles.of_error {x : Nat → Exec α} (h : ∀ fuel, Exec.Lasts (x fuel) (x (fuel + 1)))
    (run : x fuel s = .error (.error e) t) : Settles x s (.error (.error e) t) := by
  rw [← run]
  exact .of_lasts h (run ▸ not_exhausted_error)

lemma Run.settles_node {ref : NodeRef} {v : Value}
    (run : Run.node fuel nodes scope ref s = .ok v t) :
    Settles (fun fuel => Run.node fuel nodes scope ref) s (.ok v t) :=
  .of_ok (fun fuel => (Run.lasting fuel).node nodes scope ref) run

lemma Run.settles_operands {refs : List NodeRef} {vs : List Value}
    (run : Run.operands fuel nodes scope refs s = .ok vs t) :
    Settles (fun fuel => Run.operands fuel nodes scope refs) s (.ok vs t) :=
  .of_ok (fun fuel => (Run.lasting fuel).operands nodes scope refs) run

lemma Run.settles_statement {st : Statement} {c : Completion}
    (run : Run.statement fuel scope st s = .ok c t) :
    Settles (fun fuel => Run.statement fuel scope st) s (.ok c t) :=
  .of_ok (fun fuel => (Run.lasting fuel).statement scope st) run

lemma Run.operands_nil (nodes : Array Node) (scope fuel : Nat) (s : State) :
    Run.operands fuel nodes scope [] s = .ok [] s := by
  rw [Run.operands]
  rfl

/-- The value of the first of some operands, with the values of the others. -/
lemma Settles.operands_cons {ref : NodeRef} {refs : List NodeRef} {v : Value} {vs : List Value}
    {u : State} (first : Settles (fun fuel => Run.node fuel nodes scope ref) s (.ok v t))
    (others : Settles (fun fuel => Run.operands fuel nodes scope refs) t (.ok vs u)) :
    Settles (fun fuel => Run.operands fuel nodes scope (ref :: refs)) s (.ok (v :: vs) u) := by
  refine .of_succ ?_
  simp only [Run.operands]
  exact first.bind_ok (others.bind_ok (.const rfl))

lemma Settles.operand {ref : NodeRef} {v : Value}
    (h : Settles (fun fuel => Run.node fuel nodes scope ref) s (.ok v t)) :
    Settles (fun fuel => Run.operands fuel nodes scope [ref]) s (.ok [v] t) :=
  h.operands_cons ⟨0, fun fuel _ => Run.operands_nil nodes scope fuel t⟩

lemma Settles.exists_run {x : Nat → Exec α} {r : EStateM.Result Stop State α}
    (h : Settles x s r) : ∃ fuel, x fuel s = r := by
  obtain ⟨least, ends⟩ := h
  exact ⟨least, ends least (Nat.le_refl _)⟩

end

end Lox
