import Lox.Proofs.Derivation.Program
import Lox.Proofs.Evaluation.Steps

/-!
A run over nodes follows the walk through the trees that the nodes are unfolded to.
-/

namespace Lox

open Exec

namespace Walk

variable {Body α β : Type}

/-- A run that yields how it ends, as a walk that a `return` cuts short. -/
def raised (x : ExecOf Body Completion) : Walk Body Unit := fun m =>
  match x m with
  | .ok .normal n => .ok () n
  | .ok (.returned v) n => .error (.returned v) n
  | .error stop n => .error (.stopped stop) n

lemma lift_bind (x : ExecOf Body α) (f : α → ExecOf Body β) :
    lift (x >>= f) = (do let a ← lift x; lift (f a)) := by
  funext m
  change lift (EStateM.bind x f) m = EStateM.bind (lift x) (fun a => lift (f a)) m
  cases h : x m <;> simp only [lift, EStateM.bind, h]

lemma raised_bind (x : ExecOf Body α) (f : α → ExecOf Body Completion) :
    raised (x >>= f) = (do let a ← lift x; raised (f a)) := by
  funext m
  change raised (EStateM.bind x f) m = EStateM.bind (lift x) (fun a => raised (f a)) m
  cases h : x m <;> simp only [lift, raised, EStateM.bind, h]

/-- What comes after a run happens only if the run does not return. -/
lemma raised_then (x : ExecOf Body Completion) {f : Completion → ExecOf Body Completion}
    (hf : ∀ v, f (.returned v) = pure (.returned v)) :
    raised (x >>= f) = (do raised x; raised (f .normal)) := by
  funext m
  change raised (EStateM.bind x f) m = EStateM.bind (raised x) (fun _ => raised (f .normal)) m
  rcases h : x m with ⟨_ | v, n⟩ | ⟨stop, n⟩
  · simp only [raised, EStateM.bind, h]
  · simp only [raised, EStateM.bind, h, hf]
    rfl
  · simp only [raised, EStateM.bind, h]

lemma spent_lift {x : ExecOf Body α} (h : x = throw .outOfFuel) (m : Machine Body) :
    Spent (lift x m) :=
  ⟨m, by rw [h]; rfl⟩

lemma spent_raised {x : ExecOf Body Completion} (h : x = throw .outOfFuel) (m : Machine Body) :
    Spent (raised x m) :=
  ⟨m, by rw [h]; rfl⟩

namespace Follows

variable {fuel : Nat} {s : State} {m : Machine (List Phrase)}

lemma lowered {run : Nat → Walk (List Statement) α} {walk : Walk (List Phrase) α}
    (hz : Spent (run 0 s)) (h : Follows fuel (fun k => run (k + 1)) walk s m) :
    Follows fuel run walk s m :=
  (h.later _ hz fun _ => rfl).mono (Nat.le_succ fuel)

lemma step {x : ExecOf (List Statement) α} {y : ExecOf (List Phrase) α} (h : Alike x y)
    (same : s.Unfolds m) : Follows fuel (fun _ => lift x) (lift y) s m := by
  refine .constant ?_
  rcases (h s m same).split with ⟨a, t, n, hx, hy, unfolds⟩ | ⟨e, t, n, hx, hy, unfolds⟩
  · simp only [lift, hx, hy]
    exact .ok a unfolds
  · simp only [lift, hx, hy]
    exact .error _ unfolds

lemma lift {x : Nat → Exec α} {f : α → Nat → Exec β} {X : Walk (List Phrase) α}
    {Y : α → Walk (List Phrase) β} (h : Follows fuel (fun k => lift (x k)) X s m)
    (hf : ∀ a t n, State.Unfolds t n → Follows fuel (fun k => Walk.lift (f a k)) (Y a) t n) :
    Follows fuel (fun k => Walk.lift (x k >>= fun a => f a k)) (X >>= Y) s m := by
  simp only [lift_bind]
  exact h.bind hf

lemma raised {x : Nat → Exec α} {f : α → Nat → Exec Completion} {X : Walk (List Phrase) α}
    {Y : α → Walk (List Phrase) Unit} (h : Follows fuel (fun k => Walk.lift (x k)) X s m)
    (hf : ∀ a t n, State.Unfolds t n → Follows fuel (fun k => raised (f a k)) (Y a) t n) :
    Follows fuel (fun k => Walk.raised (x k >>= fun a => f a k)) (X >>= Y) s m := by
  simp only [raised_bind]
  exact h.bind hf

lemma andThen {x : Nat → Exec Completion} {f : Nat → Completion → Exec Completion}
    {X Y : Walk (List Phrase) Unit} (h : Follows fuel (fun k => Walk.raised (x k)) X s m)
    (hr : ∀ k v, f k (.returned v) = pure (.returned v))
    (hf : ∀ t n, State.Unfolds t n → Follows fuel (fun k => Walk.raised (f k .normal)) Y t n) :
    Follows fuel (fun k => Walk.raised (x k >>= f k)) (X >>= fun _ => Y) s m := by
  simp only [raised_then _ (hr _)]
  exact h.bind fun _ => hf

end Follows

section

variable {call : Value → List Value → Nat → Walk (List Phrase) Value} {fuel : Nat}

/-- Calls with one fuel follow calls with another. -/
def CallsFollow (fuel : Nat) (call : Value → List Value → Nat → Walk (List Phrase) Value) : Prop :=
  ∀ f vs line s m, State.Unfolds s m →
    Follows fuel (fun k => lift (Run.call k f vs line)) (call f vs line) s m

mutual

lemma term_follows (calls : CallsFollow fuel call) {nodes : Array Node} {scope : Nat} :
    ∀ {t : Term} {i : NodeRef} {s m}, t.LiesAt nodes i → State.Unfolds s m →
    Follows fuel (fun k => lift (Run.node k nodes scope i)) (term call scope t) s m
  | .atom a line, i, s, m, lies, same => by
    simp only [Term.LiesAt] at lies
    refine .lowered (spent_lift (by rw [Run.node]) s) ?_
    simp only [Run.node, lies, term]
    exact .step (Atom.alike_evaluate scope line a) same
  | .group inner, i, s, m, lies, same => by
    simp only [Term.LiesAt] at lies
    obtain ⟨j, -, node, lies⟩ := lies
    refine .lowered (spent_lift (by rw [Run.node]) s) ?_
    simp only [Run.node, node, term]
    exact term_follows calls lies same
  | .unary op rhs line, i, s, m, lies, same => by
    simp only [Term.LiesAt] at lies
    obtain ⟨r, -, node, lies⟩ := lies
    refine .lowered (spent_lift (by rw [Run.node]) s) ?_
    simp only [Run.node, node, term]
    refine (term_follows calls lies same).lift fun v t n same => ?_
    exact .step (alike_ofExcept line _) same
  | .binary op lhs rhs line, i, s, m, lies, same => by
    simp only [Term.LiesAt] at lies
    obtain ⟨l, -, r, -, node, left, right⟩ := lies
    refine .lowered (spent_lift (by rw [Run.node]) s) ?_
    simp only [Run.node, node, term]
    refine (term_follows calls left same).lift fun a t n same => ?_
    refine (term_follows calls right same).lift fun b u o same => ?_
    exact .step (alike_ofExcept line _) same
  | .assign target rhs, i, s, m, lies, same => by
    simp only [Term.LiesAt] at lies
    obtain ⟨r, -, node, lies⟩ := lies
    refine .lowered (spent_lift (by rw [Run.node]) s) ?_
    simp only [Run.node, node, term]
    refine (term_follows calls lies same).lift fun v t n same => ?_
    refine (Follows.step (alike_assign scope _ v _) same).lift fun _ u o same => ?_
    exact .constant (.ok v same)
  | .logical op lhs rhs line, i, s, m, lies, same => by
    simp only [Term.LiesAt] at lies
    obtain ⟨l, -, r, -, node, left, right⟩ := lies
    refine .lowered (spent_lift (by rw [Run.node]) s) ?_
    simp only [Run.node, node, term]
    refine (term_follows calls left same).lift fun v t n same => ?_
    split
    · exact .constant (.ok v same)
    · exact term_follows calls right same
  | .call callee arguments line, i, s, m, lies, same => by
    simp only [Term.LiesAt] at lies
    obtain ⟨f, -, refs, -, node, lies, all⟩ := lies
    refine .lowered (spent_lift (by rw [Run.node]) s) ?_
    simp only [Run.node, node, term]
    refine (term_follows calls lies same).lift fun v t n same => ?_
    refine (terms_follow calls all same).lift fun vs u o same => ?_
    exact calls v vs line u o same
  | .read line, i, s, m, lies, same => by
    simp only [Term.LiesAt] at lies
    refine .lowered (spent_lift (by rw [Run.node]) s) ?_
    simp only [Run.node, lies, term]
    exact .step alike_read same
  | .rand line, i, s, m, lies, same => by
    simp only [Term.LiesAt] at lies
    refine .lowered (spent_lift (by rw [Run.node]) s) ?_
    simp only [Run.node, lies, term]
    exact .step alike_rand same
  | .floor argument line, i, s, m, lies, same => by
    simp only [Term.LiesAt] at lies
    obtain ⟨a, -, node, lies⟩ := lies
    refine .lowered (spent_lift (by rw [Run.node]) s) ?_
    simp only [Run.node, node, term]
    refine (term_follows calls lies same).lift fun v t n same => ?_
    exact .step (Run.alike_native _ _ line) same
  | .substring subject start stop line, i, s, m, lies, same => by
    simp only [Term.LiesAt] at lies
    obtain ⟨j, -, a, -, b, -, node, first, second, third⟩ := lies
    refine .lowered (spent_lift (by rw [Run.node]) s) ?_
    simp only [Run.node, node, term]
    refine (term_follows calls first same).lift fun v t n same => ?_
    refine (term_follows calls second same).lift fun x u o same => ?_
    refine (term_follows calls third same).lift fun y w q same => ?_
    exact .step (Run.alike_native _ _ line) same
  | .value v line, i, s, m, lies, same => by
    simp only [Term.LiesAt] at lies
    refine .lowered (spent_lift (by rw [Run.node]) s) ?_
    simp only [Run.node, lies, term]
    exact .constant (.ok v same)

lemma terms_follow (calls : CallsFollow fuel call) {nodes : Array Node} {scope : Nat} :
    ∀ {ts : List Term} {refs : List NodeRef} {s m}, Term.AllLieAt nodes ts refs →
    State.Unfolds s m →
    Follows fuel (fun k => lift (Run.operands k nodes scope refs)) (terms call scope ts) s m
  | [], refs, s, m, lies, same => by
    simp only [Term.AllLieAt] at lies
    subst lies
    simp only [Run.operands, terms]
    exact .constant (.ok [] same)
  | t :: ts, refs, s, m, lies, same => by
    simp only [Term.AllLieAt] at lies
    obtain ⟨r, rs, rfl, first, others⟩ := lies
    refine .lowered (spent_lift (by rw [Run.operands]) s) ?_
    simp only [Run.operands, terms]
    refine (term_follows calls first same).lift fun v u o same => ?_
    refine (terms_follow calls others same).lift fun vs w q same => ?_
    exact .constant (.ok (v :: vs) same)

end

lemma expression_follows (calls : CallsFollow fuel call) {scope : Nat} {e : Expression} {t : Term}
    (denotes : e.Denotes t) {s : State} {m : Machine (List Phrase)} (same : s.Unfolds m) :
    Follows fuel (fun k => lift (Run.node k e.nodes scope e.root)) (term call scope t) s m :=
  term_follows calls denotes same

lemma rounds_follow {scope : Nat} {condition : Expression} {body : Statement}
    {value : Walk (List Phrase) Value} {round : Walk (List Phrase) Unit}
    (hv : ∀ s m, State.Unfolds s m →
      Follows fuel (fun k => lift (Run.node k condition.nodes scope condition.root)) value s m)
    (hr : ∀ s m, State.Unfolds s m →
      Follows fuel (fun k => raised (Run.statement k scope body)) round s m)
    {less : Nat} (hl : less ≤ fuel) {s : State} {m : Machine (List Phrase)} (same : s.Unfolds m) :
    Follows less (fun k => raised (Run.whileLoop k scope condition body))
      (rounds less value round) s m := by
  induction less generalizing s m with
  | zero => exact .start (spent_raised (by rw [Run.whileLoop]) s) ⟨m, rfl⟩
  | succ less ih =>
    refine Follows.later (fun k => raised (Run.whileLoop (k + 1) scope condition body)) ?_
      (spent_raised (by rw [Run.whileLoop]) s) fun _ => rfl
    simp only [Run.whileLoop, rounds]
    have hl' : less ≤ fuel := Nat.le_of_succ_le hl
    refine ((hv s m same).mono hl').raised fun v t n same => ?_
    split
    · refine ((hr t n same).mono hl').andThen (fun _ _ => rfl) fun u o same => ?_
      exact ih hl' same
    · exact .constant (.ok () same)

lemma characters_follow {scope : Nat} {name : String} {body : Statement}
    {round : Walk (List Phrase) Unit}
    (hr : ∀ s m, State.Unfolds s m →
      Follows fuel (fun k => raised (Run.statement k scope body)) round s m)
    (text : List Char) {s : State} {m : Machine (List Phrase)} (same : s.Unfolds m) :
    Follows fuel (fun k => raised (Run.characters k scope name body text))
      (characters scope name round text) s m := by
  induction text generalizing s m with
  | nil =>
    simp only [Run.characters, characters]
    exact .constant (.ok () same)
  | cons c text ih =>
    refine .lowered (spent_raised (by rw [Run.characters]) s) ?_
    simp only [Run.characters, characters]
    refine (Follows.step (alike_declare scope name _) same).raised fun _ t n same => ?_
    exact (hr t n same).andThen (fun _ _ => rfl) fun u o same => ih same

mutual

lemma phrase_follows (calls : CallsFollow fuel call) : ∀ {st : Statement} {p : Phrase}
    {scope : Nat} {s m}, st.Denotes p → State.Unfolds s m →
    Follows fuel (fun k => raised (Run.statement k scope st)) (phrase call fuel scope p) s m
  | .declareVar name none, p, scope, s, m, denotes, same => by
    obtain ⟨_, rfl, rfl⟩ := denotes
    refine .lowered (spent_raised (by rw [Run.statement]) s) ?_
    simp only [Run.statement, phrase]
    refine (Follows.step (alike_declare scope name.name .nil) same).raised fun _ t n same => ?_
    exact .constant (.ok () same)
  | .declareVar name (some e), p, scope, s, m, denotes, same => by
    obtain ⟨_, ⟨t, denotes, rfl⟩, rfl⟩ := denotes
    refine .lowered (spent_raised (by rw [Run.statement]) s) ?_
    simp only [Run.statement, phrase]
    refine (expression_follows calls denotes same).raised fun v t n same => ?_
    refine (Follows.step (alike_declare scope name.name v) same).raised fun _ t n same => ?_
    exact .constant (.ok () same)
  | .declareFun name parameters body, p, scope, s, m, denotes, same => by
    obtain ⟨ps, denotes, rfl⟩ := denotes
    refine .lowered (spent_raised (by rw [Run.statement]) s) ?_
    simp only [Run.statement, phrase]
    refine (Follows.step (alike_makeFunction ⟨rfl, rfl, denotes⟩ scope) same).raised
      fun f t n same => ?_
    refine (Follows.step (alike_declare scope name.name f) same).raised fun _ t n same => ?_
    exact .constant (.ok () same)
  | .expression e, p, scope, s, m, denotes, same => by
    obtain ⟨t, denotes, rfl⟩ := denotes
    refine .lowered (spent_raised (by rw [Run.statement]) s) ?_
    simp only [Run.statement, phrase]
    refine (expression_follows calls denotes same).raised fun v t n same => ?_
    exact .constant (.ok () same)
  | .print e, p, scope, s, m, denotes, same => by
    obtain ⟨t, denotes, rfl⟩ := denotes
    refine .lowered (spent_raised (by rw [Run.statement]) s) ?_
    simp only [Run.statement, phrase]
    refine (expression_follows calls denotes same).raised fun v t n same => ?_
    refine (Follows.step (alike_print v.text) same).raised fun _ t n same => ?_
    exact .constant (.ok () same)
  | .block body, p, scope, s, m, denotes, same => by
    obtain ⟨ps, denotes, rfl⟩ := denotes
    refine .lowered (spent_raised (by rw [Run.statement]) s) ?_
    simp only [Run.statement, phrase]
    refine (Follows.step (alike_openScope scope []) same).raised fun inner t n same => ?_
    exact phrases_follow calls denotes same
  | .branch condition success none, p, scope, s, m, denotes, same => by
    obtain ⟨t, q, _, condition, success, rfl, rfl⟩ := denotes
    refine .lowered (spent_raised (by rw [Run.statement]) s) ?_
    simp only [Run.statement, phrase, maybePhrase]
    refine (expression_follows calls condition same).raised fun v t n same => ?_
    split
    · exact phrase_follows calls success same
    · exact .constant (.ok () same)
  | .branch condition success (some failure), p, scope, s, m, denotes, same => by
    obtain ⟨t, q, _, condition, success, ⟨r, failure, rfl⟩, rfl⟩ := denotes
    refine .lowered (spent_raised (by rw [Run.statement]) s) ?_
    simp only [Run.statement, phrase, maybePhrase]
    refine (expression_follows calls condition same).raised fun v t n same => ?_
    split
    · exact phrase_follows calls success same
    · exact phrase_follows calls failure same
  | .whileLoop condition body, p, scope, s, m, denotes, same => by
    obtain ⟨t, q, condition, body, rfl⟩ := denotes
    refine .lowered (spent_raised (by rw [Run.statement]) s) ?_
    simp only [Run.statement, phrase]
    exact rounds_follow (fun s m => expression_follows calls condition)
      (fun s m => phrase_follows calls body) (Nat.le_refl fuel) same
  | .returnFrom line none, p, scope, s, m, denotes, same => by
    obtain ⟨_, rfl, rfl⟩ := denotes
    refine .lowered (spent_raised (by rw [Run.statement]) s) ?_
    simp only [Run.statement, phrase]
    exact .constant (.error _ same)
  | .returnFrom line (some e), p, scope, s, m, denotes, same => by
    obtain ⟨_, ⟨t, denotes, rfl⟩, rfl⟩ := denotes
    refine .lowered (spent_raised (by rw [Run.statement]) s) ?_
    simp only [Run.statement, phrase]
    refine (expression_follows calls denotes same).raised fun v t n same => ?_
    exact .constant (.error _ same)
  | .stringLoop name iterable body, p, scope, s, m, denotes, same => by
    obtain ⟨t, q, iterable, body, rfl⟩ := denotes
    refine .lowered (spent_raised (by rw [Run.statement]) s) ?_
    simp only [Run.statement, phrase]
    refine (expression_follows calls iterable same).raised fun v t n same => ?_
    cases v with
    | string text =>
      exact characters_follow (fun s m => phrase_follows calls body) text.toList same
    | _ => exact .constant (.error _ same)

lemma phrases_follow (calls : CallsFollow fuel call) : ∀ {ss : List Statement} {ps : List Phrase}
    {scope : Nat} {s m}, Statement.AllDenote ss ps → State.Unfolds s m →
    Follows fuel (fun k => raised (Run.statements k scope ss)) (phrases call fuel scope ps) s m
  | [], ps, scope, s, m, denote, same => by
    simp only [Statement.AllDenote] at denote
    subst denote
    simp only [Run.statements, phrases]
    exact .constant (.ok () same)
  | st :: ss, ps, scope, s, m, denote, same => by
    simp only [Statement.AllDenote] at denote
    obtain ⟨q, qs, denotes, others, rfl⟩ := denote
    refine .lowered (spent_raised (by rw [Run.statements]) s) ?_
    simp only [Run.statements, phrases]
    refine (phrase_follows calls denotes same).andThen (fun _ _ => rfl) fun t n same => ?_
    exact phrases_follow calls others same

end

end

section

variable {fuel : Nat} {s : State} {m : Machine (List Phrase)}

lemma called_corresponds {x : Walk (List Statement) Unit} {y : Walk (List Phrase) Unit}
    (h : Corresponds (x { s with calls := s.calls + 1 }) (y { m with calls := m.calls + 1 })) :
    Corresponds (called x s) (called y m) := by
  rcases h.split with ⟨_, t, n, hx, hy, same⟩ | ⟨_ | stop, t, n, hx, hy, same⟩ <;>
    simp only [called, hx, hy]
  · exact .ok Value.nil (same.withCalls (· - 1))
  · exact .ok _ (same.withCalls (· - 1))
  · exact .error _ (same.withCalls (· - 1))

lemma Spent.called {x : Walk Body Unit} {m : Machine Body}
    (h : Spent (x { m with calls := m.calls + 1 })) : Spent (called x m) := by
  obtain ⟨n, h⟩ := h
  exact ⟨{ n with calls := n.calls - 1 }, by simp only [Walk.called, h]⟩

lemma Follows.called {run : Nat → Walk (List Statement) Unit} {walk : Walk (List Phrase) Unit}
    (h : Follows fuel run walk { s with calls := s.calls + 1 } { m with calls := m.calls + 1 }) :
    Follows fuel (fun k => called (run k)) (called walk) s m := by
  constructor
  · intro k hk
    rcases h.within k hk with spent | same
    · exact .inl spent.called
    · exact .inr (called_corresponds same)
  · rcases h.beyond with spent | ⟨r, least, settled, same⟩
    · exact .inl spent.called
    · refine .inr ⟨Walk.called (fun _ => r) s, least, fun k hk => ?_, ?_⟩
      · simp only [Walk.called, settled k hk]
      · exact called_corresponds (x := fun _ => r) same

/-- The state is the same for what is done next. -/
lemma Follows.get {α : Type} {f : State → Nat → Exec α}
    {g : Machine (List Phrase) → Walk (List Phrase) α}
    (h : Follows fuel (fun k => Walk.lift (f s k)) (g m) s m) :
    Follows fuel (fun k => Walk.lift (get >>= fun s => f s k)) (get >>= g) s m :=
  ⟨h.within, h.beyond⟩

lemma Spent.ended {x : Walk Body Unit} {m : Machine Body} (h : Spent (x m)) :
    Exhausted (ended x m) := by
  obtain ⟨n, h⟩ := h
  exact ⟨n, by simp only [Walk.ended, h]⟩

end

end Walk

open Walk

end Lox
