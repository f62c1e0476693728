import Lox.Proofs.Evaluation.Walk

/-!
When a run whose fuel varies follows a walk through a tree: with no more fuel than the walk it gives
out or ends as the walk does, and where the walk does not give out, the run ends as the walk does
with all fuel from some point on.
-/

namespace Lox

variable {ε α β : Type}

/-- The code of a function, and the same code with its expressions unfolded. -/
structure Code.Unfolds (c : Code (List Statement)) (d : Code (List Phrase)) : Prop where
  name : d.name = c.name
  parameters : d.parameters = c.parameters
  body : Statement.AllDenote c.body d.body

/-- A state of a run, and the same state with the bodies of all its functions unfolded. -/
structure State.Unfolds (s : State) (m : Machine (List Phrase)) : Prop where
  codes : List.Forall₂ Code.Unfolds s.codes.toList m.codes.toList
  scopes : m.scopes = s.scopes
  calls : m.calls = s.calls
  rand : m.rand = s.rand
  console : m.console = s.console
  now : m.now = s.now

/-- The same result or the same reason to stop, in the same state but for the bodies of functions.
-/
inductive Corresponds :
    EStateM.Result ε State α → EStateM.Result ε (Machine (List Phrase)) α → Prop
  | ok {s : State} {m : Machine (List Phrase)} (a : α) :
    s.Unfolds m → Corresponds (.ok a s) (.ok a m)
  | error {s : State} {m : Machine (List Phrase)} (e : ε) :
    s.Unfolds m → Corresponds (.error e s) (.error e m)

lemma Corresponds.split {r : EStateM.Result ε State α}
    {r' : EStateM.Result ε (Machine (List Phrase)) α} (h : Corresponds r r') :
    (∃ a s m, r = .ok a s ∧ r' = .ok a m ∧ State.Unfolds s m) ∨
      ∃ e s m, r = .error e s ∧ r' = .error e m ∧ State.Unfolds s m := by
  cases h with
  | ok a unfolds => exact .inl ⟨a, _, _, rfl, rfl, unfolds⟩
  | error e unfolds => exact .inr ⟨e, _, _, rfl, rfl, unfolds⟩

/-- The fuel gave out. -/
def Exhausted {Body : Type} (r : EStateM.Result Stop (Machine Body) α) : Prop :=
  ∃ m, r = .error .outOfFuel m

namespace Walk

/-- The fuel of a walk gave out. -/
def Spent {Body : Type} (r : EStateM.Result Abrupt (Machine Body) α) : Prop :=
  ∃ m, r = .error (.stopped .outOfFuel) m

/-- A run follows a walk that has the given fuel. -/
structure Follows (fuel : Nat) (run : Nat → Walk (List Statement) α) (walk : Walk (List Phrase) α)
    (s : State) (m : Machine (List Phrase)) : Prop where
  within : ∀ k ≤ fuel, Spent (run k s) ∨ Corresponds (run k s) (walk m)
  beyond : Spent (walk m) ∨ ∃ r least, (∀ k, least ≤ k → run k s = r) ∧ Corresponds r (walk m)

section

variable {Body : Type} {m n : Machine Body}

lemma bind_ok {x : Walk Body α} {a : α} (f : α → Walk Body β) (h : x m = .ok a n) :
    (x >>= f) m = f a n := by
  change EStateM.bind x f m = _
  rw [EStateM.bind, h]

lemma bind_error {x : Walk Body α} {e : Abrupt} (f : α → Walk Body β) (h : x m = .error e n) :
    (x >>= f) m = .error e n := by
  change EStateM.bind x f m = _
  rw [EStateM.bind, h]

lemma Spent.bind {x : Walk Body α} (f : α → Walk Body β) (h : Spent (x m)) :
    Spent ((x >>= f) m) := by
  obtain ⟨n, h⟩ := h
  exact ⟨n, bind_error f h⟩

end

namespace Follows

variable {fuel : Nat} {run : Nat → Walk (List Statement) α} {walk : Walk (List Phrase) α}
  {s : State} {m : Machine (List Phrase)}

/-- Less fuel for the walk only bounds the run more. -/
lemma mono (h : Follows fuel run walk s m) {less : Nat} (hl : less ≤ fuel) :
    Follows less run walk s m :=
  ⟨fun k hk => h.within k (Nat.le_trans hk hl), h.beyond⟩

/-- Without fuel both give out. -/
lemma start (hr : Spent (run 0 s)) (hw : Spent (walk m)) : Follows 0 run walk s m := by
  refine ⟨fun k hk => ?_, .inl hw⟩
  obtain rfl := Nat.le_zero.mp hk
  exact .inl hr

/-- A step of the run that uses one unit of fuel and goes on as another run. -/
lemma later (next : Nat → Walk (List Statement) α) (h : Follows fuel next walk s m)
    (hz : Spent (run 0 s)) (hs : ∀ k, run (k + 1) s = next k s) :
    Follows (fuel + 1) run walk s m := by
  constructor
  · intro k hk
    cases k with
    | zero => exact .inl hz
    | succ k =>
      rw [hs]
      exact h.within k (Nat.le_of_succ_le_succ hk)
  · rcases h.beyond with spent | ⟨r, least, settled, same⟩
    · exact .inl spent
    · refine .inr ⟨r, least + 1, fun k hk => ?_, same⟩
      obtain ⟨k, rfl⟩ : ∃ i, k = i + 1 := ⟨k - 1, by omega⟩
      rw [hs]
      exact settled k (Nat.le_of_succ_le_succ hk)

/-- A step that uses no fuel. -/
lemma constant {x : Walk (List Statement) α} (h : Corresponds (x s) (walk m)) :
    Follows fuel (fun _ => x) walk s m :=
  ⟨fun _ _ => .inr h, .inr ⟨x s, 0, fun _ _ => rfl, h⟩⟩

lemma bind {next : α → Nat → Walk (List Statement) β} {onward : α → Walk (List Phrase) β}
    (h : Follows fuel run walk s m)
    (hn : ∀ a t n, t.Unfolds n → Follows fuel (next a) (onward a) t n) :
    Follows fuel (fun k => run k >>= fun a => next a k) (walk >>= onward) s m := by
  constructor
  · intro k hk
    rcases h.within k hk with spent | same
    · exact .inl (spent.bind _)
    · rcases same.split with ⟨a, t, n, hr, hw, unfolds⟩ | ⟨e, t, n, hr, hw, unfolds⟩
      · rw [bind_ok _ hr, bind_ok _ hw]
        exact (hn a t n unfolds).within k hk
      · rw [bind_error _ hr, bind_error _ hw]
        exact .inr (.error e unfolds)
  · rcases h.beyond with spent | ⟨r, least, settled, same⟩
    · exact .inl (spent.bind _)
    · rcases same.split with ⟨a, t, n, rfl, hw, unfolds⟩ | ⟨e, t, n, rfl, hw, unfolds⟩
      · rw [bind_ok _ hw]
        rcases (hn a t n unfolds).beyond with spent | ⟨r', least', settled', same'⟩
        · exact .inl spent
        · refine .inr ⟨r', max least least', fun k hk => ?_, same'⟩
          rw [bind_ok _ (settled k (by omega))]
          exact settled' k (by omega)
      · rw [bind_error _ hw]
        exact .inr ⟨_, least, fun k hk => bind_error _ (settled k hk), .error e unfolds⟩

end Follows

end Walk

end Lox
