import Lox.Proofs.Reading.Composed
import Lox.Proofs.Reading.Unbounded

/-!
Readers do not look at the mistakes that were recorded before them: with other mistakes in front,
they do the same, and record the same behind those.
-/

namespace Lox

open Reading Reader

namespace Reading

/-- The state before which some mistakes were recorded. -/
def following (es : Array SyntaxError) (s : Reading) : Reading :=
  { s with errors := es ++ s.errors }

variable {es : Array SyntaxError} {s : Reading}

@[simp] lemma following_current : (s.following es).current = s.current := rfl

lemma following_note (e : SyntaxError) :
    (s.following es).note e = (s.note e).following es := by
  simp [following, note]

end Reading

namespace Reader

variable {es : Array SyntaxError} {α β : Type}

/-- An outcome behind some mistakes. -/
def Outcome.following (es : Array SyntaxError) :
    EStateM.Result SyntaxError Reading α → EStateM.Result SyntaxError Reading α
  | .ok a t => .ok a (t.following es)
  | .error e t => .error e (t.following es)

/-- Behind some mistakes, the first reader does what the second does without them. -/
def Follows (es : Array SyntaxError) (x y : Reader α) : Prop :=
  ∀ s, x (s.following es) = Outcome.following es (y s)

lemma Follows.bind {x y : Reader α} {f g : α → Reader β} (hx : Follows es x y)
    (hf : ∀ a, Follows es (f a) (g a)) : Follows es (x >>= f) (y >>= g) := by
  intro s
  have first := hx s
  cases run : y s with
  | ok a t =>
    rw [run] at first
    rw [bind_ok first, bind_ok run]
    exact hf a t
  | error e t =>
    rw [run] at first
    rw [bind_error first, bind_error run]
    rfl

lemma Follows.look {f g : Reading → Reader α} (h : ∀ s, Follows es (f s) (g s))
    (same : ∀ s t : Reading, s.nodes = t.nodes → s.functionDepth = t.functionDepth →
      f s = f t ∧ g s = g t) : Follows es (get >>= f) (get >>= g) := by
  intro s
  have known : f (s.following es) = f s := (same (s.following es) s rfl rfl).1
  change f (s.following es) (s.following es) = _
  rw [known]
  exact h s s

lemma Follows.insideFunction {x y : Reader α} (h : Follows es x y) :
    Follows es (insideFunction x) (insideFunction y) := by
  intro s
  have inside := h s.deeper
  cases run : y s.deeper with
  | ok a t =>
    rw [run] at inside
    rw [insideFunction_ok run]
    exact insideFunction_ok (s := s.following es) inside
  | error e t =>
    rw [run] at inside
    rw [insideFunction_error run]
    exact insideFunction_error (s := s.following es) inside

lemma Follows.recovering {x y : Reader α} (h : Follows es x y) :
    Follows es (recovering x) (recovering y) := by
  intro s
  have inside := h s
  cases run : y s with
  | ok a t =>
    rw [run] at inside
    rw [recovering_ok run]
    exact recovering_ok inside
  | error e t =>
    rw [run] at inside
    rw [recovering_error run, recovering_error inside, following_note]
    rfl

/-- No rule of the grammar looks at the mistakes. -/
lemma follows_composes (es : Array SyntaxError) : Composes (Follows es) where
  pure _ _ := rfl
  bind := .bind
  throw _ _ := rfl
  current _ := rfl
  advance _ := rfl
  record e _ := congrArg (EStateM.Result.ok ()) (following_note e)
  push _ _ := rfl
  look := .look
  bare _ := rfl
  take _ _ := rfl
  insideFunction := .insideFunction
  recovering := .recovering

end Reader

namespace Grammar

/-- The mistakes against the grammar in tokens. -/
def mistakesIn (s : Reading) : List SyntaxError :=
  match program s with
  | .ok _ => []
  | .error es => es

lemma mistakesIn_of_run {s t : Reading} {ss : List Statement}
    (run : Unbounded.declarations false s = .ok ss t) : mistakesIn s = t.errors.toList := by
  have run' : declarations (ample s) false s = .ok ss t := run
  by_cases quiet : t.errors.isEmpty = true
  · have none : t.errors = #[] := Array.isEmpty_iff.mp quiet
    simp [mistakesIn, program, run', none]
  · simp only [mistakesIn, program, run', if_neg quiet]

/-- Mistakes that were recorded before come first. -/
lemma mistakesIn_following (es : Array SyntaxError) (s : Reading) :
    mistakesIn (s.following es) = es.toList ++ mistakesIn s := by
  obtain ⟨ss, t, run⟩ := declarations_ok (ample s) false s
  have behind := readersAt_composes (follows_composes es) (ample s) (.declarations false) s
  change declarations (ample s) false (s.following es) =
    Outcome.following es (declarations (ample s) false s) at behind
  rw [run] at behind
  rw [mistakesIn_of_run (t := t) run, mistakesIn_of_run (t := t.following es) behind]
  exact Array.toList_append

end Grammar

end Lox
