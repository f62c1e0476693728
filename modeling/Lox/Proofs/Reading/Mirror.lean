import Lox.Proofs.Reading.Descent
import Lox.Proofs.Reading.Rules

/-!
A relation between readers that make nodes and steps of recursive descent, which make terms. It is
kept by everything of which readers are built.
-/

namespace Lox

open Reading Reader

variable {α β γ δ : Type} {s : Reading}

namespace Descent

lemma step_ok {x : Reader α} {a : α} {t : Reading} (h : x s = .ok a t) :
    step x s = some (.ok a, t) := by
  simp only [step]
  rw [h]

lemma step_error {x : Reader α} {e : SyntaxError} {t : Reading} (h : x s = .error e t) :
    step x s = some (.error e, t) := by
  simp only [step]
  rw [h]

lemma bind_ok {y : Descent β} {g : β → Descent δ} {b : β} {u : Reading}
    (h : y s = some (.ok b, u)) : (y >>= g) s = g b u := by
  simp only [bind, ExceptT.bind, ExceptT.mk, StateT.bind]
  rw [h]
  rfl

lemma bind_none {y : Descent β} {g : β → Descent δ} (h : y s = none) : (y >>= g) s = none := by
  simp only [bind, ExceptT.bind, ExceptT.mk, StateT.bind]
  rw [h]
  rfl

lemma bind_error {y : Descent β} {g : β → Descent δ} {e : SyntaxError} {u : Reading}
    (h : y s = some (.error e, u)) : (y >>= g) s = some (.error e, u) := by
  simp only [bind, ExceptT.bind, ExceptT.mk, StateT.bind]
  rw [h]
  rfl

lemma bind_current (g : Token → Descent δ) :
    (liftM Reader.current >>= g) s = g s.current s :=
  rfl

lemma bind_sees (kind : TokenKind) (g : Bool → Descent δ) :
    (liftM (Reader.sees kind) >>= g) s = g (s.current.kind == kind) s :=
  rfl

lemma accept_pos {kind : TokenKind} (seen : s.current.kind = kind) (g : Bool → Descent δ) :
    (liftM (Reader.accept kind) >>= g) s = g true s.pass := by
  have run := accept_eq kind s
  rw [if_pos seen] at run
  exact bind_ok (step_ok run)

lemma accept_neg {kind : TokenKind} (seen : s.current.kind ≠ kind) (g : Bool → Descent δ) :
    (liftM (Reader.accept kind) >>= g) s = g false s := by
  have run := accept_eq kind s
  rw [if_neg seen] at run
  exact bind_ok (step_ok run)

lemma unary_eq_call (minus : s.current.kind ≠ .minus) (bang : s.current.kind ≠ .bang)
    (depth : Nat) : unary (depth + 1) s = call depth s := by
  rw [unary, bind_current]
  cases hk : s.current.kind
  case minus => exact absurd hk minus
  case bang => exact absurd hk bang
  all_goals rfl

lemma levelRest_none {k : Level} (h : k.operator? s.current.kind = none) (lhs : Term)
    (depth : Nat) : levelRest (depth + 1) k lhs s = (pure lhs : Descent Term) s := by
  rw [levelRest, bind_current, h]

lemma levelRest_some {k : Level} {op : Infix} (h : k.operator? s.current.kind = some op)
    (lhs : Term) (depth : Nat) : levelRest (depth + 1) k lhs s = (do
      let rhs ← tighter depth k
      levelRest depth k (op.join lhs rhs s.current.line) : Descent Term) s.pass := by
  rw [levelRest, bind_current, h]
  rfl

end Descent

/-- A reader that makes nodes and a step of descent do the same up to the nodes: they end in the
same way at the same place, with results in the given relation. -/
inductive Mirrors (least : Nat) (P : Array Node → α → β → Prop) (x : Reader α) (y : Descent β)
    (s : Reading) : Prop
  | ok {a : α} {b : β} {t : Reading} (hx : x s = .ok a t) (hy : y s.bare = some (.ok b, t.bare))
      (keeps : Extends s.nodes t.nodes) (passed : t.left + least ≤ s.left) (holds : P t.nodes a b)
  | error {e : SyntaxError} {t : Reading} (hx : x s = .error e t)
      (hy : y s.bare = some (.error e, t.bare))

namespace Mirrors

variable {i j k : Nat} {P : Array Node → α → β → Prop} {Q : Array Node → γ → δ → Prop}
  {x : Reader α} {y : Descent β} {f : α → Reader γ} {g : β → Descent δ}

lemma bind (h : Mirrors j P x y s)
    (hf : ∀ a b t, x s = .ok a t → Extends s.nodes t.nodes → t.left + j ≤ s.left →
      P t.nodes a b → Mirrors k Q (f a) (g b) t) (hi : i ≤ j + k) :
    Mirrors i Q (x >>= f) (y >>= g) s := by
  cases h with
  | ok hx hy keeps passed holds =>
    cases hf _ _ _ hx keeps passed holds with
    | ok hx' hy' keeps' passed' holds' =>
      exact .ok ((Reader.bind_ok hx).trans hx') ((Descent.bind_ok hy).trans hy')
        (keeps.trans keeps') (by omega) holds'
    | error hx' hy' =>
      exact .error ((Reader.bind_ok hx).trans hx') ((Descent.bind_ok hy).trans hy')
  | error hx hy => exact .error (Reader.bind_error hx) (Descent.bind_error hy)

lemma least (h : Mirrors k P x y s) (hi : i ≤ k) : Mirrors i P x y s := by
  cases h with
  | ok hx hy keeps passed holds => exact .ok hx hy keeps (by omega) holds
  | error hx hy => exact .error hx hy

/-- Both sides go on from the state in which the current token is passed. -/
lemma passing {x' : Reader α} {y' : Descent β} (h : Mirrors k P x' y' s.pass)
    (hx : x s = x' s.pass) (hy : y s.bare = y' s.pass.bare) : Mirrors k P x y s := by
  have hl := (Onward.pass s).left_le
  cases h with
  | ok hx' hy' keeps passed holds =>
    exact .ok (hx.trans hx') (hy.trans hy') keeps (by omega) holds
  | error hx' hy' => exact .error (hx.trans hx') (hy.trans hy')

lemma same {x' : Reader α} {y' : Descent β} (h : Mirrors k P x' y' s) (hx : x s = x' s)
    (hy : y s.bare = y' s.bare) : Mirrors k P x y s := by
  cases h with
  | ok hx' hy' keeps passed holds => exact .ok (hx.trans hx') (hy.trans hy') keeps passed holds
  | error hx' hy' => exact .error (hx.trans hx') (hy.trans hy')

lemma pure {a : α} {b : β} (h : P s.nodes a b) : Mirrors 0 P (pure a) (pure b) s :=
  .ok rfl rfl (.refl _) (Nat.le_refl _) h

lemma push {node : Node} {term : Term} (h : term.LiesAt (s.nodes.push node) s.nodes.size) :
    Mirrors 0 (fun nodes i t => t.LiesAt nodes i) (Reader.push node) (Pure.pure term) s :=
  .ok rfl rfl (.push _ _) (Nat.le_refl _) h

/-- A node that is made before the reader goes on changes nothing for recursive descent. -/
lemma push_bind {node : Node} {f : NodeRef → Reader γ} {y : Descent δ}
    (h : Mirrors k Q (f s.nodes.size) y (s.add node)) :
    Mirrors k Q (Reader.push node >>= f) y s := by
  cases h with
  | ok hx hy keeps passed holds =>
    exact .ok hx hy ((Extends.push _ _).trans keeps) passed holds
  | error hx hy => exact .error hx hy

lemma fail (cause : TokenKind → SyntaxError.Cause) :
    Mirrors k P (Reader.fail cause) (liftM (m := Reader) (Reader.fail cause) : Descent β) s :=
  .error rfl rfl

section

variable {f : Token → Reader γ} {g : Token → Descent δ}

lemma current (h : Mirrors k Q (f s.current) (g s.current) s) :
    Mirrors k Q (Reader.current >>= f) (liftM Reader.current >>= g) s := by
  cases h with
  | ok hx hy keeps passed holds => exact .ok hx hy keeps passed holds
  | error hx hy => exact .error hx hy

lemma descent_current {x : Reader α} {Q : Array Node → α → δ → Prop}
    (h : Mirrors k Q x (g s.current) s) : Mirrors k Q x (liftM Reader.current >>= g) s := by
  cases h with
  | ok hx hy keeps passed holds => exact .ok hx hy keeps passed holds
  | error hx hy => exact .error hx hy

lemma advance (hne : s.current.kind ≠ .eof) (h : Mirrors k Q (f s.current) (g s.current) s.pass) :
    Mirrors (k + 1) Q (Reader.advance >>= f) (liftM Reader.advance >>= g) s := by
  have hl := pass_left hne
  cases h with
  | ok hx hy keeps passed holds => exact .ok hx hy keeps (by omega) holds
  | error hx hy => exact .error hx hy

lemma require {what : Requirement} (h : s.current.kind = what.kind →
      Mirrors k Q (f s.current) (g s.current) s.pass) :
    Mirrors (k + 1) Q (Reader.require what >>= f) (liftM (Reader.require what) >>= g) s := by
  have run := require_eq what s
  have bareRun := require_eq what s.bare
  by_cases seen : s.current.kind = what.kind
  · have hl := pass_left (seen ▸ requirement_kind_ne_eof what)
    rw [if_pos seen] at run
    rw [if_pos (show s.bare.current.kind = what.kind from seen)] at bareRun
    have step : (liftM (Reader.require what) : Descent Token) s.bare =
        some (.ok s.current, s.pass.bare) := Descent.step_ok bareRun
    cases h seen with
    | ok hx hy keeps passed holds =>
      exact .ok ((Reader.bind_ok run).trans hx) ((Descent.bind_ok step).trans hy) keeps
        (by omega) holds
    | error hx hy =>
      exact .error ((Reader.bind_ok run).trans hx) ((Descent.bind_ok step).trans hy)
  · rw [if_neg seen] at run
    rw [if_neg (show s.bare.current.kind ≠ what.kind from seen)] at bareRun
    exact .error (Reader.bind_error run) (Descent.bind_error (Descent.step_error bareRun))

end

section

variable {f : Bool → Reader γ} {g : Bool → Descent δ}

lemma sees {kind : TokenKind} (h : Mirrors k Q (f (s.current.kind == kind))
      (g (s.current.kind == kind)) s) :
    Mirrors k Q (Reader.sees kind >>= f) (liftM (Reader.sees kind) >>= g) s := by
  cases h with
  | ok hx hy keeps passed holds => exact .ok hx hy keeps passed holds
  | error hx hy => exact .error hx hy

lemma accept {kind : TokenKind}
    (yes : s.current.kind = kind → Mirrors k Q (f true) (g true) s.pass)
    (no : s.current.kind ≠ kind → Mirrors k Q (f false) (g false) s) :
    Mirrors k Q (Reader.accept kind >>= f) (liftM (Reader.accept kind) >>= g) s := by
  have run := accept_eq kind s
  have hl := (Onward.pass s).left_le
  by_cases seen : s.current.kind = kind
  · have bareRun := Descent.accept_pos (s := s.bare) seen g
    rw [if_pos seen] at run
    exact (yes seen).passing (Reader.bind_ok run) bareRun
  · have bareRun := Descent.accept_neg (s := s.bare) seen g
    rw [if_neg seen] at run
    exact (no seen).same (Reader.bind_ok run) bareRun

end

lemma get {f : Reading → Reader γ} {y : Descent δ} (h : Mirrors k Q (f s) y s) :
    Mirrors k Q (MonadState.get >>= f) y s := by
  cases h with
  | ok hx hy keeps passed holds => exact .ok hx hy keeps passed holds
  | error hx hy => exact .error hx hy

lemma record {e : SyntaxError} {f : Unit → Reader γ} {g : Unit → Descent δ}
    (h : Mirrors k Q (f ()) (g ()) (s.note e)) :
    Mirrors k Q (Reader.record e >>= f) (liftM (Reader.record e) >>= g) s := by
  cases h with
  | ok hx hy keeps passed holds => exact .ok hx hy keeps passed holds
  | error hx hy => exact .error hx hy

lemma limit (count : Nat) (cause : SyntaxError.Cause) :
    Mirrors 0 (fun _ _ _ => True) (Reader.limit count cause)
      (liftM (Reader.limit count cause) : Descent Unit) s := by
  have run := limit_eq count cause
  by_cases h : arityLimit ≤ count
  · simp only [if_pos h] at run
    exact .ok (run s) (Descent.step_ok (run s.bare)) (.refl _) (Nat.le_refl _) trivial
  · simp only [if_neg h] at run
    exact .ok (run s) (Descent.step_ok (run s.bare)) (.refl _) (Nat.le_refl _) trivial

end Mirrors

end Lox
