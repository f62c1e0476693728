import Lox.Proofs.Reading.Unbounded

/-!
What the power of an operation does. A reader of continuations stops only where no token holds its
operand tightly enough, and to read with a smaller power is to read with the larger one first and
then to go on.
-/

namespace Lox

open Reading Reader Grammar

namespace Reading

/-- The current token holds no operand on its left with the given power or a larger one. -/
def Stopped (power : Nat) (s : Reading) : Prop :=
  ∀ c, Continuation.ofKind? s.current.kind = some c → c.leftPower < power

lemma Stopped.mono {p q : Nat} {s : Reading} (h : s.Stopped p) (hpq : p ≤ q) : s.Stopped q :=
  fun c hc => Nat.lt_of_lt_of_le (h c hc) hpq

lemma Stopped.add {power : Nat} {s : Reading} (h : s.Stopped power) (node : Node) :
    (s.add node).Stopped power :=
  fun c hc => h c hc

lemma Stopped.note {power : Nat} {s : Reading} (h : s.Stopped power) (e : SyntaxError) :
    (s.note e).Stopped power :=
  fun c hc => h c hc

end Reading

namespace Unbounded

variable {p q power : Nat} {lhs larger : NodeRef} {s t : Reading}

lemma operation_goes (power : Nat) (s : Reading) : Goes 1 (operation power) s :=
  (operation_unbounded (Nat.le_refl _) power s (Nat.lt_succ_self _)).2

lemma arguments_goes (count : Nat) (s : Reading) : Goes 1 (arguments count) s :=
  (arguments_unbounded (Nat.le_refl _) count s (Nat.lt_succ_self _)).2

lemma continuedOf_goes (next : Continuation) (t : Token) (lhs : NodeRef) (s : Reading) :
    Goes 1 (continuedOf operation (arguments 0) next t lhs) s :=
  (continuedOf_alike (fun power s _ => ⟨rfl, operation_goes power s⟩)
    (fun s _ => ⟨rfl, arguments_goes 0 s⟩) next t lhs s (Nat.lt_succ_self _)).2

/-- A reader of continuations that stops at once changes nothing. -/
lemma continuations_stopped (h : s.Stopped power) (lhs : NodeRef) :
    continuations power lhs s = .ok lhs s := by
  rw [continuations_eq, continuationsOf, bind_current]
  cases found : Continuation.ofKind? s.current.kind with
  | none => rfl
  | some next =>
    have weak : next.leftPower < power := h next found
    simp only [weak, if_true]
    rfl

/-- A token that holds the operand tightly enough is passed, and what it announces is read. -/
lemma continuations_taken {next : Continuation}
    (found : Continuation.ofKind? s.current.kind = some next) (strong : power ≤ next.leftPower)
    (lhs : NodeRef) : continuations power lhs s =
      (continuedOf operation (arguments 0) next s.current lhs >>= continuations power) s.pass := by
  rw [continuations_eq, continuationsOf, bind_current, found]
  simp only [Nat.not_lt.mpr strong, if_false]
  rfl

lemma stopped_or_taken (power : Nat) (s : Reading) : s.Stopped power ∨
    ∃ c, Continuation.ofKind? s.current.kind = some c ∧ power ≤ c.leftPower := by
  by_cases h : s.Stopped power
  · exact .inl h
  · refine .inr ?_
    simp only [Reading.Stopped, not_forall] at h
    obtain ⟨c, hc, hp⟩ := h
    exact ⟨c, hc, Nat.not_lt.mp hp⟩

lemma announced_ne_eof {c : Continuation} (h : Continuation.ofKind? s.current.kind = some c) :
    s.current.kind ≠ .eof := by
  intro he
  rw [he, ofKind?_eof] at h
  cases h

/-- After all continuations have been read, no token holds the operand tightly enough. -/
lemma continuations_stops (h : continuations power lhs s = .ok larger t) : t.Stopped power := by
  induction hn : s.left using Nat.strongRecOn generalizing s lhs with
  | _ n ih =>
    rcases stopped_or_taken power s with stopped | ⟨c, hc, strong⟩
    · rw [continuations_stopped stopped] at h
      cases h
      exact stopped
    · rw [continuations_taken hc strong] at h
      have shorter := pass_left (announced_ne_eof hc)
      cases hx : continuedOf operation (arguments 0) c s.current lhs s.pass with
      | ok a u =>
        rw [bind_ok hx] at h
        have passed := ((continuedOf_goes c s.current lhs s.pass).ok hx).2
        exact ih u.left (by omega) h rfl
      | error e u =>
        rw [bind_error hx] at h
        cases h

lemma operation_stops (h : operation power s = .ok larger t) : t.Stopped power := by
  rw [operation_eq] at h
  cases hx : operand s with
  | ok a u =>
    rw [bind_ok hx] at h
    exact continuations_stops h
  | error e u =>
    rw [bind_error hx] at h
    cases h

/-- Two readers that a first one leads to need agree only where it stops. -/
lemma bind_congr_of_ok {α β : Type} {x : Reader α} {f g : α → Reader β}
    (h : ∀ a t, x s = .ok a t → f a t = g a t) : (x >>= f) s = (x >>= g) s := by
  cases hx : x s with
  | ok a t => rw [bind_ok hx, bind_ok hx, h a t hx]
  | error e t => rw [bind_error hx, bind_error hx]

/-- To read with a smaller power is to read with the larger one and to go on. -/
lemma continuations_absorb (hpq : p ≤ q) (lhs : NodeRef) (s : Reading) :
    continuations p lhs s = (continuations q lhs >>= continuations p) s := by
  induction hn : s.left using Nat.strongRecOn generalizing s lhs with
  | _ n ih =>
    rcases stopped_or_taken q s with stopped | ⟨c, hc, strong⟩
    · rw [bind_ok (continuations_stopped stopped lhs)]
    · have shorter := pass_left (announced_ne_eof hc)
      calc continuations p lhs s
          = (continuedOf operation (arguments 0) c s.current lhs >>= continuations p) s.pass :=
            continuations_taken hc (Nat.le_trans hpq strong) lhs
        _ = (continuedOf operation (arguments 0) c s.current lhs >>= fun larger =>
              continuations q larger >>= continuations p) s.pass := by
            refine bind_congr_of_ok fun larger t hx => ih t.left ?_ larger t rfl
            have passed := ((continuedOf_goes c s.current lhs s.pass).ok hx).2
            omega
        _ = (continuations q lhs >>= continuations p) s := by
            rw [← bind_assoc]
            simp only [bind, EStateM.bind]
            rw [continuations_taken hc strong]
            rfl

lemma operation_absorb (hpq : p ≤ q) :
    operation p = (do let larger ← operation q; continuations p larger) := by
  funext s
  rw [operation_eq p, operation_eq q, bind_assoc]
  exact bind_congr_of_ok fun lhs t _ => continuations_absorb hpq lhs t

/-- Two powers between which no continuation lies read the same. -/
lemma operation_eq_of_gap (hpq : p ≤ q)
    (gap : ∀ c : Continuation, c.leftPower < q → c.leftPower < p) :
    operation p = operation q := by
  funext s
  rw [operation_absorb hpq]
  cases hx : operation q s with
  | ok larger t =>
    have stopped : t.Stopped p := fun c hc => gap c (operation_stops hx c hc)
    rw [bind_ok hx, continuations_stopped stopped]
  | error e t => rw [bind_error hx]

end Unbounded

end Lox
