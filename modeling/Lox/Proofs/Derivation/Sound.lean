import Lox.Proofs.Derivation.Expression
import Lox.Proofs.Reading.Mirror

/-!
Soundness of steps of reading: a step that records no mistake has passed tokens that the grammar
derives. What was derived may depend on the state that is reached, as with the `else` that a
statement before it did not take.
-/

namespace Lox

open Reading Reader

variable {α β γ δ : Type} {s : Reading}

/-- A step moves onward, and where it succeeds without a mistake, the tokens that it passed stand in
the given relation to the state it reaches and to its result. -/
structure Sound (P : List Token → Reading → β → Prop) (y : Descent β) (s : Reading) : Prop where
  onward : ∀ {r u}, y s = some (r, u) → Onward s u
  derives : ∀ {b u}, y s = some (.ok b, u) → u.errors = s.errors →
    ∃ ts, s.rest = ts ++ u.rest ∧ P ts u b

namespace Reading.Onward

/-- A run that records nothing in the end has recorded nothing on its way. -/
lemma quiet {t u : Reading} (h : Onward s t) (k : Onward t u) (same : u.errors = s.errors) :
    t.errors = s.errors ∧ u.errors = t.errors := by
  have back : t.errors.toList <+: s.errors.toList := same ▸ k.errors
  have eq : s.errors.toList = t.errors.toList :=
    h.errors.eq_of_length_le back.length_le
  have here : t.errors = s.errors := (Array.toList_inj.mp eq).symm
  exact ⟨here, same.trans here.symm⟩

end Reading.Onward

namespace Sound

variable {P R : List Token → Reading → β → Prop} {Q : List Token → Reading → δ → Prop}
  {y : Descent β} {g : β → Descent δ}

lemma mono (h : Sound P y s) (hPR : ∀ ts u b, P ts u b → R ts u b) : Sound R y s := by
  refine ⟨h.onward, fun run quiet => ?_⟩
  obtain ⟨ts, rest, derived⟩ := h.derives run quiet
  exact ⟨ts, rest, hPR ts _ _ derived⟩

lemma bind_run (hy : Sound P y s) (hg : ∀ b u, y s = some (.ok b, u) →
      Sound (fun us v c => ∀ ts, P ts u b → Q (ts ++ us) v c) (g b) u) :
    Sound Q (y >>= g) s := by
  constructor
  · intro r v run
    rcases hy_run : y s with - | ⟨e | b, u⟩
    · rw [Descent.bind_none hy_run] at run
      cases run
    · rw [Descent.bind_error hy_run] at run
      cases run
      exact hy.onward hy_run
    · rw [Descent.bind_ok hy_run] at run
      have first := hy.onward hy_run
      exact first.trans ((hg b u hy_run).onward run)
  · intro c v run same
    rcases hy_run : y s with - | ⟨e | b, u⟩
    · rw [Descent.bind_none hy_run] at run
      cases run
    · rw [Descent.bind_error hy_run] at run
      cases run
    · rw [Descent.bind_ok hy_run] at run
      have first := hy.onward hy_run
      have second := hg b u hy_run
      obtain ⟨quiet, quiet'⟩ := first.quiet (second.onward run) same
      obtain ⟨ts, rest, derived⟩ := hy.derives hy_run quiet
      obtain ⟨us, rest', derived'⟩ := second.derives run quiet'
      exact ⟨ts ++ us, by rw [rest, rest', List.append_assoc], derived' ts derived⟩

lemma bind (hy : Sound P y s) (hg : ∀ b u, Onward s u →
      Sound (fun us v c => ∀ ts, P ts u b → Q (ts ++ us) v c) (g b) u) :
    Sound Q (y >>= g) s :=
  hy.bind_run fun b u run => hg b u (hy.onward run)

lemma stuck : Sound P Descent.stuck s :=
  ⟨nofun, nofun⟩

lemma pure {b : β} (h : P [] s b) : Sound P (pure b) s := by
  constructor
  · intro r u run
    cases run
    exact .refl s
  · intro c u run _
    cases run
    exact ⟨[], rfl, h⟩

lemma fail (cause : TokenKind → SyntaxError.Cause) :
    Sound P (liftM (Reader.fail (α := β) cause)) s := by
  constructor
  · intro r u run
    cases run
    exact .refl s
  · intro b u run
    cases run

/-- Where both sides of a step are the same, so is what they derive. -/
lemma congr {y' : Descent β} (h : Sound P y' s) (same : y s = y' s) : Sound P y s :=
  ⟨fun run => h.onward (same ▸ run), fun run => h.derives (same ▸ run)⟩

/-- A step that passes the current token and goes on. -/
lemma passing {y' : Descent β} (h : Sound (fun us u b => P (s.current :: us) u b) y' s.pass)
    (hne : s.current.kind ≠ .eof) (same : y s = y' s.pass) : Sound P y s := by
  constructor
  · intro r u run
    exact (Onward.pass s).trans (h.onward (same ▸ run))
  · intro b u run quiet
    obtain ⟨ts, rest, derived⟩ := h.derives (same ▸ run) quiet
    exact ⟨s.current :: ts, by rw [rest_eq hne, rest, List.cons_append], derived⟩

lemma current {g : Token → Descent δ} (h : Sound Q (g s.current) s) :
    Sound Q (liftM Reader.current >>= g) s :=
  h.congr rfl

lemma sees {kind : TokenKind} {g : Bool → Descent δ}
    (h : Sound Q (g (s.current.kind == kind)) s) : Sound Q (liftM (Reader.sees kind) >>= g) s :=
  h.congr rfl

lemma advance {g : Token → Descent δ} (hne : s.current.kind ≠ .eof)
    (h : Sound (fun us u c => Q (s.current :: us) u c) (g s.current) s.pass) :
    Sound Q (liftM Reader.advance >>= g) s :=
  h.passing hne rfl

lemma accept {kind : TokenKind} {g : Bool → Descent δ} (hne : kind ≠ .eof)
    (yes : s.current.kind = kind →
      Sound (fun us u c => Q (s.current :: us) u c) (g true) s.pass)
    (no : s.current.kind ≠ kind → Sound Q (g false) s) :
    Sound Q (liftM (Reader.accept kind) >>= g) s := by
  by_cases seen : s.current.kind = kind
  · exact (yes seen).passing (seen ▸ hne) (Descent.accept_pos seen g)
  · exact (no seen).congr (Descent.accept_neg seen g)

lemma require {what : Requirement} {g : Token → Descent δ} (h : s.current.kind = what.kind →
      Sound (fun us u c => Q (s.current :: us) u c) (g s.current) s.pass) :
    Sound Q (liftM (Reader.require what) >>= g) s := by
  have run := require_eq what s
  by_cases seen : s.current.kind = what.kind
  · rw [if_pos seen] at run
    exact (h seen).passing (seen ▸ requirement_kind_ne_eof what)
      (Descent.bind_ok (Descent.step_ok run))
  · rw [if_neg seen] at run
    have fails := Descent.bind_error (g := g) (Descent.step_error run)
    constructor
    · intro r u run'
      cases fails.symm.trans run'
      exact .refl s
    · intro b u run'
      cases fails.symm.trans run'

/-- A mistake that is recorded leaves nothing to derive. -/
lemma record (e : SyntaxError) :
    Sound (fun _ _ _ => False) (liftM (Reader.record e) : Descent Unit) s := by
  constructor
  · intro r u run
    cases run
    exact .note s e
  · intro b u run same
    cases run
    have size := congrArg Array.size same
    simp [Reading.note] at size

lemma limit (count : Nat) (cause : SyntaxError.Cause) :
    Sound (fun ts _ _ => ts = [] ∧ count < arityLimit)
      (liftM (Reader.limit count cause) : Descent Unit) s := by
  by_cases h : arityLimit ≤ count
  · have run := limit_eq count cause s
    rw [if_pos h] at run
    have noted := (record (SyntaxError.atToken s.current cause)).congr (Descent.step_ok run)
    exact noted.mono fun _ _ _ => False.elim
  · have run := limit_eq count cause s
    rw [if_neg h] at run
    have done : (liftM (Reader.limit count cause) : Descent Unit) s =
        (Pure.pure () : Descent Unit) s :=
      Descent.step_ok run
    exact (pure ⟨rfl, Nat.lt_of_not_le h⟩).congr done

end Sound

end Lox
