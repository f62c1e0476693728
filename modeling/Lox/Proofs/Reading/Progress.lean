import Lox.Grammar.Statement
import Mathlib.Tactic.Common

/-!
Readers move onward: they pass tokens and record mistakes, and change nothing else that outlives
them. `Alike` compares two readers where few tokens are left, together with how many tokens they
pass; each rule of the grammar keeps it.
-/

namespace Lox

namespace Reading

/-- How many tokens are left before the one at the end. -/
def left (s : Reading) : Nat :=
  s.rest.length

lemma toBoundary_suffix (previous : TokenKind) (ts : List Token) :
    toBoundary previous ts <:+ ts := by
  induction ts generalizing previous with
  | nil => exact List.suffix_refl _
  | cons t rest ih =>
    unfold toBoundary
    split
    · exact List.suffix_refl _
    · exact (ih t.kind).trans (List.suffix_cons _ _)

lemma recovered_suffix (ts : List Token) : recovered ts <:+ ts := by
  cases ts with
  | nil => exact List.suffix_refl _
  | cons t rest =>
    change (if t.kind = .eof then t :: rest else toBoundary t.kind rest) <:+ t :: rest
    split
    · exact List.suffix_refl _
    · exact (toBoundary_suffix t.kind rest).trans (List.suffix_cons _ _)

/-- What every reader does to a state, whether it succeeds or fails. -/
structure Onward (s t : Reading) : Prop where
  rest : t.rest <:+ s.rest
  last : t.last = s.last
  errors : s.errors.toList <+: t.errors.toList
  functionDepth : t.functionDepth = s.functionDepth

namespace Onward

variable {s t u : Reading}

lemma refl (s : Reading) : Onward s s :=
  ⟨List.suffix_refl _, rfl, List.prefix_refl _, rfl⟩

lemma trans (h : Onward s t) (k : Onward t u) : Onward s u :=
  ⟨k.rest.trans h.rest, k.last.trans h.last, h.errors.trans k.errors,
    k.functionDepth.trans h.functionDepth⟩

lemma left_le (h : Onward s t) : t.left ≤ s.left :=
  h.rest.length_le

lemma pass (s : Reading) : Onward s s.pass := by
  refine ⟨?_, rfl, List.prefix_refl _, rfl⟩
  change passed s.rest <:+ s.rest
  cases s.rest with
  | nil => exact List.suffix_refl _
  | cons t rest =>
    simp only [passed]
    split
    · exact List.suffix_refl _
    · exact List.suffix_cons _ _

lemma note (s : Reading) (e : SyntaxError) : Onward s (s.note e) :=
  ⟨List.suffix_refl _, rfl, by simp [Reading.note], rfl⟩

lemma add (s : Reading) (node : Node) : Onward s (s.add node) :=
  ⟨List.suffix_refl _, rfl, List.prefix_refl _, rfl⟩

lemma bare (s : Reading) : Onward s s.bare :=
  ⟨List.suffix_refl _, rfl, List.prefix_refl _, rfl⟩

lemma resumed (s : Reading) : Onward s s.resumed :=
  ⟨recovered_suffix s.rest, rfl, List.prefix_refl _, rfl⟩

/-- What is read inside a function body leaves the depth outside as it was. -/
lemma shallower (h : Onward s.deeper t) : Onward s t.shallower :=
  ⟨h.rest, h.last, h.errors, congrArg (· - 1) h.functionDepth⟩

end Onward

variable {s : Reading}

/-- A current token that is not the end is the first of those left. -/
lemma rest_eq (h : s.current.kind ≠ .eof) : s.rest = s.current :: s.pass.rest := by
  cases hr : s.rest with
  | nil => exact absurd (by simpa [current, hr] using s.ends) h
  | cons t rest =>
    have ht : t.kind ≠ .eof := by simpa [current, hr] using h
    simp [current, pass, passed, hr, ht]

lemma pass_left (h : s.current.kind ≠ .eof) : s.pass.left + 1 = s.left := by
  have hr := congrArg List.length (rest_eq h)
  simpa [left] using hr.symm

lemma recovered_length_lt {t : Token} {rest : List Token} (h : t.kind ≠ .eof) :
    (recovered (t :: rest)).length < (t :: rest).length := by
  have hs := (toBoundary_suffix t.kind rest).length_le
  simp only [recovered, h, if_false, List.length_cons]
  omega

/-- Recovering from a mistake that was found among the tokens of `s` passes a token of `s`. -/
lemma recovered_left_lt {t : Reading} (h : s.current.kind ≠ .eof) (onward : Onward s t) :
    (recovered t.rest).length < s.left := by
  have hs := (recovered_suffix t.rest).length_le
  by_cases same : t.rest = s.rest
  · rw [same, rest_eq h]
    have shorter := congrArg List.length (rest_eq h)
    exact Nat.lt_of_lt_of_eq (recovered_length_lt h) shorter.symm
  · have shorter : t.rest.length < s.rest.length := by
      rcases Nat.lt_or_ge t.rest.length s.rest.length with hlt | hge
      · exact hlt
      · exact absurd (onward.rest.eq_of_length_le hge) same
    exact Nat.lt_of_le_of_lt hs shorter

end Reading

namespace Reader

open Reading

variable {α β : Type} {s : Reading} {i j k m n : Nat}

/-- A reader moves onward, and past at least so many tokens if it succeeds. -/
def Goes (least : Nat) (x : Reader α) (s : Reading) : Prop :=
  match x s with
  | .ok _ t => Onward s t ∧ t.left + least ≤ s.left
  | .error _ t => Onward s t

/-- Two readers do the same in a state, and move onward as `Goes` says. -/
def AlikeAt (s : Reading) (least : Nat) (x y : Reader α) : Prop :=
  x s = y s ∧ Goes least y s

/-- Two readers are alike wherever less than `n` tokens are left. -/
def Alike (n least : Nat) (x y : Reader α) : Prop :=
  ∀ s, s.left < n → AlikeAt s least x y

lemma Goes.of_ok {x : Reader α} {a : α} {t : Reading} (h : x s = .ok a t) (onward : Onward s t)
    (enough : t.left + k ≤ s.left) : Goes k x s := by
  unfold Goes
  rw [h]
  exact ⟨onward, enough⟩

lemma Goes.of_error {x : Reader α} {e : SyntaxError} {t : Reading} (h : x s = .error e t)
    (onward : Onward s t) : Goes k x s := by
  unfold Goes
  rw [h]
  exact onward

lemma Goes.ok {x : Reader α} (h : Goes k x s) {a : α} {t : Reading} (hx : x s = .ok a t) :
    Onward s t ∧ t.left + k ≤ s.left := by
  unfold Goes at h
  rwa [hx] at h

lemma Goes.error {x : Reader α} (h : Goes k x s) {e : SyntaxError} {t : Reading}
    (hx : x s = .error e t) : Onward s t := by
  unfold Goes at h
  rwa [hx] at h

lemma Goes.onward {x : Reader α} (h : Goes k x s) {a : α} {t : Reading} (hx : x s = .ok a t) :
    Onward s t :=
  (h.ok hx).1

lemma Goes.mono {x : Reader α} (h : Goes k x s) (hik : i ≤ k) : Goes i x s := by
  cases hx : x s with
  | ok a t => exact .of_ok hx (h.onward hx) (by have := (h.ok hx).2; omega)
  | error e t => exact .of_error hx (h.error hx)

lemma bind_ok {x : Reader α} {f : α → Reader β} {a : α} {t : Reading} (h : x s = .ok a t) :
    (x >>= f) s = f a t := by
  simp only [bind, EStateM.bind]
  rw [h]

lemma bind_error {x : Reader α} {f : α → Reader β} {e : SyntaxError} {t : Reading}
    (h : x s = .error e t) : (x >>= f) s = .error e t := by
  simp only [bind, EStateM.bind]
  rw [h]

lemma map_ok {x : Reader α} {f : α → β} {a : α} {t : Reading} (h : x s = .ok a t) :
    (f <$> x) s = .ok (f a) t := by
  simp only [Functor.map, EStateM.map]
  rw [h]

lemma map_error {x : Reader α} {f : α → β} {e : SyntaxError} {t : Reading}
    (h : x s = .error e t) : (f <$> x) s = .error e t := by
  simp only [Functor.map, EStateM.map]
  rw [h]

lemma AlikeAt.bind {x y : Reader α} {f g : α → Reader β} (hx : AlikeAt s j x y)
    (hf : ∀ a t, t.left + j ≤ s.left → AlikeAt t k (f a) (g a)) (hi : i ≤ j + k) :
    AlikeAt s i (x >>= f) (y >>= g) := by
  obtain ⟨same, goes⟩ := hx
  cases hy : y s with
  | ok a t =>
    obtain ⟨onward, passed⟩ := goes.ok hy
    obtain ⟨same', goes'⟩ := hf a t passed
    refine ⟨by rw [bind_ok (same.trans hy), bind_ok hy, same'], ?_⟩
    have run := bind_ok (f := g) hy
    cases hg : g a t with
    | ok b u =>
      obtain ⟨onward', passed'⟩ := goes'.ok hg
      exact .of_ok (run.trans hg) (onward.trans onward') (by omega)
    | error e u => exact .of_error (run.trans hg) (onward.trans (goes'.error hg))
  | error e t =>
    exact ⟨by rw [bind_error (same.trans hy), bind_error hy],
      .of_error (bind_error hy) (goes.error hy)⟩

lemma Alike.bind {x y : Reader α} {f g : α → Reader β} (hx : Alike n j x y)
    (hf : ∀ a, Alike n k (f a) (g a)) : Alike n (j + k) (x >>= f) (y >>= g) := by
  intro s hs
  exact (hx s hs).bind (fun a t ht => hf a t (by omega)) (Nat.le_refl _)

/-- What follows a reader that passes a token is read with fewer tokens left. -/
lemma Alike.bind_shorter {x y : Reader α} {f g : α → Reader β} (hx : Alike (n + 1) 1 x y)
    (hf : ∀ a, Alike n k (f a) (g a)) : Alike (n + 1) (1 + k) (x >>= f) (y >>= g) := by
  intro s hs
  exact (hx s hs).bind (fun a t ht => hf a t (by omega)) (Nat.le_refl _)

lemma AlikeAt.least {x y : Reader α} (h : AlikeAt s k x y) (hi : i ≤ k) :
    AlikeAt s i x y :=
  ⟨h.1, h.2.mono hi⟩

lemma Alike.least {x y : Reader α} (h : Alike n k x y) (hi : i ≤ k) :
    Alike n i x y := fun s hs =>
  ⟨(h s hs).1, (h s hs).2.mono hi⟩

lemma Alike.least_zero {x y : Reader α} (h : Alike n k x y) : Alike n 0 x y :=
  h.least (Nat.zero_le k)

lemma Alike.below {x y : Reader α} (h : Alike n k x y) (hm : m ≤ n) :
    Alike m k x y := fun s hs =>
  h s (by omega)

lemma Alike.weaker {x y : Reader α} (h : Alike (n + 1) k x y) : Alike n 0 x y :=
  (h.below (Nat.le_succ n)).least_zero

lemma Alike.map {x y : Reader α} (f : α → β) (hx : Alike n k x y) :
    Alike n k (f <$> x) (f <$> y) := by
  intro s hs
  obtain ⟨same, goes⟩ := hx s hs
  cases hy : y s with
  | ok a t =>
    refine ⟨by rw [map_ok (same.trans hy), map_ok hy], ?_⟩
    exact .of_ok (map_ok hy) (goes.ok hy).1 (goes.ok hy).2
  | error e t =>
    refine ⟨by rw [map_error (same.trans hy), map_error hy], ?_⟩
    exact .of_error (map_error hy) (goes.error hy)

lemma Alike.ite {c : Prop} [Decidable c] {x y x' y' : Reader α} (hx : Alike n k x x')
    (hy : Alike n k y y') : Alike n k (if c then x else y) (if c then x' else y') := by
  split
  · exact hx
  · exact hy

end Reader

end Lox
