import Lox.Proofs.Reading.Carried
import Lox.Proofs.Tree.Term

/-!
Reading tokens of which the last ones are missing. Where all tokens are read without a mistake, what
is read without the last ones is the same, up to the end of what is left; from there on mistakes are
found at the end only.
-/

namespace Lox

open Reading Reader

namespace Reading

/-- The state in which the tokens of another one stand behind those that are left. -/
def before (s more : Reading) : Reading :=
  { s with rest := s.rest ++ more.rest, last := more.last, ends := more.ends }

variable {s more : Reading}

lemma before_current (h : s.rest ≠ []) : (s.before more).current = s.current := by
  obtain ⟨t, rest, split⟩ := List.exists_cons_of_ne_nil h
  simp only [Reading.current, before, split]
  rfl

lemma before_pass (h : s.rest ≠ []) : (s.before more).pass = s.pass.before more := by
  obtain ⟨t, rest, split⟩ := List.exists_cons_of_ne_nil h
  simp only [Reading.pass, before, split, List.cons_append, passed]
  split <;> rfl

lemma current_end (h : s.rest = []) : s.current.kind = .eof := by
  rw [Reading.current, h]
  exact s.ends

/-- Nothing is left after `t`, and what was found since `s` was found at the end. -/
structure AtEnd (s t : Reading) (es : List SyntaxError) : Prop where
  rest : t.rest = []
  errors : ∀ e ∈ es, e ∈ s.errors.toList ∨ e.site = .atEnd

end Reading

namespace Reader

variable {α β : Type} {more s t : Reading} {n m k : Nat} {P P' : Reading → Prop}

/-- The reader comes to the end, and finds mistakes there only. -/
def Ended (x : Reader α) (s : Reading) : Prop :=
  match x s with
  | .ok _ t => AtEnd s t t.errors.toList
  | .error e t => AtEnd s t (t.errors.toList ++ [e])

/-- Where the reader finds no mistake with more tokens behind, it does the same without them, or
comes to the end. -/
def Foresees (more : Reading) (x : Reader α) (s : Reading) : Prop :=
  ∀ a u, x (s.before more) = .ok a u → u.errors = s.errors →
    (∃ t, x s = .ok a t ∧ u = t.before more) ∨ Ended x s

/-- Any state. -/
abbrev Anywhere : Reading → Prop :=
  fun _ => True

/-- The reader foresees where less than `n` tokens are left and `P` holds; at the end it stays. -/
structure Foretold (more : Reading) (n : Nat) (P : Reading → Prop) (x : Reader α) : Prop where
  goes : ∀ s, Goes 0 x s
  sees : ∀ s, s.left < n → P s → Foresees more x s
  ends : ∀ s, s.left < n → s.rest = [] → Ended x s

section

variable {x y : Reader α} {f : α → Reader β} {a : α}

lemma Ended.of_ok (h : x s = .ok a t) (ends : AtEnd s t t.errors.toList) : Ended x s := by
  rw [Ended, h]
  exact ends

lemma Ended.of_error {e : SyntaxError} (h : x s = .error e t)
    (ends : AtEnd s t (t.errors.toList ++ [e])) : Ended x s := by
  rw [Ended, h]
  exact ends

lemma Ended.ok (h : Ended x s) (run : x s = .ok a t) : AtEnd s t t.errors.toList := by
  rwa [Ended, run] at h

/-- Nothing is left to what follows, so it must stay at the end. -/
lemma Ended.bind (h : Ended x s) (hf : ∀ a t, x s = .ok a t → t.rest = [] → Ended (f a) t) :
    Ended (x >>= f) s := by
  cases run : x s with
  | error e t =>
    rw [Ended, run] at h
    exact .of_error (bind_error run) h
  | ok a t =>
    have here := h.ok run
    have there := hf a t run here.rest
    cases run' : f a t with
    | ok b u =>
      rw [Ended, run'] at there
      exact .of_ok ((bind_ok run).trans run')
        ⟨there.rest, fun e he => (there.errors e he).elim (here.errors e) .inr⟩
    | error e u =>
      rw [Ended, run'] at there
      exact .of_error ((bind_ok run).trans run')
        ⟨there.rest, fun e he => (there.errors e he).elim (here.errors e) .inr⟩

/-- The reader does the same from a later state without new mistakes. -/
lemma Ended.later (h : Ended y t) (errors : t.errors = s.errors) (same : x s = y t) :
    Ended x s := by
  rw [Ended, same]
  unfold Ended at h
  cases run : y t with
  | ok a u =>
    rw [run] at h
    exact ⟨h.rest, errors ▸ h.errors⟩
  | error e u =>
    rw [run] at h
    exact ⟨h.rest, errors ▸ h.errors⟩

lemma Foresees.later (h : Foresees more y t) (errors : t.errors = s.errors) (same : x s = y t)
    (same' : x (s.before more) = y (t.before more)) : Foresees more x s := by
  intro a u run quiet
  rw [same'] at run
  refine (h a u run (quiet.trans errors.symm)).imp ?_ fun ended => ended.later errors same
  rintro ⟨v, here, rfl⟩
  exact ⟨v, same.trans here, rfl⟩

/-- A reader that does the same whatever stands behind. -/
lemma Foresees.same (h : x s = .ok a t) (h' : x (s.before more) = .ok a (t.before more)) :
    Foresees more x s := by
  intro b u run _
  rw [h'] at run
  cases run
  exact .inl ⟨t, h, rfl⟩

/-- A reader that fails with more tokens behind. -/
lemma Foresees.fails {e : SyntaxError} {u : Reading} (h : x (s.before more) = .error e u) :
    Foresees more x s := by
  intro b v run _
  rw [h] at run
  cases run

lemma Foresees.bind (goes : ∀ s, Goes 0 x s) (goes' : ∀ a s, Goes 0 (f a) s)
    (hx : Foresees more x s) (hf : ∀ a t, x s = .ok a t → Foresees more (f a) t)
    (ends : ∀ a t, x s = .ok a t → t.rest = [] → Ended (f a) t) : Foresees more (x >>= f) s := by
  intro b u run quiet
  cases first : x (s.before more) with
  | error e v =>
    rw [bind_error first] at run
    cases run
  | ok a v =>
    rw [bind_ok first] at run
    have back := ((goes' a v).onward run).errors
    rw [quiet] at back
    have quiet' : v.errors = s.errors :=
      (Array.toList_inj.mp (((goes _).onward first).errors.eq_of_length_le back.length_le)).symm
    rcases hx a v first quiet' with ⟨t, here, rfl⟩ | ended
    · have errors : t.errors = s.errors := quiet'
      refine (hf a t here b u run (quiet.trans errors.symm)).imp ?_
        fun ended => ended.later errors (bind_ok here)
      rintro ⟨w, there, rfl⟩
      exact ⟨w, (bind_ok here).trans there, rfl⟩
    · exact .inr (ended.bind ends)

end

namespace Foretold

variable {x : Reader α} {f : α → Reader β}

lemma below (h : Foretold more n P x) (hm : m ≤ n) : Foretold more m P x :=
  ⟨h.goes, fun s few => h.sees s (Nat.lt_of_lt_of_le few hm),
    fun s few => h.ends s (Nat.lt_of_lt_of_le few hm)⟩

/-- One reader after the other. What the first one yields is as the second one needs it. -/
lemma bind_if {Q : α → Reading → Prop} (hx : Foretold more n P x)
    (hf : ∀ a, Foretold more n (Q a) (f a))
    (hq : ∀ s a t, P s → x s = .ok a t → Q a t) : Foretold more n P (x >>= f) := by
  have fewer {s t : Reading} {a : α} (run : x s = .ok a t) (few : s.left < n) : t.left < n :=
    Nat.lt_of_le_of_lt ((hx.goes s).onward run).left_le few
  refine ⟨fun s => (hx.goes s).bind fun a t _ => (hf a).goes t, fun s few hp => ?_,
    fun s few none => ?_⟩
  · exact .bind hx.goes (fun a => (hf a).goes) (hx.sees s few hp)
      (fun a t run => (hf a).sees t (fewer run few) (hq s a t hp run))
      fun a t run => (hf a).ends t (fewer run few)
  · exact (hx.ends s few none).bind fun a t run => (hf a).ends t (fewer run few)

lemma bind (hx : Foretold more n P x) (hf : ∀ a, Foretold more n Anywhere (f a)) :
    Foretold more n P (x >>= f) :=
  hx.bind_if hf fun _ _ _ _ _ => trivial

/-- Where the first reader passes a token, fewer are left to the second one. -/
lemma bind_shorter (hx : Foretold more (n + 1) P x) (goes : ∀ s, Goes 1 x s)
    (hf : ∀ a, Foretold more n Anywhere (f a)) : Foretold more (n + 1) P (x >>= f) := by
  have fewer {s t : Reading} {a : α} (run : x s = .ok a t) (few : s.left < n + 1) :
      t.left < n := by
    have passed := ((goes s).ok run).2
    omega
  refine ⟨fun s => (hx.goes s).bind fun a t _ => (hf a).goes t, fun s few hp => ?_,
    fun s few none => ?_⟩
  · exact .bind hx.goes (fun a => (hf a).goes) (hx.sees s few hp)
      (fun a t run => (hf a).sees t (fewer run few) trivial)
      fun a t run => (hf a).ends t (fewer run few)
  · exact (hx.ends s few none).bind fun a t run => (hf a).ends t (fewer run few)

lemma anywhere (h : Foretold more n Anywhere x) : Foretold more n P x :=
  ⟨h.goes, fun s few _ => h.sees s few trivial, h.ends⟩

/-- Only the states in which tokens are left matter to a reader that stays at the end. -/
lemma of_left (goes : ∀ s, Goes 0 x s)
    (sees : ∀ s, s.left < n → P s → s.rest ≠ [] → Foresees more x s)
    (ends : ∀ s, s.left < n → s.rest = [] → Ended x s) : Foretold more n P x := by
  refine ⟨goes, fun s few hp => ?_, ends⟩
  by_cases none : s.rest = []
  · exact fun _ _ _ _ => .inr (ends s few none)
  · exact sees s few hp none

end Foretold

/-! The single steps of readers. -/

/-- Readers that do not look at the tokens and find no mistake. -/
lemma quiet_foretold {x : Reader α}
    (result : Reading → α) (change : Reading → Reading) (run : ∀ s, x s = .ok (result s) (change s))
    (onward : ∀ s, Onward s (change s)) (rest : ∀ s, (change s).rest = s.rest)
    (errors : ∀ s, (change s).errors = s.errors)
    (same : ∀ s, result (s.before more) = result s ∧
      change (s.before more) = (change s).before more) : Foretold more n P x := by
  refine ⟨fun s => .of_ok (run s) (onward s) (onward s).left_le, fun s _ _ => ?_,
    fun s _ none => ?_⟩
  · refine .same (run s) ?_
    rw [run, (same s).1, (same s).2]
  · exact .of_ok (run s) ⟨(rest s).trans none, fun e he => .inl (errors s ▸ he)⟩

lemma pure_foretold (a : α) : Foretold more n P (pure a) :=
  quiet_foretold (fun _ => a) id (fun _ => rfl) .refl (fun _ => rfl) (fun _ => rfl)
    fun _ => ⟨rfl, rfl⟩

lemma push_foretold (node : Node) : Foretold more n P (push node) :=
  quiet_foretold (fun s => s.nodes.size) (fun s => s.add node) (fun _ => rfl)
    (.add · node) (fun _ => rfl) (fun _ => rfl) fun _ => ⟨rfl, rfl⟩

lemma atToken_end {t : Token} (h : t.kind = .eof) (cause : SyntaxError.Cause) :
    (SyntaxError.atToken t cause).site = .atEnd :=
  if_pos h

lemma fail_ended (cause : TokenKind → SyntaxError.Cause) (h : s.rest = []) :
    Ended (fail (α := α) cause) s := by
  have run : fail (α := α) cause s =
      .error (SyntaxError.atToken s.current (cause s.current.kind)) s := rfl
  refine .of_error run ⟨h, fun e he => ?_⟩
  rcases List.mem_append.mp he with old | new
  · exact .inl old
  · obtain rfl := List.mem_singleton.mp new
    exact .inr (atToken_end (current_end h) _)

lemma require_foretold (what : Requirement) : Foretold more n P (require what) := by
  refine .of_left (fun s => (require_alike what s (Nat.lt_succ_self _)).2.mono (Nat.zero_le 1))
    (fun s _ _ some => ?_) fun s _ none => ?_
  · by_cases seen : s.current.kind = what.kind
    · refine .same (a := s.current) (t := s.pass) (by rw [require_eq, if_pos seen]) ?_
      rw [require_eq, before_current some, if_pos seen, before_pass some]
    · have run := require_eq what (s.before more)
      rw [before_current some, if_neg seen] at run
      exact .fails run
  · have other : s.current.kind ≠ what.kind := by
      rw [current_end none]
      exact (requirement_kind_ne_eof what).symm
    have same : require what s = fail (.missing what) s := by
      rw [require_eq, if_neg other]
      rfl
    exact (fail_ended (.missing what) none).later rfl same

lemma limit_foretold (count : Nat) (cause : SyntaxError.Cause) :
    Foretold more n P (limit count cause) := by
  refine .of_left (fun s => (limit_alike count cause s (Nat.lt_succ_self _)).2)
    (fun s _ _ some => ?_) fun s _ none => ?_
  · by_cases many : arityLimit ≤ count
    · refine .same (a := ()) (t := s.note (SyntaxError.atToken s.current cause))
        (by rw [limit_eq, if_pos many]) ?_
      rw [limit_eq, if_pos many, before_current some]
      rfl
    · refine .same (a := ()) (t := s) (by rw [limit_eq, if_neg many]) ?_
      rw [limit_eq, if_neg many]
  · by_cases many : arityLimit ≤ count
    · have run := limit_eq count cause s
      rw [if_pos many] at run
      refine .of_ok run ⟨none, fun e he => ?_⟩
      rw [Reading.note, Array.toList_push] at he
      rcases List.mem_append.mp he with old | new
      · exact .inl old
      · obtain rfl := List.mem_singleton.mp new
        exact .inr (atToken_end (current_end none) cause)
    · have run := limit_eq count cause s
      rw [if_neg many] at run
      exact .of_ok run ⟨none, fun e => .inl⟩

/-- What is read at the current token. -/
lemma current_foresees {f : Token → Reader β} (some : s.rest ≠ [])
    (h : Foresees more (f s.current) s) : Foresees more (current >>= f) s := by
  refine h.later rfl rfl ?_
  rw [bind_current, before_current some]

/-- A token is passed, and fewer are left to what follows. -/
lemma advance_foresees {x : Reader β} (h : Foretold more n Anywhere x)
    (proper : s.current.kind ≠ .eof) (few : s.left < n + 1) :
    Foresees more (do let _ ← advance; x) s := by
  have left := pass_left proper
  have some : s.rest ≠ [] := fun none => proper (current_end none)
  refine (h.sees s.pass (by omega) trivial).later rfl rfl ?_
  rw [← before_pass some]
  rfl

lemma unlessAt_foretold {kind : TokenKind} (proper : kind ≠ .eof) (otherwise : α) {x : Reader α}
    (h : Foretold more n Anywhere x) :
    Foretold more n Anywhere (unlessAt kind otherwise x) := by
  refine .of_left (fun s => ?_) (fun s few _ some => ?_) fun s few none => ?_
  · exact (unlessAt_alike kind otherwise (fun s _ => ⟨rfl, h.goes s⟩) s (Nat.lt_succ_self _)).2
  · by_cases seen : s.current.kind = kind
    · refine .same (a := otherwise) (t := s) (by rw [unlessAt_eq, if_pos seen]) ?_
      rw [unlessAt_eq, before_current some, if_pos seen]
    · refine (h.sees s few trivial).later rfl (by rw [unlessAt_eq, if_neg seen]) ?_
      rw [unlessAt_eq, before_current some, if_neg seen]
  · have other : s.current.kind ≠ kind := by
      rw [current_end none]
      exact proper.symm
    exact (h.ends s few none).later rfl (by rw [unlessAt_eq, if_neg other])

/-- A token of a kind decides between two ways to go on. -/
lemma accept_bind_foretold {kind : TokenKind} (proper : kind ≠ .eof) {y z : Reader α}
    (yes : Foretold more n Anywhere y) (no : Foretold more (n + 1) P z) :
    Foretold more (n + 1) P (accept kind >>= fun b => if b then y else z) := by
  have run (s : Reading) : (accept kind >>= fun b => if b then y else z) s =
      if s.current.kind = kind then y s.pass else z s := accept_bind_eq kind _ s
  refine .of_left (fun s => ?_) (fun s few hp some => ?_) fun s few none => ?_
  · refine (accept_alike kind s (Nat.lt_succ_self _)).2.bind (k := 0) fun b t _ => ?_
    split
    · exact yes.goes t
    · exact no.goes t
  · by_cases seen : s.current.kind = kind
    · have left := pass_left (seen ▸ proper)
      refine (yes.sees s.pass (by omega) trivial).later rfl (by rw [run, if_pos seen]) ?_
      rw [run, before_current some, if_pos seen, before_pass some]
    · refine (no.sees s few hp).later rfl (by rw [run, if_neg seen]) ?_
      rw [run, before_current some, if_neg seen]
  · have other : s.current.kind ≠ kind := by
      rw [current_end none]
      exact proper.symm
    exact (no.ends s few none).later rfl (by rw [run, if_neg other])

lemma map_foretold {x : Reader α} (h : Foretold more n P x) (g : α → β) :
    Foretold more n P (g <$> x) := by
  rw [map_eq_pure_bind]
  exact h.bind fun a => pure_foretold (g a)

lemma ifAt_foretold {kind : TokenKind} (proper : kind ≠ .eof) {x : Reader α}
    (h : Foretold more n Anywhere x) : Foretold more n Anywhere (ifAt kind x) :=
  (accept_bind_foretold proper (map_foretold h some) (pure_foretold none)).below (Nat.le_succ n)

lemma insideFunction_foretold {x : Reader α} (h : Foretold more n Anywhere x) :
    Foretold more n Anywhere (insideFunction x) := by
  have ended {s : Reading} (h : Ended x s.deeper) : Ended (insideFunction x) s := by
    cases run : x s.deeper with
    | ok a t =>
      rw [Ended, run] at h
      exact .of_ok (insideFunction_ok run) ⟨h.rest, h.errors⟩
    | error e t =>
      rw [Ended, run] at h
      exact .of_error (insideFunction_error run) ⟨h.rest, h.errors⟩
  refine ⟨fun s => ?_, fun s few _ a u run quiet => ?_, fun s few none => ?_⟩
  · exact (insideFunction_alike (fun s _ => ⟨rfl, h.goes s⟩) s (Nat.lt_succ_self _)).2
  · cases inside : x (s.deeper.before more) with
    | error e v =>
      rw [insideFunction_error (s := s.before more) inside] at run
      cases run
    | ok b v =>
      rw [insideFunction_ok (s := s.before more) inside] at run
      cases run
      refine (h.sees s.deeper few trivial _ _ inside quiet).imp ?_ ended
      rintro ⟨t, here, rfl⟩
      exact ⟨t.shallower, insideFunction_ok here, rfl⟩
  · exact ended (h.ends s.deeper few none)

/-- What recovers from a mistake has found one. -/
lemma recovering_foretold {x : Reader α} (h : Foretold more n Anywhere x) :
    Foretold more n Anywhere (recovering x) := by
  have ended {s : Reading} (h : Ended x s) : Ended (recovering x) s := by
    cases run : x s with
    | ok a t =>
      rw [Ended, run] at h
      exact .of_ok (recovering_ok run) h
    | error e t =>
      rw [Ended, run] at h
      refine .of_ok (recovering_error run) ⟨?_, fun e' he => h.errors e' ?_⟩
      · change recovered t.rest = []
        rw [h.rest]
        rfl
      · exact Array.toList_push ▸ he
  refine ⟨fun s => ?_, fun s few _ a u run quiet => ?_, fun s few none => ended (h.ends s few none)⟩
  · exact recovering_goes (h.goes s)
  · cases inside : x (s.before more) with
    | error e v =>
      rw [recovering_error inside] at run
      cases run
      have grown := ((h.goes _).error inside).errors.length_le
      have same := congrArg (fun es => es.toList.length) quiet
      simp only [Reading.resumed, Reading.note, Array.toList_push, List.length_append,
        List.length_cons, List.length_nil] at same
      change s.errors.toList.length ≤ _ at grown
      omega
    | ok b v =>
      rw [recovering_ok inside] at run
      cases run
      refine (h.sees s few trivial _ _ inside quiet).imp ?_ ended
      rintro ⟨t, here, rfl⟩
      exact ⟨t, recovering_ok here, rfl⟩

end Reader

end Lox
