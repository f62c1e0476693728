import Lox.Proofs.Evaluation.Follows
import Mathlib.Data.List.Forall2

/-!
The single steps of a run do the same in states that differ only in the bodies of functions.
-/

namespace Lox

variable {ε α β : Type} {s : State} {m : Machine (List Phrase)}

namespace State.Unfolds

lemma shape (h : s.Unfolds m) : ∃ codes : Array (Code (List Phrase)),
    List.Forall₂ Code.Unfolds s.codes.toList codes.toList ∧
      m = ⟨s.scopes, codes, s.calls, s.rand, s.console, s.now⟩ := by
  obtain ⟨scopes, codes, calls, rand, console, now⟩ := m
  obtain ⟨hcodes, rfl, rfl, rfl, rfl, rfl⟩ := h
  exact ⟨codes, hcodes, rfl⟩

lemma withCalls (h : s.Unfolds m) (f : Nat → Nat) :
    State.Unfolds { s with calls := f s.calls } { m with calls := f m.calls } := by
  obtain ⟨codes, hcodes, rfl⟩ := h.shape
  exact ⟨hcodes, rfl, rfl, rfl, rfl, rfl⟩

lemma codes_size (h : s.Unfolds m) : m.codes.size = s.codes.size :=
  h.codes.length_eq.symm

/-- A function has code in both states or in neither. -/
lemma code (h : s.Unfolds m) (number : Nat) :
    s.codes[number]? = none ∧ m.codes[number]? = none ∨
      ∃ c d, s.codes[number]? = some c ∧ m.codes[number]? = some d ∧ Code.Unfolds c d := by
  have size := h.codes_size
  by_cases known : number < s.codes.size
  · have known' : number < m.codes.size := by omega
    refine .inr ⟨s.codes[number], m.codes[number], Array.getElem?_eq_getElem known,
      Array.getElem?_eq_getElem known', ?_⟩
    exact h.codes.get (i := number) known known'
  · exact .inl ⟨Array.getElem?_eq_none (by omega), Array.getElem?_eq_none (by omega)⟩

end State.Unfolds

namespace Exec

/-- Two steps end alike wherever they start alike. -/
def Alike (x : ExecOf (List Statement) α) (y : ExecOf (List Phrase) α) : Prop :=
  ∀ s m, State.Unfolds s m → Corresponds (x s) (y m)

lemma alike_pure (a : α) : Alike (pure a) (pure a) :=
  fun _ _ h => .ok a h

lemma alike_fault (line : Nat) (f : Fault) : Alike (α := α) (fault line f) (fault line f) :=
  fun _ _ h => .error _ h

lemma alike_ofExcept (line : Nat) (x : Except Fault α) :
    Alike (ofExcept line x) (ofExcept line x) := by
  cases x with
  | ok a => exact alike_pure a
  | error f => exact alike_fault line f

lemma Alike.bind {x : ExecOf (List Statement) α} {y : ExecOf (List Phrase) α}
    {f : α → ExecOf (List Statement) β} {g : α → ExecOf (List Phrase) β} (h : Alike x y)
    (hf : ∀ a, Alike (f a) (g a)) : Alike (x >>= f) (y >>= g) := by
  intro s m unfolds
  change Corresponds (EStateM.bind x f s) (EStateM.bind y g m)
  rcases (h s m unfolds).split with ⟨a, t, n, hx, hy, unfolds'⟩ | ⟨e, t, n, hx, hy, unfolds'⟩
  · rw [EStateM.bind, EStateM.bind, hx, hy]
    exact hf a t n unfolds'
  · rw [EStateM.bind, EStateM.bind, hx, hy]
    exact .error e unfolds'

lemma alike_lookup (scope : Nat) (name : String) (line : Nat) :
    Alike (lookup scope name line) (lookup scope name line) := by
  intro s m h
  simp only [lookup, h.scopes]
  split
  · exact .ok _ h
  · exact .error _ h

lemma alike_declare (scope : Nat) (name : String) (value : Value) :
    Alike (declare scope name value) (declare scope name value) := by
  intro s m h
  obtain ⟨codes, hcodes, rfl⟩ := h.shape
  exact .ok _ ⟨hcodes, rfl, rfl, rfl, rfl, rfl⟩

lemma alike_assign (scope : Nat) (name : String) (value : Value) (line : Nat) :
    Alike (assign scope name value line) (assign scope name value line) := by
  intro s m h
  obtain ⟨codes, hcodes, rfl⟩ := h.shape
  simp only [assign]
  split
  · exact .ok _ ⟨hcodes, rfl, rfl, rfl, rfl, rfl⟩
  · exact .error _ h

lemma alike_openScope (parent : Nat) (bindings : Bindings) :
    Alike (openScope parent bindings) (openScope parent bindings) := by
  intro s m h
  obtain ⟨codes, hcodes, rfl⟩ := h.shape
  exact .ok _ ⟨hcodes, rfl, rfl, rfl, rfl, rfl⟩

/-- The code of a new function is unfolded with it. -/
lemma alike_makeFunction {c : Code (List Statement)} {d : Code (List Phrase)} (h : c.Unfolds d)
    (scope : Nat) : Alike (makeFunction c scope) (makeFunction d scope) := by
  intro s m same
  have size := same.codes_size
  obtain ⟨codes, hcodes, rfl⟩ := same.shape
  obtain ⟨name, parameters, body⟩ := d
  obtain ⟨rfl, rfl, hbody⟩ := h
  have pushed : List.Forall₂ Code.Unfolds (s.codes.push c).toList
      (codes.push ⟨c.name, c.parameters, body⟩).toList := by
    simpa only [Array.toList_push] using
      List.rel_append hcodes (.cons ⟨rfl, rfl, hbody⟩ .nil)
  have after : Corresponds (makeFunction c scope s) (.ok (.function ⟨c.name.name,
      c.parameters.length, s.codes.size, scope⟩) ⟨s.scopes, codes.push ⟨c.name, c.parameters, body⟩,
        s.calls, s.rand, s.console, s.now⟩) :=
    .ok _ ⟨pushed, rfl, rfl, rfl, rfl, rfl⟩
  rw [← size] at after
  exact after

lemma alike_print (text : String) : Alike (print text) (print text) := by
  intro s m h
  obtain ⟨codes, hcodes, rfl⟩ := h.shape
  exact .ok _ ⟨hcodes, rfl, rfl, rfl, rfl, rfl⟩

lemma alike_read : Alike read read := by
  intro s m h
  obtain ⟨codes, hcodes, rfl⟩ := h.shape
  exact .ok _ ⟨hcodes, rfl, rfl, rfl, rfl, rfl⟩

lemma alike_rand : Alike rand rand := by
  intro s m h
  obtain ⟨codes, hcodes, rfl⟩ := h.shape
  exact .ok _ ⟨hcodes, rfl, rfl, rfl, rfl, rfl⟩

lemma alike_time (f : Native) : Alike (time f) (time f) := by
  intro s m h
  obtain ⟨codes, hcodes, rfl⟩ := h.shape
  cases f <;> exact .ok _ ⟨hcodes, rfl, rfl, rfl, rfl, rfl⟩

end Exec

open Exec

lemma Atom.alike_evaluate (scope line : Nat) (a : Atom) :
    Alike (a.evaluate scope line) (a.evaluate scope line) := by
  cases a with
  | identifier name => exact alike_lookup scope name.name line
  | _ => exact alike_pure _

namespace Run

lemma alike_checkArity (expected actual line : Nat) :
    Alike (checkArity expected actual line) (checkArity expected actual line) := by
  simp only [checkArity]
  split
  · exact alike_pure ()
  · exact alike_fault line _

lemma alike_native (f : Native) (arguments : List Value) (line : Nat) :
    Alike (native f arguments line) (native f arguments line) := by
  exact (alike_checkArity f.arity arguments.length line).bind fun _ =>
    (alike_time f).bind fun _ => alike_ofExcept line _

end Run

end Lox
