import Lox.Proofs.Evaluation.Sessions

/-!
What a run can come to. From the scope of a statement, the scopes that lie around it and those of
the functions that are bound on the way are all that its run touches, whatever it calls and however
it ends; and of the functions it leaves there, none comes from any other scope that was there.
-/

namespace Lox

namespace Scopes

/-- A scope binds a function. -/
def Binds (scopes : Scopes) (i : Nat) (f : FunctionObject) : Prop :=
  ∃ cell name, scopes[i]? = some cell ∧ (name, Value.function f) ∈ cell.bindings

/-- A scope lies in another one, or binds a function that was declared in it. -/
inductive Leads (scopes : Scopes) (i : Nat) : Nat → Prop
  | parent {p : Nat} {cell : Scope} :
    scopes[i]? = some cell → cell.parent = some p → Leads scopes i p
  | closure {f : FunctionObject} : scopes.Binds i f → Leads scopes i f.scope

/-- A way leads from one scope to another. -/
def Reaches (scopes : Scopes) : Nat → Nat → Prop :=
  Relation.ReflTransGen scopes.Leads

end Scopes

/-- The scopes that are reached from one scope, and all later ones. -/
def Region.reached (scopes : Scopes) (env : Nat) : Region :=
  ⟨fun i => scopes.Reaches env i ∨ scopes.size ≤ i, scopes, .inr⟩

variable {s : State}

/-- What is there and is in the region is reached. -/
lemma Region.reached_there {scopes : Scopes} {env i : Nat} {cell : Scope}
    (inside : (reached scopes env).holds i) (there : scopes[i]? = some cell) :
    scopes.Reaches env i := by
  obtain ⟨known, -⟩ := Array.getElem?_eq_some_iff.mp there
  exact inside.resolve_right (Nat.not_le_of_lt known)

lemma State.Sane.reached (sane : s.Sane) (env : Nat) : (Region.reached s.scopes env).Frames s where
  scopes := by
    constructor
    · intro i p cell inside there up
      exact .inl ((Region.reached_there inside there).tail (.parent there up))
    · rintro i cell ⟨name, v⟩ inside there bound f rfl
      obtain ⟨-, scope, number⟩ := sane.scopes.value trivial there bound f rfl
      have onward := (Region.reached_there inside there).tail (.closure ⟨cell, name, there, bound⟩)
      exact ⟨.inl onward, scope, number⟩
  grown := Nat.le_refl _
  others _ _ := rfl
  codes := sane.codes

/-- A statement that is written in a text without mistakes is one that the grammar may derive. -/
lemma Statement.Written.derived {st : Statement} (h : st.Written) :
    ∃ inside, st.Derived inside := by
  induction h with
  | top read within =>
    obtain ⟨-, ps, derived, denote⟩ := Source.program_sound read
    exact ⟨false, denote.derived derived.fit _ within⟩
  | part _ within ih =>
    obtain ⟨inside, derived⟩ := ih
    exact ⟨_, derived.part within⟩

end Lox
