import Lox.Proofs.Evaluation.Names
import Mathlib.Logic.Basic
import Mathlib.Logic.Relation

/-!
Chains of scopes. Where each scope but the globals lies in an older one, the way outward from any
scope ends at the globals, and a name is found if and only if a scope on the way binds it.
-/

namespace Lox

namespace Scopes

/-- A scope lies directly in another one. -/
def LiesIn (scopes : Scopes) (i p : Nat) : Prop :=
  ∃ cell, scopes[i]? = some cell ∧ cell.parent = some p

/-- The second scope is on the way outward from the first one. -/
def Chain (scopes : Scopes) : Nat → Nat → Prop :=
  Relation.ReflTransGen scopes.LiesIn

/-- A scope has a binding for a name. -/
def HasName (scopes : Scopes) (i : Nat) (name : String) : Prop :=
  ∃ bound, scopes.names? i = some bound ∧ name ∈ bound

/-- The globals lie in no scope, and every other scope lies in one that is older. -/
structure Rooted (scopes : Scopes) : Prop where
  globals : ∃ cell, scopes[globalScope]? = some cell ∧ cell.parent = none
  older {i : Nat} {cell : Scope} :
    scopes[i]? = some cell → i ≠ globalScope → ∃ p < i, cell.parent = some p

/-- Every scope that lies in another one lies in an older one. -/
def Layered (scopes : Scopes) : Prop :=
  ∀ i p, scopes.LiesIn i p → p < i

variable {scopes : Scopes}

lemma hasName_iff {i : Nat} {name : String} {cell : Scope} (there : scopes[i]? = some cell) :
    scopes.HasName i name ↔ cell.bindings.lookup name ≠ none := by
  simp only [HasName, names?, there, Option.map_some, Option.some.injEq, exists_eq_left']
  constructor
  · intro bound unbound
    obtain ⟨entry, within, rfl⟩ := List.mem_map.mp bound
    exact absurd (List.lookup_eq_none_iff.mp unbound entry within) (by simp)
  · intro bound
    obtain ⟨v, found⟩ := Option.ne_none_iff_exists'.mp bound
    exact Bindings.mem_names_of_lookup found

/-- The number of a scope bounds the way outward. -/
lemma Layered.findWithin_eq (layered : scopes.Layered) (name : String) {depth depth' i : Nat}
    (enough : i < depth) (enough' : i < depth') :
    scopes.findWithin name depth i = scopes.findWithin name depth' i := by
  induction depth generalizing depth' i with
  | zero => exact absurd enough (Nat.not_lt_zero i)
  | succ depth ih =>
    obtain ⟨depth', rfl⟩ := Nat.exists_eq_add_one_of_ne_zero (Nat.ne_zero_of_lt enough')
    rw [Scopes.findWithin, Scopes.findWithin]
    cases there : scopes[i]? with
    | none => rfl
    | some cell =>
      cases up : cell.parent with
      | none => simp only [up]
      | some p =>
        have lt : p < i := layered i p ⟨cell, there, up⟩
        have outer : scopes.findWithin name depth p = scopes.findWithin name depth' p :=
          ih (by omega) (by omega)
        simp only [up, outer]

namespace Rooted

lemma declare (h : scopes.Rooted) (i : Nat) (name : String) (v : Value) :
    Scopes.Rooted (scopes.declare i name v) := by
  constructor
  · obtain ⟨cell, there, root⟩ := h.globals
    simp only [Scopes.declare, Array.getElem?_modify, there]
    split
    · exact ⟨_, rfl, root⟩
    · exact ⟨cell, rfl, root⟩
  · intro j cell found inner
    simp only [Scopes.declare, Array.getElem?_modify] at found
    split at found
    · obtain ⟨old, there, rfl⟩ := Option.map_eq_some_iff.mp found
      obtain ⟨p, lt, up⟩ := h.older there inner
      exact ⟨p, lt, up⟩
    · exact h.older found inner

lemma opened (h : scopes.Rooted) {i : Nat} (there : i < scopes.size) (bs : Bindings) :
    Scopes.Rooted (scopes.opened (some i) bs).2 := by
  constructor
  · obtain ⟨cell, found, root⟩ := h.globals
    have other : globalScope ≠ scopes.size := Nat.ne_of_lt (Nat.zero_lt_of_lt there)
    exact ⟨cell, by simpa [Scopes.opened, Array.getElem?_push, other] using found, root⟩
  · intro j cell found inner
    simp only [Scopes.opened, Array.getElem?_push] at found
    split at found
    · next last =>
      cases found
      exact ⟨i, last ▸ there, rfl⟩
    · exact h.older found inner

lemma liesIn_lt (h : scopes.Rooted) {i p : Nat} (up : scopes.LiesIn i p) : p < i := by
  obtain ⟨cell, there, parent⟩ := up
  obtain rfl | inner := eq_or_ne i globalScope
  · obtain ⟨root, found, none⟩ := h.globals
    cases there.symm.trans found
    cases none.symm.trans parent
  · obtain ⟨q, lt, parent'⟩ := h.older there inner
    cases parent.symm.trans parent'
    exact lt

/-- The scopes of a session are layered, in one tree. -/
lemma layered (h : scopes.Rooted) : scopes.Layered :=
  fun _ _ => h.liesIn_lt

/-- No way outward goes on for ever. -/
lemma wellFounded (h : scopes.Rooted) : WellFounded fun p i => scopes.LiesIn i p :=
  Subrelation.wf h.liesIn_lt Nat.lt_wfRel.wf

/-- The way outward from every scope ends at the globals. -/
lemma chain_globals (h : scopes.Rooted) {i : Nat} (there : i < scopes.size) :
    scopes.Chain i globalScope := by
  induction i using Nat.strongRecOn with
  | ind i ih =>
    obtain rfl | inner := eq_or_ne i globalScope
    · exact .refl
    · obtain ⟨p, lt, parent⟩ := h.older (Array.getElem?_eq_getElem there) inner
      exact .head ⟨_, Array.getElem?_eq_getElem there, parent⟩ (ih p lt (Nat.lt_trans lt there))

lemma find?_eq (h : scopes.Rooted) (name : String) {depth i : Nat} (enough : i < depth) :
    scopes.findWithin name depth i = scopes.find? i name :=
  h.layered.findWithin_eq name enough (Nat.lt_succ_self i)

/-- A name means nothing in a scope if and only if no scope on the way outward binds it. -/
lemma find?_eq_none_iff (h : scopes.Rooted) {i : Nat} {name : String} :
    scopes.find? i name = none ↔ ∀ j, scopes.Chain i j → ¬scopes.HasName j name := by
  induction i using Nat.strongRecOn with
  | ind i ih =>
    rw [Scopes.find?, Scopes.findWithin]
    cases there : scopes[i]? with
    | none =>
      refine iff_of_true rfl fun j way => ?_
      obtain rfl | ⟨p, ⟨cell, found, -⟩, -⟩ := way.cases_head
      · simp [HasName, names?, there]
      · cases there.symm.trans found
    | some cell =>
      -- The scope itself decides, unless it has no binding; then its parent does.
      have here : (∀ j, scopes.Chain i j → ¬scopes.HasName j name) ↔
          cell.bindings.lookup name = none ∧
            ∀ p, cell.parent = some p → ∀ j, scopes.Chain p j → ¬scopes.HasName j name := by
        constructor
        · intro nowhere
          have unbound := nowhere i .refl
          rw [hasName_iff there, not_not] at unbound
          exact ⟨unbound, fun p up j way => nowhere j (.head ⟨cell, there, up⟩ way)⟩
        · rintro ⟨unbound, outer⟩ j way
          obtain rfl | ⟨p, ⟨cell', found, up⟩, way⟩ := way.cases_head
          · rwa [hasName_iff there, not_not]
          · cases there.symm.trans found
            exact outer p up j way
      rw [here]
      cases bound : cell.bindings.lookup name with
      | some v => simp [bound]
      | none =>
        cases up : cell.parent with
        | none => simp [bound, up]
        | some p =>
          have lt : p < i := h.liesIn_lt ⟨cell, there, up⟩
          simp only [bound, up, h.find?_eq name lt, ih p lt, true_and, Option.some.injEq,
            forall_eq']

lemma get?_eq_none_iff (h : scopes.Rooted) {i : Nat} {name : String} :
    scopes.get? i name = none ↔ ∀ j, scopes.Chain i j → ¬scopes.HasName j name := by
  rw [Scopes.get?, Option.map_eq_none_iff, h.find?_eq_none_iff]

/-- What is bound globally means something in every scope. -/
lemma get?_of_global (h : scopes.Rooted) {i : Nat} {name : String} (there : i < scopes.size)
    (bound : scopes.HasName globalScope name) : ∃ v, scopes.get? i name = some v :=
  Option.ne_none_iff_exists'.mp fun none =>
    h.get?_eq_none_iff.mp none globalScope (h.chain_globals there) bound

end Rooted

end Scopes

end Lox
