import Lox.Proofs.Evaluation.Lasting

/-!
The nearest binding. In a tree of scopes a name means its nearest binding on the way outward.
Assignment changes that binding, for all scopes whose nearest binding it is; a declaration is seen
from the scopes whose way outward comes to it before any other binding of the name.
-/

namespace Lox

namespace Bindings

lemma lookup_cons (name bound : String) (v : Value) (bs : Bindings) :
    List.lookup name ((bound, v) :: bs) = if name = bound then some v else bs.lookup name := by
  rw [List.lookup_cons]
  by_cases same : name = bound
  · rw [if_pos same, beq_iff_eq.mpr same]
  · rw [if_neg same, beq_eq_false_iff_ne.mpr same]

lemma lookup_set (name other : String) (v : Value) (bs : Bindings) :
    (Bindings.set name v bs).lookup other = if other = name then some v else bs.lookup other := by
  induction bs with
  | nil => exact lookup_cons other name v []
  | cons first bs ih =>
    obtain ⟨bound, old⟩ := first
    rw [Bindings.set]
    by_cases here : bound = name
    · subst here
      rw [if_pos rfl, lookup_cons, lookup_cons]
      split <;> rfl
    · rw [if_neg here, lookup_cons, lookup_cons, ih]
      by_cases same : other = bound
      · rw [if_pos same, if_pos same, if_neg (same ▸ here)]
      · rw [if_neg same, if_neg same]

end Bindings

namespace Scopes

variable {scopes after : Scopes} {s t h : Nat} {name other : String} {v : Value}

/-- Scopes as they come to be: each is opened at the top or inside an older one, and names are bound
in them. -/
inductive Built : Scopes → Prop
  | empty : Built #[]
  | root {scopes : Scopes} (bs : Bindings) : Built scopes → Built (scopes.opened none bs).2
  | inner {scopes : Scopes} {i : Nat} (bs : Bindings) :
    Built scopes → i < scopes.size → Built (scopes.opened (some i) bs).2
  | declare {scopes : Scopes} (i : Nat) (name : String) (v : Value) :
    Built scopes → Built (scopes.declare i name v)
  | assign {scopes after : Scopes} {i : Nat} {name : String} {v : Value} :
    Built scopes → scopes.assign? i name v = some after → Built after

/-- The second scope is on the way outward from the first one, and no scope before it on the way
binds the name. -/
structure Clear (scopes : Scopes) (name : String) (s h : Nat) : Prop where
  way : scopes.Chain s h
  nearer : ∀ j, scopes.Chain s j → scopes.Chain j h → j ≠ h → ¬scopes.HasName j name

/-- The second scope is the nearest on the way outward from the first one that binds the name. -/
structure Nearest (scopes : Scopes) (name : String) (s h : Nat) : Prop extends
    Clear scopes name s h where
  bound : scopes.HasName h name

lemma liesIn_declare (scopes : Scopes) (i : Nat) (name : String) (v : Value) {j p : Nat} :
    LiesIn (scopes.declare i name v) j p ↔ scopes.LiesIn j p := by
  simp only [LiesIn, Scopes.declare, Array.getElem?_modify]
  split
  · cases scopes[j]? <;> simp
  · rfl

lemma Layered.declare (layered : scopes.Layered) (i : Nat) (name : String) (v : Value) :
    Layered (scopes.declare i name v) :=
  fun j p up => layered j p ((liesIn_declare scopes i name v).mp up)

lemma Layered.opened (layered : scopes.Layered) {parent : Option Nat}
    (older : ∀ p, parent = some p → p < scopes.size) (bs : Bindings) :
    Layered (scopes.opened parent bs).2 := by
  rintro i p ⟨cell, there, up⟩
  simp only [Scopes.opened, Array.getElem?_push] at there
  split at there
  · next last =>
    cases there
    exact last ▸ older p up
  · exact layered i p ⟨cell, there, up⟩

lemma assign?_eq_some (assigned : scopes.assign? s name v = some after) :
    ∃ holder old, scopes.find? s name = some (holder, old) ∧
      after = scopes.declare holder name v := by
  unfold assign? at assigned
  split at assigned
  · next holder old found =>
    cases assigned
    exact ⟨holder, old, found, rfl⟩
  · cases assigned

lemma Built.layered (built : scopes.Built) : scopes.Layered := by
  induction built with
  | empty =>
    rintro i p ⟨cell, there, -⟩
    simp at there
  | root bs _ ih => exact ih.opened (by simp) bs
  | inner bs _ there ih => exact ih.opened (fun p same => Option.some.inj same ▸ there) bs
  | declare i name v _ ih => exact ih.declare i name v
  | assign _ assigned ih =>
    obtain ⟨holder, old, -, rfl⟩ := assign?_eq_some assigned
    exact ih.declare holder _ _

namespace Layered

variable (layered : scopes.Layered)
include layered

lemma chain_le (way : scopes.Chain s h) : h ≤ s := by
  induction way with
  | refl => exact Nat.le_refl _
  | tail _ up ih => exact Nat.le_trans (Nat.le_of_lt (layered _ _ up)) ih

/-- The way to a scope is clear at once, or if the name is not bound at its beginning and the rest
of the way is clear. -/
lemma clear_iff : scopes.Clear name s h ↔
    s = h ∨ ¬scopes.HasName s name ∧ ∃ p, scopes.LiesIn s p ∧ scopes.Clear name p h := by
  constructor
  · rintro ⟨way, nearer⟩
    rcases way.cases_head with same | ⟨p, up, rest⟩
    · exact .inl same
    · have lower : h < s := Nat.lt_of_le_of_lt (layered.chain_le rest) (layered _ _ up)
      exact .inr ⟨nearer s .refl way (Nat.ne_of_gt lower), p, up, rest,
        fun j from_p => nearer j (.head up from_p)⟩
  · rintro (rfl | ⟨unbound, p, up, clear⟩)
    · refine ⟨.refl, fun j out back differ => absurd ?_ differ⟩
      exact Nat.le_antisymm (layered.chain_le out) (layered.chain_le back)
    · refine ⟨.head up clear.way, fun j out back differ => ?_⟩
      rcases out.cases_head with rfl | ⟨q, up', rest⟩
      · exact unbound
      · obtain ⟨cell, there, parent⟩ := up
        obtain ⟨cell', there', parent'⟩ := up'
        cases there.symm.trans there'
        cases parent.symm.trans parent'
        exact clear.nearer j rest back differ

/-- A name is looked for in a scope, and then in the one in which that lies. -/
lemma find?_cell {cell : Scope} (there : scopes[s]? = some cell) (name : String) :
    scopes.find? s name = match cell.bindings.lookup name with
      | some v => some (s, v)
      | none => cell.parent.bind fun p => scopes.find? p name := by
  rw [find?, findWithin]
  cases bound : cell.bindings.lookup name with
  | some v => simp only [there, bound]
  | none =>
    cases up : cell.parent with
    | none => simp only [there, bound, up, Option.bind_none]
    | some p =>
      have lt : p < s := layered _ _ ⟨cell, there, up⟩
      simp only [there, bound, up, Option.bind_some]
      exact layered.findWithin_eq name lt (Nat.lt_succ_self p)

lemma nearest_iff : scopes.Nearest name s h ↔ ∃ v, scopes.find? s name = some (h, v) := by
  induction s using Nat.strongRecOn with
  | ind s ih =>
    cases there : scopes[s]? with
    | none =>
      have unknown : scopes.find? s name = none := by simp only [find?, findWithin, there]
      simp only [unknown, reduceCtorEq, exists_false, iff_false]
      rintro ⟨clear, bound⟩
      rcases layered.clear_iff.mp clear with rfl | ⟨-, p, ⟨cell, found, -⟩, -⟩
      · simp [HasName, names?, there] at bound
      · cases there.symm.trans found
    | some cell =>
      have step : scopes.Nearest name s h ↔ s = h ∧ scopes.HasName s name ∨
          ¬scopes.HasName s name ∧ ∃ p, scopes.LiesIn s p ∧ scopes.Nearest name p h := by
        constructor
        · rintro ⟨clear, bound⟩
          rcases layered.clear_iff.mp clear with rfl | ⟨unbound, p, up, rest⟩
          · exact .inl ⟨rfl, bound⟩
          · exact .inr ⟨unbound, p, up, rest, bound⟩
        · rintro (⟨rfl, bound⟩ | ⟨unbound, p, up, rest, bound⟩)
          · exact ⟨layered.clear_iff.mpr (.inl rfl), bound⟩
          · exact ⟨layered.clear_iff.mpr (.inr ⟨unbound, p, up, rest⟩), bound⟩
      rw [step, layered.find?_cell there, hasName_iff there]
      cases bound : cell.bindings.lookup name with
      | some v => simp
      | none =>
        cases up : cell.parent with
        | none => simp [LiesIn, there, up]
        | some p =>
          have outer := ih p (layered _ _ ⟨cell, there, up⟩)
          simp [LiesIn, there, up, outer]

lemma nearest_unique (near : scopes.Nearest name s h) (near' : scopes.Nearest name s t) :
    h = t := by
  obtain ⟨v, found⟩ := layered.nearest_iff.mp near
  obtain ⟨w, found'⟩ := layered.nearest_iff.mp near'
  cases found.symm.trans found'
  rfl

/-- Other names, and scopes from which the way to a scope is not clear, do not see a declaration in
it. -/
lemma find?_declare (known : s < scopes.size) (name other : String) (v : Value) (t : Nat) :
    (other = name ∧ scopes.Clear name t s →
      (scopes.declare s name v).find? t other = some (s, v)) ∧
    (¬(other = name ∧ scopes.Clear name t s) →
      (scopes.declare s name v).find? t other = scopes.find? t other) := by
  induction t using Nat.strongRecOn with
  | ind t ih =>
    have layered' := layered.declare s name v
    cases there : scopes[t]? with
    | none =>
      have unknown : (scopes.declare s name v)[t]? = none := by
        simp [Scopes.declare, Array.getElem?_modify, there]
      refine ⟨fun seen => ?_, fun _ => by simp only [find?, findWithin, there, unknown]⟩
      rcases layered.clear_iff.mp seen.2 with rfl | ⟨-, p, ⟨cell, found, -⟩, -⟩
      · simp [known] at there
      · cases there.symm.trans found
    | some cell =>
      by_cases here : s = t
      · subst here
        have there' : (scopes.declare s name v)[s]? =
            some { cell with bindings := Bindings.set name v cell.bindings } := by
          simp only [Scopes.declare, Array.getElem?_modify, if_true, there, Option.map_some]
        have clear : scopes.Clear name s s := layered.clear_iff.mpr (.inl rfl)
        rw [layered'.find?_cell there', layered.find?_cell there, Bindings.lookup_set]
        refine ⟨fun seen => by rw [if_pos seen.1], fun unseen => ?_⟩
        have differ : other ≠ name := fun same => unseen ⟨same, clear⟩
        rw [if_neg differ]
        cases cell.bindings.lookup other with
        | some w => rfl
        | none =>
          cases up : cell.parent with
          | none => rfl
          | some p =>
            exact (ih p (layered _ _ ⟨cell, there, up⟩)).2 fun both => differ both.1
      · have there' : (scopes.declare s name v)[t]? = some cell := by
          simp [Scopes.declare, Array.getElem?_modify, here, there]
        rw [layered'.find?_cell there', layered.find?_cell there]
        -- The way is clear from here if the name is not bound here and it is clear from outside.
        have step : scopes.Clear name t s ↔ cell.bindings.lookup name = none ∧
            ∃ p, cell.parent = some p ∧ scopes.Clear name p s := by
          rw [layered.clear_iff, hasName_iff there, not_not]
          simp [LiesIn, there, Ne.symm here]
        rw [step]
        cases bound : cell.bindings.lookup other with
        | some w =>
          refine ⟨?_, fun _ => rfl⟩
          rintro ⟨rfl, unbound, -⟩
          cases bound.symm.trans unbound
        | none =>
          cases up : cell.parent with
          | none => simp
          | some p =>
            have outer := ih p (layered _ _ ⟨cell, there, up⟩)
            refine ⟨?_, fun unseen => outer.2 ?_⟩
            · rintro ⟨rfl, -, q, same, clear⟩
              cases same
              exact outer.1 ⟨rfl, clear⟩
            · rintro ⟨rfl, clear⟩
              exact unseen ⟨rfl, bound, p, rfl, clear⟩

/-- What is assigned is what the name means in the scopes that share the binding. -/
lemma find?_assign (assigned : scopes.assign? s name v = some after) (other : String) (t : Nat) :
    (other = name ∧ (∃ h, scopes.Nearest name s h ∧ scopes.Nearest name t h) →
      (after.find? t other).map (·.2) = some v) ∧
    (¬(other = name ∧ ∃ h, scopes.Nearest name s h ∧ scopes.Nearest name t h) →
      after.find? t other = scopes.find? t other) := by
  obtain ⟨holder, old, found, rfl⟩ := assign?_eq_some assigned
  have near : scopes.Nearest name s holder := layered.nearest_iff.mpr ⟨old, found⟩
  obtain ⟨bound, names, -⟩ := near.bound
  obtain ⟨cell, there, -⟩ := Option.map_eq_some_iff.mp names
  have known : holder < scopes.size := (Array.getElem?_eq_some_iff.mp there).1
  have shared : (∃ h, scopes.Nearest name s h ∧ scopes.Nearest name t h) ↔
      scopes.Clear name t holder := by
    constructor
    · rintro ⟨h, near', seen⟩
      exact (layered.nearest_unique near near') ▸ seen.toClear
    · exact fun clear => ⟨holder, near, clear, near.bound⟩
  have declared := layered.find?_declare known name other v t
  rw [shared]
  exact ⟨fun seen => by rw [declared.1 seen, Option.map_some], declared.2⟩

end Layered

lemma assign?_isSome (scopes : Scopes) (s : Nat) (name : String) (v : Value) :
    (scopes.assign? s name v).isSome = (scopes.get? s name).isSome := by
  simp only [assign?, get?, Option.isSome_map]
  cases scopes.find? s name <;> rfl

end Scopes

/-- A step of a run assigns as scopes do, and changes nothing where the name is not bound. -/
lemma Exec.assign_eq {Body : Type} (s : Nat) (name : String) (v : Value) (line : Nat)
    (m : Machine Body) :
    assign s name v line m = match m.scopes.assign? s name v with
      | some after => .ok () { m with scopes := after }
      | none => .error (.error ⟨.undefined name, line⟩) m := by
  simp only [assign, Scopes.assign?]
  cases m.scopes.find? s name <;> rfl

open Scopes in
/-- The laws of the nearest binding. Assignment succeeds if and only if the name means something,
and a step that fails to assign changes nothing. After an assignment, the name has the new value in
just those scopes whose nearest binding of it is that of the scope of the assignment; after a
declaration, in just those whose way outward comes to the scope of the declaration before it comes
to any other binding of the name. All else means what it meant, and no assignment changes which
names a scope binds. -/
theorem Scopes.Built.nearest_binding {scopes : Scopes} (built : scopes.Built) {s : Nat}
    (known : s < scopes.size) (t : Nat) (name other : String) (v : Value) :
    ((scopes.assign? s name v).isSome ↔ (scopes.get? s name).isSome) ∧
    (∀ (m : State) line, m.scopes = scopes →
      Exec.assign s name v line m = match scopes.assign? s name v with
        | some after => .ok () { m with scopes := after }
        | none => .error (.error ⟨.undefined name, line⟩) m) ∧
    (∀ after, scopes.assign? s name v = some after →
      (other = name ∧ (∃ h, scopes.Nearest name s h ∧ scopes.Nearest name t h) →
        after.get? t other = some v) ∧
      (¬(other = name ∧ ∃ h, scopes.Nearest name s h ∧ scopes.Nearest name t h) →
        after.get? t other = scopes.get? t other)) ∧
    (other = name ∧ scopes.Clear name t s →
      (scopes.declare s name v).get? t other = some v) ∧
    (¬(other = name ∧ scopes.Clear name t s) →
      (scopes.declare s name v).get? t other = scopes.get? t other) ∧
    ∀ after, scopes.assign? s name v = some after → ∀ i, after.names? i = scopes.names? i := by
  have layered := built.layered
  have declared := layered.find?_declare known name other v t
  refine ⟨by rw [assign?_isSome], ?_, fun after assigned => ⟨?_, ?_⟩, fun seen => ?_,
    fun unseen => ?_, ?_⟩
  · rintro m line rfl
    exact Exec.assign_eq s name v line m
  · exact (layered.find?_assign assigned other t).1
  · intro unshared
    simp only [get?, (layered.find?_assign assigned other t).2 unshared]
  · simp only [get?, declared.1 seen, Option.map_some]
  · simp only [get?, declared.2 unseen]
  · intro after assigned i
    obtain ⟨holder, old, found, rfl⟩ := assign?_eq_some assigned
    exact names?_assign v found i

namespace Scopes

/-- Two scopes in which a name is bound, one inside the other, with a scope inside each of them. -/
def shadowing : Scopes :=
  let outer := (opened #[] none [("x", .nil)]).2
  let inner := (opened outer (some 0) [("x", .nil)]).2
  (opened (opened inner (some 1) []).2 (some 0) []).2

lemma shadowing_built : shadowing.Built :=
  .inner [] (.inner [] (.inner _ (.root _ .empty) (by decide)) (by decide)) (by decide)

/-- Assignment inside the inner scope is seen in the inner scope and nowhere outside; a declaration
in the outer scope is seen where the inner one is not on the way. -/
theorem nearest_binding_shadowing :
    shadowing.Built ∧ 2 < shadowing.size ∧ 0 < shadowing.size ∧
    (∀ after, shadowing.assign? 2 "x" (.bool true) = some after →
      after.get? 1 "x" = some (.bool true) ∧ after.get? 3 "x" = shadowing.get? 3 "x") ∧
    (shadowing.declare 0 "x" (.bool true)).get? 3 "x" = some (.bool true) := by
  have layered := shadowing_built.layered
  have near {t h : Nat} (found : (shadowing.find? t "x").map (·.1) = some h) :
      shadowing.Nearest "x" t h := by
    obtain ⟨⟨holder, v⟩, here, rfl⟩ := Option.map_eq_some_iff.mp found
    exact layered.nearest_iff.mpr ⟨v, here⟩
  have from_inside : shadowing.Nearest "x" 2 1 := near (by decide)
  have known : 2 < shadowing.size := by decide
  have known' : 0 < shadowing.size := by decide
  obtain ⟨-, -, shared, -⟩ :=
    shadowing_built.nearest_binding known 1 "x" "x" (.bool true)
  obtain ⟨-, -, apart, -⟩ :=
    shadowing_built.nearest_binding known 3 "x" "x" (.bool true)
  obtain ⟨-, -, -, seen, -⟩ :=
    shadowing_built.nearest_binding known' 3 "x" "x" (.bool true)
  refine ⟨shadowing_built, known, known', fun after assigned => ⟨?_, ?_⟩, ?_⟩
  · exact (shared after assigned).1 ⟨rfl, 1, from_inside, near (by decide)⟩
  · refine (apart after assigned).2 ?_
    rintro ⟨-, h, inside, outside⟩
    have inner := layered.nearest_unique inside from_inside
    have outer : shadowing.Nearest "x" 3 0 := near (by decide)
    have same := inner.symm.trans (layered.nearest_unique outside outer)
    cases same
  · exact seen ⟨rfl, (near (by decide) : shadowing.Nearest "x" 3 0).toClear⟩

end Scopes

end Lox
