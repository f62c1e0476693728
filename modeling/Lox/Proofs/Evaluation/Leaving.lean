import Lox.Proofs.Evaluation.Fuel
import Lox.Proofs.Evaluation.Parts

/-!
Leaving statements. A `return` ends all the statements that enclose it, up to the nearest call, and
so does an error: nothing that follows is run, and the state stays as it is.
-/

namespace Lox

variable {α β : Type} {s t : State} {v : Value} {r : EStateM.Result Stop State Completion}

namespace Exec

lemma bind_ends {x : Exec α} {f : α → Exec β} {b : β} (h : (x >>= f) s = .ok b t) :
    ∃ a u, x s = .ok a u ∧ f a u = .ok b t := by
  change EStateM.bind x f s = _ at h
  rw [EStateM.bind] at h
  cases hx : x s with
  | ok a u =>
    rw [hx] at h
    exact ⟨a, u, rfl, h⟩
  | error stop u =>
    rw [hx] at h
    cases h

end Exec

/-- An end after which the statements that follow are not run. -/
inductive Run.Leaves : EStateM.Result Stop State Completion → Prop
  | returned (v : Value) (t : State) : Leaves (.ok (.returned v) t)
  | stopped (stop : Stop) (t : State) : Leaves (.error stop t)

/-- With all fuel from some point on, a part that is made of statements ends so. -/
def Part.Completes : Part → State → EStateM.Result Stop State Completion → Prop
  | .node _ _ _, _, _ | .call _ _ _, _, _ => False
  | .statement scope st, s, r => Settles (fun fuel => Run.statement fuel scope st) s r
  | .statements scope ss, s, r => Settles (fun fuel => Run.statements fuel scope ss) s r
  | .whileLoop scope condition body, s, r =>
    Settles (fun fuel => Run.whileLoop fuel scope condition body) s r
  | .characters scope name body text, s, r =>
    Settles (fun fuel => Run.characters fuel scope name body text) s r

namespace Settles

/-- What follows a statement is not run once the statement has been left. -/
lemma bind_leaves {x : Nat → Exec Completion} {f : Nat → Completion → Exec Completion}
    (leaves : Run.Leaves r) (passes : ∀ fuel v, f fuel (.returned v) = pure (.returned v))
    (h : Settles x s r) : Settles (fun fuel => x fuel >>= f fuel) s r := by
  cases leaves with
  | returned v t => exact h.bind_ok ⟨0, fun fuel _ => congrFun (passes fuel v) t⟩
  | stopped stop t => exact h.bind_error

lemma nested {x : Nat → Exec α} {a : α}
    (h : Settles x { s with calls := s.calls + 1 } (.ok a t)) :
    Settles (fun fuel => Exec.nested (x fuel)) s (.ok a { t with calls := t.calls - 1 }) := by
  obtain ⟨least, ends⟩ := h
  refine ⟨least, fun fuel le => ?_⟩
  simp only [Exec.nested, ends fuel le]

end Settles

namespace Moment

variable {m m' : Moment}

lemma Leads.bodies_le (h : m.Leads m') : m.bodies ≤ m'.bodies := by
  cases h <;> first | exact Nat.le_refl _ | exact Nat.le_succ _

lemma bodies_le (way : Relation.ReflTransGen Leads m m') : m.bodies ≤ m'.bodies := by
  induction way with
  | refl => exact Nat.le_refl _
  | tail _ leads ih => exact Nat.le_trans ih leads.bodies_le

/-- A part that is left leaves the part in which it lies, unless this one is a call. -/
lemma Leads.completes (h : m.Leads m') (leaves : Run.Leaves r) (same : m'.bodies = m.bodies)
    (ends : m'.part.Completes m'.state r) : m.part.Completes m.state r := by
  cases h with
  | operand | call | subject | condition => exact ends.elim
  | body => exact absurd same (Nat.succ_ne_self _)
  | block run =>
    refine .of_succ ?_
    simp only [Run.statement]
    exact .bind_ok (.const run) ends
  | @success scope x success failure fuel v n s t run holds =>
    refine .of_succ ?_
    cases failure with
    | none =>
      simp only [Run.statement]
      refine (Run.settles_node run).bind_ok ?_
      simp only [holds, if_true]
      exact ends
    | some failure =>
      simp only [Run.statement]
      refine (Run.settles_node run).bind_ok ?_
      simp only [holds, if_true]
      exact ends
  | failure run holds =>
    refine .of_succ ?_
    simp only [Run.statement]
    refine (Run.settles_node run).bind_ok ?_
    simp only [holds, Bool.false_eq_true, if_false]
    exact ends
  | whileLoop =>
    refine .of_succ ?_
    simp only [Run.statement]
    exact ends
  | stringLoop run =>
    refine .of_succ ?_
    simp only [Run.statement]
    exact (Run.settles_node run).bind_ok ends
  | first =>
    refine .of_succ ?_
    simp only [Run.statements]
    exact .bind_leaves leaves (fun _ _ => rfl) ends
  | others run =>
    refine .of_succ ?_
    simp only [Run.statements]
    exact (Run.settles_statement run).bind_ok ends
  | round run holds =>
    refine .of_succ ?_
    simp only [Run.whileLoop]
    refine (Run.settles_node run).bind_ok ?_
    simp only [holds, if_true]
    exact .bind_leaves leaves (fun _ _ => rfl) ends
  | again run holds run' =>
    refine .of_succ ?_
    simp only [Run.whileLoop]
    refine (Run.settles_node run).bind_ok ?_
    simp only [holds, if_true]
    exact (Run.settles_statement run').bind_ok ends
  | character run =>
    refine .of_succ ?_
    simp only [Run.characters]
    exact .bind_ok (.const run) (.bind_leaves leaves (fun _ _ => rfl) ends)
  | next run run' =>
    refine .of_succ ?_
    simp only [Run.characters]
    exact .bind_ok (.const run) ((Run.settles_statement run').bind_ok ends)

/-- What is left within the same body of a function leaves everything that encloses it there. -/
lemma onward_completes (way : Relation.ReflTransGen Leads m m') (leaves : Run.Leaves r)
    (same : m'.bodies = m.bodies) (ends : m'.part.Completes m'.state r) :
    m.part.Completes m.state r := by
  induction way using Relation.ReflTransGen.head_induction_on with
  | refl => exact ends
  | head leads way ih =>
    have here := leads.bodies_le
    have there := bodies_le way
    exact leads.completes leaves (by omega) (ih (by omega))

variable {f : Value} {vs : List Value} {line : Nat}

/-- What lies directly in a call is the body of its function. -/
lemma Leads.call_bodies (h : m.Leads m') (here : m.part = .call f vs line) :
    m'.bodies = m.bodies + 1 := by
  cases h with
  | body => rfl
  | _ => cases here

lemma Leads.call_value (h : m.Leads m') (here : m.part = .call f vs line)
    (returns : m'.part.Completes m'.state (.ok (.returned v) t)) :
    Settles (fun fuel => Run.call fuel f vs line) m.state
      (.ok v { t with calls := t.calls - 1 }) := by
  cases h with
  | @body f vs line code scope n s u found entered =>
    cases here
    refine .of_succ ?_
    simp only [Run.call]
    refine .bind_ok (a := s) (.const rfl) ?_
    simp only [found]
    exact .bind_ok (.const entered) (returns.nested.bind_ok (.const rfl))
  | _ => cases here

/-- A call has the value that is returned within the body of its function, and in no other body. -/
lemma onward_call_value (way : Relation.ReflTransGen Leads m m') (here : m.part = .call f vs line)
    (inside : m'.bodies = m.bodies + 1)
    (returns : m'.part.Completes m'.state (.ok (.returned v) t)) :
    Settles (fun fuel => Run.call fuel f vs line) m.state
      (.ok v { t with calls := t.calls - 1 }) := by
  cases way using Relation.ReflTransGen.head_induction_on with
  | refl => exact absurd inside (by omega)
  | head leads way _ =>
    have entered := leads.call_bodies here
    exact leads.call_value here
      (onward_completes way (.returned v t) (inside.trans entered.symm) returns)

end Moment

end Lox
