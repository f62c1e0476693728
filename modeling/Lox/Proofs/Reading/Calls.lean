import Lox.Proofs.Reading.Carried
import Lox.Proofs.Reading.Composed
import Lox.Proofs.Reading.Unbounded

/-!
The calls that the rules of the grammar make to one another. A rule calls another one from a state
if its result hangs on what the other one does there. Readers that differ in what one call does, and
nowhere else, have the same results unless they come to that call: it begins after they begin, and
ends before they end.
-/

namespace Lox

open Reading Reader

namespace Reading

/-- Reading never goes back: tokens are only passed, and mistakes are only recorded. -/
structure Before (s t : Reading) : Prop where
  rest : t.rest <:+ s.rest
  last : t.last = s.last
  errors : s.errors.toList <+: t.errors.toList

namespace Before

variable {s t u : Reading}

lemma refl (s : Reading) : Before s s :=
  ⟨List.suffix_refl _, rfl, List.prefix_refl _⟩

lemma trans (h : Before s t) (k : Before t u) : Before s u :=
  ⟨k.rest.trans h.rest, k.last.trans h.last, h.errors.trans k.errors⟩

end Before

lemma Onward.before {s t : Reading} (h : Onward s t) : Before s t :=
  ⟨h.rest, h.last, h.errors⟩

end Reading

namespace Reader

variable {α β : Type} {s : Reading}

/-- The state in which a reader ends, whether it succeeds or fails. -/
def finish (x : Reader α) (s : Reading) : Reading :=
  match x s with
  | .ok _ t | .error _ t => t

lemma finish_ok {x : Reader α} {a : α} {t : Reading} (h : x s = .ok a t) : finish x s = t := by
  rw [finish, h]

lemma finish_error {x : Reader α} {e : SyntaxError} {t : Reading} (h : x s = .error e t) :
    finish x s = t := by
  rw [finish, h]

lemma Goes.finish {x : Reader α} {k : Nat} (h : Goes k x s) : Onward s (x.finish s) := by
  cases run : x s with
  | ok a t => exact finish_ok run ▸ h.onward run
  | error e t => exact finish_error run ▸ h.error run

lemma finish_bind {x : Reader α} {f : α → Reader β} (goes : ∀ a t, Goes 0 (f a) t) :
    (x.finish s).Before ((x >>= f).finish s) := by
  cases run : x s with
  | ok a t =>
    have same : (x >>= f).finish s = (f a).finish t := by
      rw [finish, bind_ok run, finish]
    rw [finish_ok run, same]
    exact (goes a t).finish.before
  | error e t =>
    rw [finish_error run, finish_error (bind_error run)]
    exact .refl t

end Reader

namespace Grammar

/-- How many tokens a rule passes at least, where it succeeds. -/
def Rule.least : Rule → Nat
  | .continuations _ _ | .attempt | .declarations _ => 0
  | _ => 1

/-- The readers without a depth. -/
def readers : Readers
  | .operand => Unbounded.operand
  | .operation power => Unbounded.operation power
  | .continuations power lhs => Unbounded.continuations power lhs
  | .arguments count => Unbounded.arguments count
  | .expression => Unbounded.expression
  | .parameters count => Unbounded.parameters count
  | .statement => Unbounded.statement
  | .declaration => Unbounded.declaration
  | .attempt => recovering Unbounded.declaration
  | .block => Unbounded.block
  | .declarations inBlock => Unbounded.declarations inBlock

/-- The readers without a depth call each other. -/
lemma readers_body : readers.body = readers := by
  funext rule
  cases rule with
  | operand => exact Unbounded.operand_eq.symm
  | operation power => exact (Unbounded.operation_eq power).symm
  | continuations power lhs => exact (Unbounded.continuations_eq power lhs).symm
  | arguments count => exact (Unbounded.arguments_eq count).symm
  | expression => rfl
  | parameters count => exact (Unbounded.parameters_eq count).symm
  | statement => exact Unbounded.statement_eq.symm
  | declaration => exact Unbounded.declaration_eq.symm
  | attempt => rfl
  | block => exact Unbounded.block_eq.symm
  | declarations inBlock => exact (Unbounded.declarations_eq inBlock).symm

lemma readers_goes (rule : Rule) (s : Reading) : Goes rule.least (readers rule) s := by
  have few : s.left < s.left + 1 := Nat.lt_succ_self _
  cases rule with
  | operand => exact (operand_unbounded (Nat.le_refl _) s few).2
  | operation power => exact (operation_unbounded (Nat.le_refl _) power s few).2
  | continuations power lhs => exact (continuations_unbounded (Nat.le_refl _) power lhs s few).2
  | arguments count => exact (arguments_unbounded (Nat.le_refl _) count s few).2
  | expression => exact (expression_unbounded (Nat.le_refl _) s few).2
  | parameters count => exact (parameters_unbounded (Nat.le_refl _) count s few).2
  | statement => exact (statement_unbounded (Nat.le_refl _) s few).2
  | declaration => exact (declaration_unbounded (Nat.le_refl _) s few).2
  | attempt =>
    have goes := (declaration_unbounded (Nat.le_refl _) s few).2
    exact recovering_goes (goes.mono (Nat.zero_le 1))
  | block => exact (block_unbounded (Nat.le_refl _) s few).2
  | declarations inBlock => exact (declarations_unbounded (Nat.le_refl _) inBlock s few).2

/-- A call of a rule, from the state in which it begins. -/
structure Call where
  rule : Rule
  start : Reading

namespace Call

/-- The state in which a call ends. -/
def finish (call : Call) : Reading :=
  (readers call.rule).finish call.start

/-- Readers that may do anything in one call, and elsewhere do what the grammar says. -/
def Spares (call : Call) (R : Readers) : Prop :=
  ∀ other : Call, other ≠ call → R other.rule other.start = readers other.rule other.start

/-- One call is made within another: on what the inner one does hangs what the outer one does. -/
def Leads (outer inner : Call) : Prop :=
  ∃ R, inner.Spares R ∧ R.body outer.rule outer.start ≠ readers outer.rule outer.start

end Call

/-- Two readers differ only through a call, which begins after they do and ends before they do. -/
def DiffersBy {α : Type} (call : Call) (x y : Reader α) : Prop :=
  ∀ s, Goes 0 y s ∧ (x s ≠ y s → s.Before call.start ∧ call.finish.Before (y.finish s))

namespace DiffersBy

variable {α β : Type} {call : Call} {x y : Reader α} {f g : α → Reader β}

/-- A reader that calls nothing. -/
lemma same (goes : ∀ s, Goes 0 x s) : DiffersBy call x x := fun s =>
  ⟨goes s, fun differs => absurd rfl differs⟩

lemma bind (hx : DiffersBy call x y) (hf : ∀ a, DiffersBy call (f a) (g a)) :
    DiffersBy call (x >>= f) (y >>= g) := by
  intro s
  have goes (a : α) (t : Reading) : Goes 0 (g a) t := (hf a t).1
  refine ⟨(hx s).1.bind fun a t _ => goes a t, fun differs => ?_⟩
  by_cases alike : x s = y s
  · cases run : y s with
    | error e t =>
      rw [bind_error run, bind_error (alike.trans run)] at differs
      exact absurd rfl differs
    | ok a t =>
      rw [bind_ok run, bind_ok (alike.trans run)] at differs
      obtain ⟨starts, ends⟩ := (hf a t).2 differs
      have last : (y >>= g).finish s = (g a).finish t := by
        rw [Reader.finish, bind_ok run, Reader.finish]
      exact ⟨((hx s).1.onward run).before.trans starts, last ▸ ends⟩
  · obtain ⟨starts, ends⟩ := (hx s).2 alike
    exact ⟨starts, ends.trans (finish_bind goes)⟩

/-- The depth of functions makes no difference to what has been read before. -/
lemma insideFunction (h : DiffersBy call x y) :
    DiffersBy call (insideFunction x) (insideFunction y) := by
  intro s
  have goes : Goes 0 (Reader.insideFunction y) s := by
    cases run : y s.deeper with
    | ok a t =>
      have onward := ((h s.deeper).1.ok run).1.shallower
      exact .of_ok (insideFunction_ok run) onward onward.left_le
    | error e t =>
      exact .of_error (insideFunction_error run) ((h s.deeper).1.error run).shallower
  have last : (Reader.insideFunction y).finish s = (y.finish s.deeper).shallower := by
    cases run : y s.deeper with
    | ok a t => rw [finish_ok (insideFunction_ok run), finish_ok run]
    | error e t => rw [finish_error (insideFunction_error run), finish_error run]
  refine ⟨goes, fun differs => ?_⟩
  have inside : x s.deeper ≠ y s.deeper := fun same =>
    differs (by simp only [Reader.insideFunction, same])
  obtain ⟨starts, ends⟩ := (h s.deeper).2 inside
  rw [last]
  exact ⟨⟨starts.rest, starts.last, starts.errors⟩, ⟨ends.rest, ends.last, ends.errors⟩⟩

/-- To recover from a mistake is to go onward. -/
lemma recovering (h : DiffersBy call x y) : DiffersBy call (recovering x) (recovering y) := by
  intro s
  refine ⟨recovering_goes (h s).1, fun differs => ?_⟩
  have inside : x s ≠ y s := fun same => differs (by simp only [Reader.recovering, same])
  obtain ⟨starts, ends⟩ := (h s).2 inside
  refine ⟨starts, ends.trans ?_⟩
  cases run : y s with
  | ok a t =>
    rw [finish_ok run, finish_ok (recovering_ok run)]
    exact .refl t
  | error e t =>
    rw [finish_error run, finish_ok (recovering_error run)]
    exact ((Onward.note t e).trans (.resumed _)).before

end DiffersBy

/-- The rules of the grammar differ by a call where the readers that they call do. -/
lemma differsBy_composes (call : Call) : Composes (DiffersBy call) where
  pure a := .same fun s => (pure_alike (n := s.left + 1) a s (Nat.lt_succ_self _)).2
  bind := .bind
  throw _ := .same fun s => .of_error rfl (.refl s)
  current := .same fun s => .of_ok rfl (.refl s) (Nat.le_refl _)
  advance := .same fun s => .of_ok rfl (.pass s) (Onward.pass s).left_le
  record e := .same fun s => .of_ok rfl (.note s e) (Nat.le_refl _)
  push node := .same fun s => .of_ok rfl (.add s node) (Nat.le_refl _)
  look h _ := .bind (.same fun s => .of_ok rfl (.refl s) (Nat.le_refl _)) h
  bare := .same fun s => .of_ok rfl (.bare s) (Nat.le_refl _)
  take _ := .same fun s => .of_ok rfl (.bare s) (Nat.le_refl _)
  insideFunction := .insideFunction
  recovering := .recovering

/-- Readers that are spared differ by the call in question, if they differ. -/
lemma Call.Spares.differs {call : Call} {R : Readers} (spares : call.Spares R) (rule : Rule) :
    DiffersBy call (R rule) (readers rule) := by
  intro s
  refine ⟨(readers_goes rule s).mono (Nat.zero_le _), fun differs => ?_⟩
  have same : Call.mk rule s = call := by
    by_contra other
    exact differs (spares ⟨rule, s⟩ other)
  subst same
  exact ⟨.refl s, .refl _⟩

namespace Call

variable {outer inner : Call}

/-- A call begins after the one that makes it begins, and ends before it ends. -/
lemma Leads.within (h : outer.Leads inner) :
    outer.start.Before inner.start ∧ inner.finish.Before outer.finish := by
  obtain ⟨R, spares, differs⟩ := h
  rw [← readers_body] at differs
  have rules := body_composes (differsBy_composes inner) spares.differs outer.rule
  have within := (rules outer.start).2 differs
  rwa [readers_body] at within

end Call

end Grammar

end Lox
