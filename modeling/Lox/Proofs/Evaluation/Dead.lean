import Lox.Proofs.Evaluation.Rewritten

/-!
Code after a `return`. A `return` leaves everything up to the nearest call, so the statements that
follow it in the same list are never run, and a program does the same without them.
-/

namespace Lox

open Located (moved)
open Recoding (Rewrites RewritesMaybe RewritesAll)

namespace Statement

mutual

/-- The statement without what follows a `return` in its blocks and in the bodies of its
functions. -/
def pruned : Statement → Statement
  | .declareVar name initial => .declareVar name initial
  | .declareFun name parameters body => .declareFun name parameters (allPruned body)
  | .expression value => .expression value
  | .print value => .print value
  | .block body => .block (allPruned body)
  | .branch condition success failure => .branch condition (pruned success) (maybePruned failure)
  | .whileLoop condition body => .whileLoop condition (pruned body)
  | .returnFrom line value => .returnFrom line value
  | .stringLoop name iterable body => .stringLoop name iterable (pruned body)

/-- The same where there may be no statement. -/
def maybePruned : Option Statement → Option Statement
  | none => none
  | some st => some (pruned st)

/-- The statements up to the first `return` among them, without what follows one within. -/
def allPruned : List Statement → List Statement
  | [] => []
  | st :: ss => pruned st :: if st.isReturn then [] else allPruned ss

end

end Statement

/-- Functions without the code that follows a `return`. -/
def Recoding.pruning : Recoding (List Statement) (List Statement) where
  code c := { c with body := Statement.allPruned c.body }
  place := .still
  name _ := rfl
  parameters _ := rfl

open Recoding (pruning)

lemma Recoding.pruning_stop (stop : Stop) : pruning.stop stop = stop := by
  cases stop <;> rfl

lemma Recoding.pruning_fresh (now : Clock) (console : Console) :
    pruning.machine (State.fresh now console) = State.fresh now console := by
  simp only [machine, State.fresh, Array.map_empty]

lemma pruning_still (e : Expression) : moved pruning.place e = e :=
  moved_still_expression e

lemma pruning_still_option (e : Option Expression) : moved pruning.place e = e :=
  moved_still_option moved_still_expression e

mutual

lemma Statement.rewrites_pruned : ∀ st : Statement, pruning.Rewrites st st.pruned
  | .declareVar name initial => by
    have here := Rewrites.declareVar (r := pruning) name initial
    rwa [pruning_still_option] at here
  | .declareFun _ _ _ => .declareFun rfl
  | .expression e => by
    have here := Rewrites.expression (r := pruning) e
    rwa [pruning_still] at here
  | .print e => by
    have here := Rewrites.print (r := pruning) e
    rwa [pruning_still] at here
  | .block body => .block (Statement.rewrites_allPruned body)
  | .branch condition success failure => by
    have here := Rewrites.branch condition (Statement.rewrites_pruned success)
      (Statement.rewrites_maybePruned failure)
    rwa [pruning_still] at here
  | .whileLoop condition body => by
    have here := Rewrites.whileLoop condition (Statement.rewrites_pruned body)
    rwa [pruning_still] at here
  | .returnFrom line value => by
    have here := Rewrites.returnFrom (r := pruning) line value
    rwa [pruning_still_option] at here
  | .stringLoop name iterable body => by
    have here := Rewrites.stringLoop name iterable (Statement.rewrites_pruned body)
    rwa [pruning_still] at here

lemma Statement.rewrites_maybePruned :
    ∀ st : Option Statement, pruning.RewritesMaybe st (maybePruned st)
  | none => .none
  | some st => .some (Statement.rewrites_pruned st)

lemma Statement.rewrites_allPruned :
    ∀ ss : List Statement, pruning.RewritesAll ss (Statement.allPruned ss)
  | [] => .nil
  | st :: ss => by
    rw [Statement.allPruned]
    cases returns : st.isReturn with
    | false => exact .cons (Statement.rewrites_pruned st) (Statement.rewrites_allPruned ss)
    | true => exact .returned ss [] returns (Statement.rewrites_pruned st)

end

namespace Run

open Moment (Leads)

/-- A program does the same without what follows a `return`, and is left in the same state but for
the functions. -/
lemma program_pruned (fuel : Nat) (ss : List Statement) (s : State) :
    program fuel (ss.map Statement.pruned) (pruning.machine s) =
      pruning.result (program fuel ss s) := by
  have rewrites : pruning.RewritesAll ss (ss.map Statement.pruned) := by
    induction ss with
    | nil => exact .nil
    | cons st ss ih => exact .cons st.rewrites_pruned ih
  exact Recoding.recodes_program (fun c => Statement.rewrites_allPruned c.body) fuel rewrites s

/-- The statements that follow a `return` in a block or in the body of a function are never run: a
program without them ends as the program does, for the same reason and in the same state, but for
the bodies of functions. A `return` leaves, in the state that it ends in, whatever encloses it up to
the nearest call, and the value of this call is the one that is returned. -/
theorem dead_after_return (fuel : Nat) (ss : List Statement) (now : Clock) (console : Console) :
    (let s := State.fresh now console
      let t := (program fuel ss).after s
      (program fuel (ss.map Statement.pruned)).stop? s = (program fuel ss).stop? s ∧
      (program fuel (ss.map Statement.pruned)).after s =
        { t with codes := t.codes.map pruning.code }) ∧
    ∀ (m m' : Moment) (scope line k : Nat) (value : Option Expression) (v : Value) (t : State),
      Relation.ReflTransGen Leads m m' → m'.part = .statement scope (.returnFrom line value) →
      statement k scope (.returnFrom line value) m'.state = .ok (.returned v) t →
      (m'.bodies = m.bodies → m.part.Completes m.state (.ok (.returned v) t)) ∧
      ∀ f vs line, m.part = .call f vs line → m'.bodies = m.bodies + 1 →
        Settles (fun fuel => call fuel f vs line) m.state
          (.ok v { t with calls := t.calls - 1 }) := by
  refine ⟨?_, fun m m' scope line k value v t way here run => ?_⟩
  · have same := program_pruned fuel ss (State.fresh now console)
    rw [Recoding.pruning_fresh] at same
    simp only [Exec.stop?, Exec.after, same]
    cases program fuel ss (State.fresh now console) with
    | ok _ t => exact ⟨rfl, rfl⟩
    | error stop t => exact ⟨congrArg some (Recoding.pruning_stop stop), rfl⟩
  · have returns : m'.part.Completes m'.state (.ok (.returned v) t) := by
      rw [here]
      exact settles_statement run
    refine ⟨fun same => Moment.onward_completes way (.returned v t) same returns, ?_⟩
    exact fun f vs line calls inside => Moment.onward_call_value way calls inside returns

/-- A function that returns from a block within a loop, where another statement follows. -/
theorem dead_after_return_loop :
    let c : Expression := .single (.atom (.identifier ⟨"c", ⟨0, 1⟩, 1⟩) 1)
    let leave : Statement := .returnFrom 1 (some c)
    let loop : Statement :=
      .stringLoop ⟨"c", ⟨0, 1⟩, 1⟩ (.single (.atom (.string "ab") 1)) (.block [leave, .print c])
    let code : Code (List Statement) := ⟨⟨"f", ⟨0, 1⟩, 1⟩, [], [loop]⟩
    let print : Statement := .print ⟨#[.atom (.identifier code.name) 2, .call 0 [] 2], 1⟩
    let ss := [.declareFun code.name code.parameters code.body, print]
    let s := State.fresh 0 ⟨"", [], ""⟩
    (program 20 (ss.map Statement.pruned)).stop? s = none ∧
      ((program 20 (ss.map Statement.pruned)).after s).console = ⟨"a\n", [], ""⟩ ∧
      ∃ m m' t, Relation.ReflTransGen Leads m m' ∧
        m.part = .call (.function ⟨"f", 0, 0, 0⟩) [] 2 ∧ m'.part = .statement 2 leave ∧
        Settles (fun fuel => call fuel (.function ⟨"f", 0, 0, 0⟩) [] 2) m.state
          (.ok (.string "a") t) := by
  intro c leave loop code print ss s
  let start : State := { s with codes := #[code] }
  let s₁ := Exec.after (enter code globalScope [] 2) start
  let s₂ := { s₁ with calls := s₁.calls + 1 }
  let s₃ := Exec.after (expression 9 1 (.single (.atom (.string "ab") 1))) s₂
  let s₄ := Exec.after (Exec.declare 1 "c" (.string (String.singleton 'a'))) s₃
  let s₅ := Exec.after (Exec.openScope 1 []) s₄
  let s₆ := (statement 9 2 leave).after s₅
  have entered : enter code globalScope [] 2 start = .ok 1 s₁ := Exec.eq_ok (by decide +kernel)
  have string : expression 9 1 (.single (.atom (.string "ab") 1)) s₂ = .ok (.string "ab") s₃ :=
    Exec.eq_ok (by decide +kernel)
  have declared : Exec.declare 1 "c" (.string (String.singleton 'a')) s₃ = .ok () s₄ :=
    Exec.eq_ok (by decide +kernel)
  have opened : Exec.openScope 1 [] s₄ = .ok 2 s₅ := Exec.eq_ok (by decide +kernel)
  have left : statement 9 2 leave s₅ = .ok (.returned (.string "a")) s₆ :=
    Exec.eq_ok (by decide +kernel)
  have called : Leads ⟨.call (.function ⟨"f", 0, 0, 0⟩) [] 2, 0, start⟩
      ⟨.statements 1 code.body, 1, s₂⟩ := .body rfl entered
  have way : Relation.ReflTransGen Leads ⟨.call (.function ⟨"f", 0, 0, 0⟩) [] 2, 0, start⟩
      ⟨.statement 2 leave, 1, s₅⟩ :=
    .head called (.head .first (.head (.stringLoop string) (.head (.character declared)
      (.head (.block opened) (.single .first)))))
  obtain ⟨⟨stops, same⟩, leaves⟩ := dead_after_return 20 ss 0 ⟨"", [], ""⟩
  obtain ⟨-, value⟩ := leaves _ _ 2 1 9 (some c) _ _ way rfl left
  refine ⟨?_, ?_, _, _, _, way, rfl, rfl, value _ _ 2 rfl rfl⟩
  · rw [stops]
    decide +kernel
  · rw [same]
    decide +kernel

end Run

end Lox
