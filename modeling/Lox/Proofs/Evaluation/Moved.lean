import Lox.Proofs.Evaluation.Rewritten

/-!
A run does not look at places. Wherever a program and the functions of a state are moved to, the run
does what it did before, and an error is on the line to which its own was moved.
-/

namespace Lox

open Located (moved)

variable {α : Type} {m : Relocation}

/-- The end of a run is moved where it tells places: in the state and in the reason to stop. -/
instance : Located (EStateM.Result Stop State α) where
  moved m
    | .ok a t => .ok a (moved m t)
    | .error e t => .error (moved m e) (moved m t)

/-- What moving does to functions and to the text. -/
def Relocation.recoding (m : Relocation) : Recoding (List Statement) (List Statement) where
  code := moved m
  place := m
  name _ := rfl
  parameters _ := List.map_map

lemma Relocation.recoding_result (m : Relocation) (r : EStateM.Result Stop State α) :
    m.recoding.result r = moved m r := by
  cases r with
  | ok a t => rfl
  | error e t => cases e <;> rfl

mutual

lemma Statement.rewrites_moved : ∀ st : Statement, m.recoding.Rewrites st (st.moved m)
  | .declareVar name initial => .declareVar name initial
  | .declareFun _ _ body =>
    .declareFun (congrArg (Code.mk _ _) (Statement.allMoved_eq m body).symm)
  | .expression e => .expression e
  | .print e => .print e
  | .block body => .block (Statement.rewrites_allMoved body)
  | .branch condition success failure =>
    .branch condition (Statement.rewrites_moved success) (Statement.rewrites_maybeMoved failure)
  | .whileLoop condition body => .whileLoop condition (Statement.rewrites_moved body)
  | .returnFrom line value => .returnFrom line value
  | .stringLoop name iterable body => .stringLoop name iterable (Statement.rewrites_moved body)

lemma Statement.rewrites_maybeMoved :
    ∀ st : Option Statement, m.recoding.RewritesMaybe st (Statement.maybeMoved m st)
  | none => .none
  | some st => .some (Statement.rewrites_moved st)

lemma Statement.rewrites_allMoved :
    ∀ ss : List Statement, m.recoding.RewritesAll ss (Statement.allMoved m ss)
  | [] => .nil
  | st :: ss => .cons (Statement.rewrites_moved st) (Statement.rewrites_allMoved ss)

end

/-- A moved program does in a moved state what the program does. -/
theorem Run.program_moves (m : Relocation) (fuel : Nat) (ss : List Statement) (s : State) :
    program fuel (moved m ss) (moved m s) = moved m (program fuel ss s) := by
  have rewrites (ss : List Statement) : m.recoding.RewritesAll ss (moved m ss) := by
    rw [← Statement.allMoved_eq m]
    exact Statement.rewrites_allMoved ss
  rw [← m.recoding_result]
  exact Recoding.recodes_program (fun c => rewrites c.body) fuel (rewrites ss) s

end Lox
