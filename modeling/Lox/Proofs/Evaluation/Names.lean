import Lox.Proofs.Evaluation.Kept

/-!
Where names come to be bound. A run binds names in the scope of its statement, those only that the
statement declares there, and in scopes that it opens itself; no scope loses a name.
-/

namespace Lox

namespace Bindings

lemma names_set (name : String) (v : Value) (bs : Bindings) :
    (Bindings.set name v bs).names = if name ∈ bs.names then bs.names else bs.names ++ [name] := by
  induction bs with
  | nil => rfl
  | cons first bs ih =>
    obtain ⟨other, old⟩ := first
    rw [Bindings.set]
    by_cases same : other = name
    · simp [Bindings.names, same]
    · have different : ¬name = other := fun h => same h.symm
      simp only [Bindings.names] at ih
      by_cases bound : name ∈ bs.map (·.1)
      · simp only [Bindings.names, if_neg same, List.map_cons, ih, List.mem_cons, bound, or_true,
          if_true]
      · simp only [Bindings.names, if_neg same, List.map_cons, ih, List.mem_cons, bound, different,
          or_false, if_false, List.cons_append]

lemma mem_names_of_lookup {name : String} {v : Value} {bs : Bindings}
    (h : bs.lookup name = some v) : name ∈ bs.names := by
  induction bs with
  | nil => cases h
  | cons first bs ih =>
    obtain ⟨other, old⟩ := first
    simp only [Bindings.names, List.map_cons, List.mem_cons]
    by_cases same : name = other
    · exact .inl same
    · rw [List.lookup_cons, beq_eq_false_iff_ne.mpr same] at h
      exact .inr (ih h)

end Bindings

namespace Scopes

/-- The names that a scope binds, if there is such a scope. -/
def names? (scopes : Scopes) (i : Nat) : Option (List String) :=
  scopes[i]?.map fun cell => cell.bindings.names

variable {scopes : Scopes}

lemma names?_declare (scopes : Scopes) (i : Nat) (name : String) (v : Value) (j : Nat) :
    names? (scopes.declare i name v) j = if i = j then (names? scopes j).map fun bound =>
      if name ∈ bound then bound else bound ++ [name] else names? scopes j := by
  simp only [names?, Scopes.declare, Array.getElem?_modify]
  split
  · simp only [Option.map_map, Function.comp_def, Bindings.names_set]
  · rfl

lemma findWithin_bound {name : String} {depth i holder : Nat} {v : Value}
    (found : scopes.findWithin name depth i = some (holder, v)) :
    ∃ bound, names? scopes holder = some bound ∧ name ∈ bound := by
  induction depth generalizing i with
  | zero => simp [Scopes.findWithin] at found
  | succ depth ih =>
    rw [Scopes.findWithin] at found
    split at found
    · cases found
    · next cell there =>
      split at found
      · next value bound =>
        cases found
        exact ⟨_, by simp only [names?, there, Option.map_some], Bindings.mem_names_of_lookup bound⟩
      · split at found
        · exact ih found
        · cases found

/-- A name that is assigned to is bound already. -/
lemma names?_assign {name : String} {i holder : Nat} {old : Value} (v : Value)
    (found : scopes.find? i name = some (holder, old)) (j : Nat) :
    names? (scopes.declare holder name v) j = names? scopes j := by
  obtain ⟨bound, names, within⟩ := findWithin_bound found
  rw [names?_declare]
  split
  · next same =>
    subst same
    simp only [names, Option.map_some, within, if_true]
  · rfl

lemma names?_opened (scopes : Scopes) (parent : Option Nat) (bs : Bindings) {j : Nat}
    (there : j < scopes.size) : names? (scopes.opened parent bs).2 j = names? scopes j := by
  have other : j ≠ scopes.size := Nat.ne_of_lt there
  simp [names?, Scopes.opened, Array.getElem?_push, other]

/-- The scopes of an earlier time bind the names that they bound, and one of them some of the given
names in addition. -/
structure Gains (env : Nat) (given : List String) (before after : Scopes) : Prop where
  grown : before.size ≤ after.size
  names : ∀ i < before.size, ∃ gained, after.names? i = (before.names? i).map (· ++ gained) ∧
    ∀ name ∈ gained, i = env ∧ name ∈ given

namespace Gains

variable {env : Nat} {given : List String} {before after : Scopes}

lemma refl (env : Nat) (given : List String) (scopes : Scopes) :
    scopes.Gains env given scopes :=
  ⟨Nat.le_refl _, fun _ _ => ⟨[], by simp, List.forall_mem_nil _⟩⟩

lemma declare (h : before.Gains env given after) {i : Nat} {name : String}
    (allowed : before.size ≤ i ∨ i = env ∧ name ∈ given) (v : Value) :
    before.Gains env given (after.declare i name v) := by
  refine ⟨by simpa [Scopes.declare] using h.grown, fun j there => ?_⟩
  obtain ⟨gained, names, known⟩ := h.names j there
  obtain ⟨bound, here⟩ : ∃ bound, before.names? j = some bound :=
    ⟨before[j].bindings.names, by
      simp only [names?, Array.getElem?_eq_getElem there, Option.map_some]⟩
  simp only [names?_declare, names, here, Option.map_some]
  split
  · next same =>
    subst same
    split
    · exact ⟨gained, rfl, known⟩
    · refine ⟨gained ++ [name], by rw [List.append_assoc], fun other within => ?_⟩
      rcases List.mem_append.mp within with within | within
      · exact known other within
      · obtain rfl := List.mem_singleton.mp within
        exact allowed.resolve_left (Nat.not_le_of_lt there)
  · exact ⟨gained, rfl, known⟩

lemma assign (h : before.Gains env given after) {i holder : Nat} {name : String} {old v : Value}
    (found : after.find? i name = some (holder, old)) :
    before.Gains env given (after.declare holder name v) := by
  refine ⟨by simpa [Scopes.declare] using h.grown, fun j there => ?_⟩
  rw [names?_assign v found j]
  exact h.names j there

lemma opened (h : before.Gains env given after) (parent : Option Nat) (bs : Bindings) :
    before.Gains env given (after.opened parent bs).2 := by
  refine ⟨Nat.le_trans h.grown (by simp [Scopes.opened]), fun j there => ?_⟩
  rw [names?_opened after parent bs (Nat.lt_of_lt_of_le there h.grown)]
  exact h.names j there

/-- No name is gained where none is given. -/
lemma names?_eq (h : before.Gains env given after) {i : Nat} (there : i < before.size)
    (none : i = env → given = []) : after.names? i = before.names? i := by
  obtain ⟨gained, names, known⟩ := h.names i there
  have nothing : gained = [] := List.eq_nil_iff_forall_not_mem.mpr fun name within => by
    obtain ⟨here, listed⟩ := known name within
    simp [none here] at listed
  simpa [nothing] using names

end Gains

end Scopes

/-- All statements, where those in the bodies of functions are not told from others. -/
def Fragment.all : Fragment where
  node _ _ := True
  statement inside _ := inside = true
  operand _ _ _ := trivial
  subject _ _ := trivial
  part {inside st _} h _ := by
    subst h
    cases st <;> rfl
  inside h := h

/-- Names are bound in one of the scopes there were, if they are given for it, and in later ones. -/
def Discipline.naming (env : Nat) (given : List String) (before : Scopes) : Discipline where
  toFragment := .all
  state _ s := before.Gains env given s.scopes
  value _ _ := True
  scope _ _ := True
  binds _ i name := before.size ≤ i ∨ i = env ∧ name ∈ given
  stop _ _ := True
  value_mono _ _ := trivial
  scope_mono _ _ := trivial
  binds_mono _ h := h
  plain _ := trivial
  quoted _ _ := trivial
  body _ _ _ := rfl
  closure _ := trivial
  bound _ _ _ := trivial
  declare gains allowed _ := gains.declare allowed _
  assign gains _ found _ := gains.assign found
  opened gains _ _ := gains.opened _ _
  fresh gains := ⟨trivial, fun _ => .inl gains.grown⟩
  made gains _ _ := ⟨gains, trivial⟩
  printed _ gains := gains
  read gains := gains
  rand gains := gains
  timed gains := gains
  entered gains _ := gains
  left gains := gains
  fault _ := trivial
  outOfFuel := trivial
  missingNode _ _ := trivial
  missingCode _ _ := trivial

variable {s : State}

lemma Run.statement_gains (st : Statement) (env fuel : Nat) (s : State) :
    s.scopes.Gains env st.declares ((Run.statement fuel env st).after s).scopes := by
  have start : s.scopes.Gains env st.declares s.scopes := .refl _ _ _
  have admits : (Discipline.naming env st.declares s.scopes).Admits true s.extent env st :=
    ⟨rfl, trivial, fun name within => .inr ⟨rfl, within⟩⟩
  exact (((Discipline.naming env st.declares s.scopes).kept fuel).statement (n := 0) start
    admits).after

lemma Run.expression_gains (e : Expression) (env fuel : Nat) (s : State) :
    s.scopes.Gains env [] ((Run.expression fuel env e).after s).scopes := by
  have start : s.scopes.Gains env [] s.scopes := .refl _ _ _
  exact (((Discipline.naming env [] s.scopes).kept fuel).node (n := 0) start trivial trivial).after

/-- A run of a statement in a scope, however it ends, leaves to all other scopes the names that they
bind, and to its own scope too, where it adds some of the names that the statement declares outside
of blocks and of bodies of functions. A block and an expression add none. -/
theorem State.names_kept (s : State) {env : Nat} (there : env < s.scopes.size) (fuel : Nat) :
    (∀ st : Statement,
      let t := (Run.statement fuel env st).after s
      (∀ i < s.scopes.size, i ≠ env → t.scopes.names? i = s.scopes.names? i) ∧
      ∃ gained, t.scopes.names? env = (s.scopes.names? env).map (· ++ gained) ∧
        gained ⊆ st.declares) ∧
    (∀ body, ∀ i < s.scopes.size,
      ((Run.statement fuel env (.block body)).after s).scopes.names? i = s.scopes.names? i) ∧
    ∀ e, ∀ i < s.scopes.size,
      ((Run.expression fuel env e).after s).scopes.names? i = s.scopes.names? i := by
  refine ⟨fun st => ⟨fun i known other => ?_, ?_⟩, fun body i known => ?_, fun e i known => ?_⟩
  · exact (Run.statement_gains st env fuel s).names?_eq known fun here => absurd here other
  · obtain ⟨gained, names, given⟩ := (Run.statement_gains st env fuel s).names env there
    exact ⟨gained, names, fun name within => (given name within).2⟩
  · exact (Run.statement_gains (.block body) env fuel s).names?_eq known fun _ => rfl
  · exact (Run.expression_gains e env fuel s).names?_eq known fun _ => rfl

/-- A loop over a string binds its name and what its body declares where it stands. -/
theorem State.names_kept_loop :
    let s := State.fresh 0 ⟨"", [], ""⟩
    let st : Statement := .stringLoop ⟨"c", ⟨0, 1⟩, 1⟩ (.single (.atom (.string "ab") 1))
      (.declareVar ⟨"x", ⟨0, 1⟩, 1⟩ none)
    let t := (Run.statement 9 0 st).after s
    0 < s.scopes.size ∧ st.declares = ["c", "x"] ∧
      t.scopes.names? 0 = some ["clock", "c", "x"] ∧
      (∀ i < s.scopes.size, i ≠ 0 → t.scopes.names? i = s.scopes.names? i) ∧
      ∃ gained, t.scopes.names? 0 = (s.scopes.names? 0).map (· ++ gained) ∧
        gained ⊆ st.declares := by
  intro s st t
  have there : 0 < s.scopes.size := by decide
  exact ⟨there, by decide, by decide +kernel, (s.names_kept there 9).1 st⟩

end Lox
