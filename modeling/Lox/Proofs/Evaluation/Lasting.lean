import Lox.Proofs.Evaluation.Rooted

/-!
What scopes keep as a run goes on. No step takes a scope out of the one that it lies in, or a name
out of a scope, so what is known of them at one moment holds at every later one.
-/

namespace Lox

namespace Scopes

/-- What no step takes from scopes: it is kept when a name is bound and when a scope is opened. -/
structure Lasting (inv : Scopes → Prop) : Prop where
  declare {scopes : Scopes} (i : Nat) (name : String) (v : Value) :
    inv scopes → inv (scopes.declare i name v)
  opened {scopes : Scopes} (i : Nat) (bs : Bindings) :
    inv scopes → inv (scopes.opened (some i) bs).2

variable {scopes : Scopes} {inner outer : Nat} {name : String}

lemma liesIn_lasting (inner outer : Nat) : Lasting fun scopes => scopes.LiesIn inner outer := by
  constructor
  · rintro scopes i name v ⟨cell, there, up⟩
    simp only [LiesIn, Scopes.declare, Array.getElem?_modify, there, Option.map_some]
    split
    · exact ⟨_, rfl, up⟩
    · exact ⟨cell, rfl, up⟩
  · rintro scopes i bs ⟨cell, there, up⟩
    have known : inner < scopes.size := (Array.getElem?_eq_some_iff.mp there).1
    refine ⟨cell, ?_, up⟩
    simp [Scopes.opened, Array.getElem?_push, Nat.ne_of_lt known, there]

lemma hasName_lasting (i : Nat) (name : String) : Lasting fun scopes => scopes.HasName i name := by
  constructor
  · rintro scopes j other v ⟨bound, names, within⟩
    simp only [HasName, names?_declare, names, Option.map_some]
    split
    · refine ⟨_, rfl, ?_⟩
      split
      · exact within
      · exact List.mem_append_left _ within
    · exact ⟨bound, rfl, within⟩
  · rintro scopes j bs ⟨bound, names, within⟩
    obtain ⟨cell, there, -⟩ := Option.map_eq_some_iff.mp names
    have known : i < scopes.size := (Array.getElem?_eq_some_iff.mp there).1
    exact ⟨bound, (names?_opened scopes (some j) bs known).trans names, within⟩

/-- A name that a scope does not bind means what it means around the scope. -/
lemma Rooted.find?_inner (h : scopes.Rooted) (up : scopes.LiesIn inner outer)
    (unbound : ¬scopes.HasName inner name) : scopes.find? inner name = scopes.find? outer name := by
  have lt := h.liesIn_lt up
  obtain ⟨cell, there, parent⟩ := up
  rw [hasName_iff there, not_not] at unbound
  rw [← h.find?_eq name lt, find?, findWithin]
  simp only [there, unbound, parent]

/-- A name that a scope binds means that binding there. -/
lemma find?_bound (bound : scopes.HasName inner name) :
    ∃ v, scopes.find? inner name = some (inner, v) := by
  have known := bound
  obtain ⟨names, here, -⟩ := known
  obtain ⟨cell, there, -⟩ := Option.map_eq_some_iff.mp here
  obtain ⟨v, found⟩ := Option.ne_none_iff_exists'.mp ((hasName_iff there).mp bound)
  exact ⟨v, by simp only [find?, findWithin, there, found]⟩

end Scopes

namespace Discipline

variable {m m' : Moment} {inv : Scopes → Prop}

/-- One more invariant asks nothing of the parts of a run. -/
lemma Allows.keeping {d : Discipline} {x : Extent} {part : Part} (h : d.Allows x part)
    (inv declare opened) : (d.keeping inv declare opened).Allows x part := by
  have admits {inside : Bool} {i : Nat} {st : Statement} (h : d.Admits inside x i st) :
      (d.keeping inv declare opened).Admits inside x i st := ⟨h.statement, h.scope, h.binds⟩
  cases part with
  | node | call => exact h
  | statement scope st =>
    obtain ⟨inside, ha⟩ := h
    exact ⟨inside, admits ha⟩
  | statements scope ss =>
    obtain ⟨inside, ha⟩ := h
    exact ⟨inside, fun st within => admits (ha st within)⟩
  | whileLoop scope e st | characters scope name st text =>
    obtain ⟨here, inside, ha⟩ := h
    exact ⟨here, inside, admits ha⟩

/-- What no step takes from scopes stays from one moment of a run to each later one, and to its
end. -/
lemma Begins.lasting (begins : Discipline.rooted.Begins m) (lasting : Scopes.Lasting inv)
    (here : inv m.state.scopes) (way : Relation.ReflTransGen Moment.Leads m m') {t : State}
    {n : Nat} (reached : t = m'.state ∨ t = m'.part.after n m'.state) :
    t.scopes.Rooted ∧ inv t.scopes := by
  let d := Discipline.rooted.keeping inv lasting.declare fun bs _ _ h => lasting.opened _ bs h
  have begins' : d.Begins m := ⟨⟨begins.1, here⟩, begins.2.keeping _ _ _⟩
  have later := begins'.onward way
  rcases reached with rfl | rfl
  · exact ⟨later.1.1.2, later.1.2⟩
  · exact ⟨(later.after n).1.2, (later.after n).2⟩

end Discipline

lemma Scopes.hasName_declare {scopes : Scopes} {i : Nat} (there : i < scopes.size) (name : String)
    (v : Value) : Scopes.HasName (scopes.declare i name v) i name := by
  have here : scopes.names? i = some scopes[i].bindings.names := by
    simp only [Scopes.names?, Array.getElem?_eq_getElem there, Option.map_some]
  simp only [Scopes.HasName, Scopes.names?_declare, here, Option.map_some, if_true]
  refine ⟨_, rfl, ?_⟩
  split
  · assumption
  · exact List.mem_append_right _ (List.mem_singleton_self name)

/-- A variable that has been declared is bound. -/
lemma Run.declareVar_binds {fuel scope : Nat} {name : Ident} {initial : Option Expression}
    {c : Completion} {s t : State} (there : scope < s.scopes.size)
    (run : Run.statement fuel scope (.declareVar name initial) s = .ok c t) :
    t.scopes.HasName scope name.name := by
  cases fuel with
  | zero =>
    rw [Run.statement] at run
    cases run
  | succ fuel =>
    cases initial with
    | none =>
      rw [Run.statement] at run
      cases run
      exact Scopes.hasName_declare there name.name .nil
    | some e =>
      rw [Run.statement] at run
      obtain ⟨v, u, evaluated, run⟩ := Exec.bind_ends run
      cases run
      have grown := (Run.expression_gains e scope fuel s).grown
      rw [Exec.after, show Run.expression fuel scope e s = .ok v u from evaluated] at grown
      exact Scopes.hasName_declare (Nat.lt_of_lt_of_le there grown) name.name v

/-- A scope that has been opened binds nothing. -/
lemma Exec.openScope_opens {outer inner : Nat} {s t : State}
    (run : Exec.openScope outer [] s = .ok inner t) :
    inner < t.scopes.size ∧ t.scopes.LiesIn inner outer ∧ t.scopes.names? inner = some [] := by
  cases run
  have there : (s.scopes.push ⟨some outer, []⟩)[s.scopes.size]? = some ⟨some outer, []⟩ :=
    Array.getElem?_push_size
  refine ⟨by simp, ⟨_, there, rfl⟩, ?_⟩
  simp only [Scopes.names?, there]
  rfl

end Lox
