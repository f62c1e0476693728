import Lox.Proofs.Evaluation.Failing
import Lox.Proofs.Evaluation.Names

/-!
The count of calls. It tells how many bodies of functions are being run, at every moment of a run,
and is back where it was when the run ends.
-/

namespace Lox

variable {s t : State} {e : RuntimeError}

/-- Each body of a function that is being run counts once, from the given number on. -/
def Discipline.counting (d : Nat) : Discipline where
  toFragment := .all
  state n s := s.calls = d + n ∧ s.calls ≤ maxCalls
  value _ _ := True
  scope _ _ := True
  binds _ _ _ := True
  stop _ _ := True
  value_mono _ _ := trivial
  scope_mono _ _ := trivial
  binds_mono _ _ := trivial
  plain _ := trivial
  quoted _ _ := trivial
  body _ _ _ := rfl
  closure _ := trivial
  bound _ _ _ := trivial
  declare counted _ _ := counted
  assign counted _ _ _ := counted
  opened counted _ _ := counted
  fresh _ := ⟨trivial, fun _ => trivial⟩
  made counted _ _ := ⟨counted, trivial⟩
  printed _ counted := counted
  read counted := counted
  rand counted := counted
  timed counted := counted
  entered counted room := ⟨congrArg (· + 1) counted.1, room⟩
  left counted :=
    ⟨by simp only [counted.1, Nat.add_succ_sub_one], Nat.le_trans (Nat.sub_le _ _) counted.2⟩
  fault _ := trivial
  outOfFuel := trivial
  missingNode _ _ := trivial
  missingCode _ _ := trivial

namespace Discipline

lemma counting_admits (d scope : Nat) (x : Extent) (st : Statement) :
    (counting d).Admits true x scope st :=
  ⟨rfl, trivial, fun _ _ => trivial⟩

/-- The count does not ask for anything but itself. -/
lemma counting_allows (d : Nat) (x : Extent) (part : Part) : (counting d).Allows x part := by
  cases part with
  | node nodes scope i => exact ⟨trivial, trivial⟩
  | call f vs line => exact ⟨trivial, fun _ _ => trivial⟩
  | statement scope st => exact ⟨true, counting_admits d scope x st⟩
  | statements scope ss => exact ⟨true, fun st _ => counting_admits d scope x st⟩
  | whileLoop scope c st => exact ⟨trivial, true, counting_admits d scope x st⟩
  | characters scope name st text => exact ⟨trivial, true, counting_admits d scope x st⟩

end Discipline

namespace Run

/-- A program leaves the count as it is. -/
lemma program_calls (fuel : Nat) (ss : List Statement) (room : s.calls ≤ maxCalls) :
    ((program fuel ss).after s).calls = s.calls := by
  let d := Discipline.counting s.calls
  have counted : d.state 0 s := ⟨rfl, room⟩
  have keeps : d.Keeps 0 (d.completes true) (statements fuel globalScope ss) s :=
    (d.kept fuel).statements counted fun st _ => Discipline.counting_admits _ _ _ st
  have program_keeps : d.Keeps 0 (fun _ _ => True) (program fuel ss) s := by
    refine keeps.bind fun completion t counted _ _ => ?_
    cases completion with
    | normal => exact .pure counted trivial
    | returned v => exact .of_error rfl counted trivial
  exact program_keeps.after.1

end Run

namespace Session

lemma feed_calls (fuel : Nat) (text : List Char) (room : s.calls ≤ maxCalls) :
    (feed fuel text s).2.calls = s.calls := by
  cases read : Source.program text with
  | error diagnostics => simp only [feed, read]
  | ok ss =>
    rw [feed_of_program read]
    exact Run.program_calls fuel ss room

lemma feedAll_calls (fuel : Nat) (texts : List (List Char)) (room : s.calls ≤ maxCalls) :
    (feedAll fuel texts s).2.calls = s.calls := by
  refine (feedAll_keeps (P := fun t => t.calls = s.calls) (Q := fun _ => True)
    (fun _ same => same) (fun text t same => ⟨?_, trivial⟩) texts rfl).1
  exact (feed_calls fuel text (same ▸ room)).trans same

end Session

namespace Moment

/-- The only part that is too deep is the call of a function with the right number of arguments, at
a moment when no more calls may be under way. -/
lemma raises_callsTooDeep {m : Moment} {line : Nat} :
    m.Raises ⟨.callsTooDeep, line⟩ ↔ ∃ f vs code, m.part = .call (.function f) vs line ∧
      m.state.codes[f.number]? = some code ∧ vs.length = code.parameters.length ∧
      maxCalls ≤ m.state.calls := by
  constructor
  · intro raises
    generalize he : (⟨.callsTooDeep, line⟩ : RuntimeError) = e at raises
    cases raises with
    | unary _ _ fault =>
      cases he
      exact absurd rfl (UnaryOp.apply_fault fault).shallow
    | binary _ _ fault =>
      cases he
      exact absurd rfl (BinaryOp.apply_fault fault).shallow
    | floor _ _ run | substring _ _ run | native run =>
      cases he
      obtain ⟨-, arity | ⟨now, failed⟩⟩ := Run.native_stops run
      · cases arity
      · exact absurd rfl (Native.apply_fault failed).shallow
    | @entry f code vs line' e n s t found run =>
      subst he
      rcases Exec.bind_stops run with run | ⟨_, u, arity, run⟩
      · cases (Run.checkArity_stops run).2
      · unfold Run.checkArity at arity
        split at arity
        · next same =>
          cases arity
          rcases Exec.bind_stops run with run | ⟨_, _, got, run⟩
          · cases run
          cases got
          split at run
          · next full =>
            cases run
            exact ⟨f, vs, code, rfl, found, same.symm, full⟩
          · cases run
        · cases arity
    | name | target | callee | iterable => cases he
  · rintro ⟨f, vs, code, here, found, arity, full⟩
    obtain ⟨part, n, s⟩ := m
    cases here
    refine Raises.entry (t := s) found ?_
    simp only [Run.enter, Run.checkArity, if_pos arity.symm]
    change (if maxCalls ≤ s.calls then Exec.fault line .callsTooDeep else _ : Exec Nat) s = _
    rw [if_pos full]
    rfl

end Moment

/-- However the run of a node, a call or a statement ends, the count of calls is what it was. At
every moment of the run it is higher by the number of bodies of functions that are being run since,
and within its bound. The run finds calls too deep if and only if it calls a function with the right
number of arguments while the count is at its bound, and then on the line of that call. So no calls
are under way when a session has run its texts. -/
theorem State.calls_balanced {s : State} (room : s.calls ≤ maxCalls) (part : Part) (fuel : Nat) :
    (part.after fuel s).calls = s.calls ∧
    (∀ m, Relation.ReflTransGen Moment.Leads ⟨part, 0, s⟩ m →
      m.state.calls = s.calls + m.bodies ∧ m.state.calls ≤ maxCalls ∧
        ∀ rest, (m.part.after rest m.state).calls = m.state.calls) ∧
    (part.stop? fuel s ≠ some .outOfFuel → ∀ line,
      (part.stop? fuel s = some (.error ⟨.callsTooDeep, line⟩) ↔
        ∃ m, Relation.ReflTransGen Moment.Leads ⟨part, 0, s⟩ m ∧
          ∃ f vs code, m.part = .call (.function f) vs line ∧
            m.state.codes[f.number]? = some code ∧ vs.length = code.parameters.length ∧
            m.state.calls = maxCalls)) ∧
    ∀ texts now console, (Session.feedAll fuel texts (State.fresh now console)).2.calls = 0 := by
  let d := Discipline.counting s.calls
  have begins : d.Begins ⟨part, 0, s⟩ := ⟨⟨rfl, room⟩, Discipline.counting_allows _ _ part⟩
  refine ⟨(begins.after fuel).1, fun m way => ?_, fun ends line => ?_, fun texts now console => ?_⟩
  · have here := begins.onward way
    obtain ⟨counted, bound⟩ := here.1
    exact ⟨counted, bound, fun rest => (here.after rest).1.trans counted.symm⟩
  · refine (Moment.stop?_eq_error_iff (m := ⟨part, 0, s⟩) ends _).trans ⟨?_, ?_⟩
    · rintro ⟨m, way, raises⟩
      obtain ⟨f, vs, code, here, found, arity, full⟩ := Moment.raises_callsTooDeep.mp raises
      exact ⟨m, way, f, vs, code, here, found, arity, Nat.le_antisymm (begins.onward way).1.2 full⟩
    · rintro ⟨m, way, f, vs, code, here, found, arity, full⟩
      exact ⟨m, way, Moment.raises_callsTooDeep.mpr
        ⟨f, vs, code, here, found, arity, Nat.le_of_eq full.symm⟩⟩
  · exact Session.feedAll_calls fuel texts (Nat.zero_le _)

/-- A function that calls itself, with room for one call only. -/
theorem State.calls_balanced_recursion :
    let ss := (Source.program "\nfun f() { f(); }\nf();".toList).toOption.getD []
    let s := { State.fresh 0 ⟨"", [], ""⟩ with calls := 4095 }
    let part := Part.statements globalScope ss
    s.calls ≤ maxCalls ∧ part.stop? 20 s = some (.error ⟨.callsTooDeep, 2⟩) ∧
      (part.after 20 s).calls = 4095 ∧
      ∃ m, Relation.ReflTransGen Moment.Leads ⟨part, 0, s⟩ m ∧
        ∃ f vs code, m.part = .call (.function f) vs 2 ∧
          m.state.codes[f.number]? = some code ∧ vs.length = code.parameters.length ∧
          m.state.calls = maxCalls := by
  intro ss s part
  have room : s.calls ≤ maxCalls := by decide
  have stops : part.stop? 20 s = some (.error ⟨.callsTooDeep, 2⟩) := by decide +kernel
  obtain ⟨balanced, -, overflows, -⟩ := State.calls_balanced room part 20
  exact ⟨room, stops, balanced, (overflows (by simp [stops]) 2).mp stops⟩

end Lox
