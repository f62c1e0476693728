import Mathlib
import Lox.Proofs.Evaluation.Lasting

/-!
The clauses of a `for`. Its body and its increment are run in a block of their own, which lies in
the scope of the condition. The body binds no names there but those of loops over strings, and all
other names mean in the increment what they mean in the condition.
-/

namespace Lox

namespace Statement

mutual

/-- The names of the loops over strings that a statement runs in its own scope. -/
def loopVariables : Statement → List String
  | .stringLoop name _ body => name.name :: body.loopVariables
  | .branch _ success failure => success.loopVariables ++ maybeLoopVariables failure
  | .whileLoop _ body => body.loopVariables
  | .declareVar _ _ | .declareFun _ _ _ | .expression _ | .print _ | .block _ | .returnFrom _ _ =>
    []

/-- The same where there may be no statement. -/
def maybeLoopVariables : Option Statement → List String
  | none => []
  | some st => st.loopVariables

end

/-- What the grammar derives as a statement. A declaration is none. -/
def Proper (st : Statement) : Prop :=
  ∃ inside dangling ts p, DerivesPhrase (.statement inside dangling) ts p ∧ st.Denotes p

variable {st : Statement}

lemma declares_block {ps : List Phrase} (denotes : st.Denotes (.block ps)) :
    st.declares = st.loopVariables := by
  obtain ⟨ss, rfl, -⟩ := denotes_block denotes
  rfl

/-- Outside of blocks and functions, a statement declares no names but those of loops. -/
lemma declares_of_derives {form : Form} {ts : List Token} {p : Phrase}
    (h : DerivesPhrase form ts p) {inside dangling : Bool}
    (statement : form = .statement inside dangling) (denotes : st.Denotes p) :
    st.declares = st.loopVariables := by
  induction h generalizing inside dangling st with
  | declareVar | declareFun | statement => cases statement
  | block => exact declares_block denotes
  | expression | print | returnFrom =>
    cases st with
    | expression | print | returnFrom => rfl
    | _ => simp only [Denotes, reduceCtorEq, and_false, exists_false] at denotes
  | branch _ _ _ _ _ ih =>
    cases st with
    | branch e success failure =>
      obtain ⟨t, q, r, -, yes, no, ⟨⟩⟩ := denotes
      cases failure with
      | none => simp only [declares, loopVariables, maybeDeclares, maybeLoopVariables, ih rfl yes]
      | some failure => obtain ⟨_, _, ⟨⟩⟩ := no
    | _ => simp only [Denotes, reduceCtorEq, and_false, exists_false] at denotes
  | branchElse _ _ _ _ _ _ _ ih ih' =>
    cases st with
    | branch e success failure =>
      obtain ⟨t, q, r, -, yes, no, ⟨⟩⟩ := denotes
      cases failure with
      | none => cases no
      | some failure =>
        obtain ⟨_, no, ⟨⟩⟩ := no
        simp only [declares, loopVariables, maybeDeclares, maybeLoopVariables, ih rfl yes,
          ih' rfl no]
    | _ => simp only [Denotes, reduceCtorEq, and_false, exists_false] at denotes
  | whileLoop _ _ _ _ _ ih =>
    obtain ⟨e, body, rfl, -, run⟩ := denotes_whileLoop denotes
    simp only [declares, loopVariables, ih rfl run]
  | stringLoop _ _ _ _ _ _ _ _ ih =>
    cases st with
    | stringLoop name e body =>
      obtain ⟨t, q, -, body, ⟨⟩⟩ := denotes
      simp only [declares, loopVariables, ih rfl body]
    | _ => simp only [Denotes, reduceCtorEq, and_false, exists_false] at denotes
  | @forLoop _ _ _ _ _ _ initializer _ increment _ _ _ _ _ _ _ _ _ _ _ _ _ ih =>
    -- with an initializer the loop is a block, and so is its body with an increment
    cases initializer with
    | some initializer => exact declares_block denotes
    | none =>
      obtain ⟨e, body, rfl, -, run⟩ := denotes_whileLoop denotes
      cases increment with
      | none => simp only [declares, loopVariables, ih rfl run]
      | some increment => simp only [declares, loopVariables, declares_block run]

lemma Proper.declares_eq (h : st.Proper) : st.declares = st.loopVariables := by
  obtain ⟨inside, dangling, ts, p, derived, denotes⟩ := h
  exact declares_of_derives derived rfl denotes

end Statement

/-- A `for` with an increment. -/
structure ForLoop where
  line : Nat
  initializer : Option Statement
  condition : Option Expression
  increment : Expression
  body : Statement

namespace ForLoop

/-- The statement that the loop is read as. -/
def statement (l : ForLoop) : Statement :=
  Grammar.forStatement l.line ⟨l.initializer, l.condition, some l.increment⟩ l.body

/-- The condition, which is always true if none is written. -/
def test (l : ForLoop) : Expression :=
  l.condition.getD (Expression.single (.atom (.bool true) l.line))

/-- What is run in each round. -/
def repeated (l : ForLoop) : Statement :=
  .block [l.body, .expression l.increment]

/-- A loop that begins at the first moment comes to its condition, for the first time or again, at
the second one. The condition is evaluated in the given scope, in which the initializer was run. -/
inductive Comes (l : ForLoop) (outer : Nat) : Moment → Moment → Prop
  | plain {n s} :
    l.initializer = none →
    Comes l outer ⟨.statement outer l.statement, n, s⟩ ⟨.whileLoop outer l.test l.repeated, n, s⟩
  | initialized {initializer scope fuel n s t u} :
    l.initializer = some initializer → Exec.openScope scope [] s = .ok outer t →
    Run.statement fuel outer initializer t = .ok .normal u →
    Comes l outer ⟨.statement scope l.statement, n, s⟩
      ⟨.whileLoop outer l.test l.repeated, n, u⟩
  | again {start n s t} :
    Comes l outer start ⟨.whileLoop outer l.test l.repeated, n, s⟩ →
    Moment.Leads ⟨.whileLoop outer l.test l.repeated, n, s⟩
      ⟨.whileLoop outer l.test l.repeated, n, t⟩ →
    Comes l outer start ⟨.whileLoop outer l.test l.repeated, n, t⟩

/-- A round that begins at the first moment with the condition comes to the increment at the second
one. The body was run in the scope in which the increment is evaluated. -/
inductive Round (l : ForLoop) (outer inner : Nat) : Moment → Moment → Prop
  | mk {fuel fuel' v n s t u w} :
    Run.expression fuel outer l.test s = .ok v t → v.isTrue = true →
    Exec.openScope outer [] t = .ok inner u → Run.statement fuel' inner l.body u = .ok .normal w →
    Round l outer inner ⟨.whileLoop outer l.test l.repeated, n, s⟩
      ⟨.node l.increment.nodes inner l.increment.root, n, w⟩

/-- A `for` with an increment is read as such a loop, and its body as a statement. -/
lemma of_denotes {inside dangling : Bool} {ts : List Token} {line : Nat}
    {initializer : Option Phrase} {condition : Option Term} {increment : Term} {body : Phrase}
    {st : Statement} (derived : DerivesPhrase (.statement inside dangling) ts body)
    (denotes : st.Denotes (.forLoop line initializer condition (some increment) body)) :
    ∃ l : ForLoop, st = l.statement ∧ l.increment.Denotes increment ∧ l.body.Denotes body ∧
      l.body.Proper := by
  have looped {st : Statement}
      (h : st.Denotes (.forLoop line none condition (some increment) body)) :
      ∃ l : ForLoop, l.initializer = none ∧ st = l.statement ∧ l.increment.Denotes increment ∧
        l.body.Denotes body ∧ l.body.Proper := by
    obtain ⟨test, repeated, rfl, -, repeats⟩ := Statement.denotes_whileLoop h
    obtain ⟨ss, rfl, each⟩ := Statement.denotes_block repeats
    obtain ⟨body, last, rfl, run, next⟩ := Statement.allDenote_pair each
    obtain ⟨increment, rfl, updates⟩ := Statement.denotes_expression next
    exact ⟨⟨line, none, some test, increment, body⟩, rfl, rfl, updates, run,
      inside, dangling, ts, _, derived, run⟩
  cases initializer with
  | none =>
    obtain ⟨l, -, shown⟩ := looped denotes
    exact ⟨l, shown⟩
  | some initializer =>
    obtain ⟨ss, rfl, run⟩ := Statement.denotes_block denotes
    obtain ⟨first, loop, rfl, -, run⟩ := Statement.allDenote_pair run
    obtain ⟨l, plain, rfl, shown⟩ := looped run
    refine ⟨{ l with initializer := some first }, ?_, shown⟩
    simp only [statement, Grammar.forStatement, plain]

variable {l : ForLoop} {outer inner : Nat} {start m next : Moment}

lemma Comes.way (h : l.Comes outer start m) : Relation.ReflTransGen Moment.Leads start m := by
  induction h with
  | @plain n s none =>
    have same : l.statement = .whileLoop l.test l.repeated := by
      simp only [statement, Grammar.forStatement, none]
      rfl
    rw [same]
    exact .single .whileLoop
  | @initialized initializer scope fuel n s t u some opened run =>
    have same : l.statement = .block [initializer, .whileLoop l.test l.repeated] := by
      simp only [statement, Grammar.forStatement, some]
      rfl
    rw [same]
    exact .tail (.tail (.tail (.single (.block opened)) (.others run)) .first) .whileLoop
  | again _ leads ih => exact ih.tail leads

lemma Round.way (h : l.Round outer inner m next) : Relation.ReflTransGen Moment.Leads m next := by
  obtain ⟨run, holds, opened, run'⟩ := h
  exact .tail (.tail (.tail (.tail (.single (.round run holds)) (.block opened)) (.others run'))
    .first) (.subject rfl)

/-- The variable of the initializer is bound where the condition is evaluated. -/
lemma Comes.bound (h : l.Comes outer start m) (begins : Discipline.rooted.Begins start)
    {name : Ident} {initial : Option Expression}
    (declared : l.initializer = some (.declareVar name initial)) :
    m.state.scopes.HasName outer name.name := by
  induction h with
  | plain none => cases none.symm.trans declared
  | @initialized initializer scope fuel n s t u some opened run =>
    cases some.symm.trans declared
    exact Run.declareVar_binds (Exec.openScope_opens opened).1 run
  | again comes leads ih =>
    have now := begins.onward comes.way
    exact (now.lasting (n := 0) (Scopes.hasName_lasting outer name.name) (ih begins)
      (.single leads) (.inl rfl)).2

/-- The names that the block of a round binds when the body has been run are names of loops. From
then on the block binds no others, whatever the increment calls. -/
lemma Round.block (h : l.Round outer inner m next) (begins : Discipline.rooted.Begins m)
    (proper : l.body.Proper) : ∃ bound ⊆ l.body.loopVariables, ∀ {m' : Moment} {t : State}
      {rest : Nat}, Relation.ReflTransGen Moment.Leads next m' →
      (t = m'.state ∨ t = m'.part.after rest m'.state) →
      t.scopes.Rooted ∧ t.scopes.LiesIn inner outer ∧ t.scopes.names? inner = some bound := by
  obtain @⟨fuel, fuel', v, n, s, t, u, w, run, holds, opened, run'⟩ := h
  let inside : Moment := ⟨.statements inner [l.body, .expression l.increment], n, u⟩
  have entered : Relation.ReflTransGen Moment.Leads
      ⟨.whileLoop outer l.test l.repeated, n, s⟩ inside :=
    .tail (.single (.round run holds)) (.block opened)
  have onward : Relation.ReflTransGen Moment.Leads inside
      ⟨.node l.increment.nodes inner l.increment.root, n, w⟩ :=
    .tail (.tail (.single (.others run')) .first) (.subject rfl)
  obtain ⟨known, around, empty⟩ := Exec.openScope_opens opened
  -- what the body binds in the block
  have gains := Run.statement_gains l.body inner fuel' u
  simp only [Exec.after, run'] at gains
  obtain ⟨bound, names, declared⟩ := gains.names inner known
  rw [empty, Option.map_some, List.nil_append] at names
  refine ⟨bound, fun name within => proper.declares_eq ▸ (declared name within).2, ?_⟩
  intro m' t' rest way reached
  have kept := (begins.onward entered).lasting (Scopes.liesIn_lasting inner outer) around
    (onward.trans way) reached
  -- what the increment binds there
  have naming : (Discipline.naming inner [] w.scopes).Begins
      ⟨.node l.increment.nodes inner l.increment.root, n, w⟩ := ⟨.refl _ _ _, trivial, trivial⟩
  have gains' : w.scopes.Gains inner [] t'.scopes := by
    rcases reached with rfl | rfl
    · exact (naming.onward way).1
    · exact (naming.onward way).after rest
  have same := gains'.names?_eq (Nat.lt_of_lt_of_le known gains.grown) fun _ => rfl
  exact ⟨kept.1, kept.2, same.trans names⟩

/-- What the names of the increment mean in the block of a round that binds some names. -/
structure Scoped (l : ForLoop) (outer inner : Nat) (bound : List String) (scopes : Scopes) :
    Prop where
  /-- The block lies in the scope of the condition. -/
  around : scopes.LiesIn inner outer
  names : scopes.names? inner = some bound
  /-- The variable of the initializer is bound in the scope of the condition. -/
  initialized : ∀ name initial, l.initializer = some (.declareVar name initial) →
    scopes.HasName outer name.name
  /-- Other names have the binding that they have in the condition. -/
  shared : ∀ name ∉ bound, scopes.find? inner name = scopes.find? outer name
  captured : ∀ name ∈ bound, ∃ v, scopes.find? inner name = some (inner, v)

end ForLoop

/-- In every round of a `for` in a session, the increment is evaluated in a block that lies in the
scope of the condition, in which the variable of the initializer is bound. As long as it is
evaluated, its names have the bindings that they have in the condition, but for names of loops over
strings that the body has run in the block itself: these have a binding in the block. -/
theorem Session.increments_scoped {fuel : Nat} {texts : List (List Char)} {now : Clock}
    {console : Console} {text : List Char} {ss : List Statement} {l : ForLoop} {outer inner : Nat}
    {start m next : Moment} (read : Source.program text = .ok ss)
    (within : start.Within ss (Session.feedAll fuel texts (State.fresh now console)).2)
    (proper : l.body.Proper) (comes : l.Comes outer start m)
    (round : l.Round outer inner m next) :
    Relation.ReflTransGen Moment.Leads start next ∧
    ∃ bound ⊆ l.body.loopVariables, ∀ m' t rest, Relation.ReflTransGen Moment.Leads next m' →
      (t = m'.state ∨ t = m'.part.after rest m'.state) → l.Scoped outer inner bound t.scopes := by
  have grounded := feedAll_grounded fuel texts (State.fresh_grounded now console)
  have first : Discipline.rooted.Begins ⟨.statements globalScope ss, 0, _⟩ :=
    ⟨grounded, false, grounded.admits read⟩
  have begins := (first.onward within).onward comes.way
  obtain ⟨bound, loops, block⟩ := round.block begins proper
  refine ⟨comes.way.trans round.way, bound, loops, fun m' t rest way reached => ?_⟩
  obtain ⟨rooted, around, names⟩ := block way reached
  refine ⟨around, names, fun name initial declared => ?_, fun name unbound => ?_,
    fun name here => ?_⟩
  · have declared := comes.bound (first.onward within) declared
    exact (begins.lasting (Scopes.hasName_lasting outer name.name) declared
      (round.way.trans way) reached).2
  · refine rooted.find?_inner around ?_
    rintro ⟨others, same, inside⟩
    cases names.symm.trans same
    exact unbound inside
  · exact Scopes.find?_bound ⟨bound, names, here⟩

namespace ForLoop

/-- A loop whose body is a loop over a string that binds the variable of the initializer anew. -/
def shadowing : ForLoop :=
  let i (start : Nat) : Ident := ⟨"i", ⟨start, 1⟩, 1⟩
  { line := 1
    initializer := some (.declareVar (i 9) (some (.single (.atom (.bool true) 1))))
    condition := some (.single (.atom (.identifier (i 19)) 1))
    increment := ⟨#[.atom (.identifier (i 22)) 1, .atom .nil 1, .assign (i 22) 1], 2⟩
    body := .stringLoop (i 41) (.single (.atom (.string "a") 1))
      (.expression (.single (.atom (.identifier (i 51)) 1))) }

lemma shadowing_read :
    Source.program "for (var i = true; i; i = nil) loop (var i in \"a\") i;".toList =
      .ok [shadowing.statement] := by
  cbv

lemma shadowing_proper : shadowing.body.Proper := by
  let token (kind : TokenKind) (start : Nat) (literal : Option Literal) : Token :=
    ⟨kind, ⟨start, 1⟩, 1, "i", literal⟩
  have value : DerivesPhrase (.statement false true)
      ([token .identifier 51 none] ++ [token .semicolon 52 none])
      (.expression (.atom (.identifier ⟨"i", ⟨51, 1⟩, 1⟩) 1)) :=
    .expression (.of_primary (.atom rfl)) rfl
  have text : DerivesTerm .assignment [token .string 46 (some (.string "a"))]
      (.atom (.string "a") 1) := .of_primary (.atom rfl)
  have derived : DerivesPhrase (.statement false true)
      (token .kwLoop 31 none :: token .leftParen 36 none :: token .kwVar 37 none ::
        token .identifier 41 none :: token .kwIn 43 none ::
        ([token .string 46 (some (.string "a"))] ++ token .rightParen 49 none ::
          ([token .identifier 51 none] ++ [token .semicolon 52 none])))
      (.stringLoop ⟨"i", ⟨41, 1⟩, 1⟩ (.atom (.string "a") 1)
        (.expression (.atom (.identifier ⟨"i", ⟨51, 1⟩, 1⟩) 1))) :=
    .stringLoop rfl rfl rfl rfl rfl text rfl value
  have atom (a : Atom) : (Expression.single (.atom a 1)).Denotes (.atom a 1) := by
    simp [Expression.Denotes, Term.LiesAt, Expression.single]
  exact ⟨false, true, _, _, derived, _, _, atom _, ⟨_, atom _, rfl⟩, rfl⟩

end ForLoop

/-- The first round of the loop. -/
lemma ForLoop.shadowing_rounds : ∃ start m next,
    start.Within [shadowing.statement] (Session.feedAll 0 [] (State.fresh 0 ⟨"", [], ""⟩)).2 ∧
      shadowing.Comes 1 start m ∧ shadowing.Round 1 2 m next ∧
      (next.state.scopes.find? 2 "i").map Prod.fst = some 2 ∧
      (next.state.scopes.find? 1 "i").map Prod.fst = some 1 := by
  let initial : Statement := .declareVar ⟨"i", ⟨9, 1⟩, 1⟩ (some (.single (.atom (.bool true) 1)))
  let s := State.fresh 0 ⟨"", [], ""⟩
  let s₁ := Exec.after (Exec.openScope 0 []) s
  let s₂ := (Run.statement 9 1 initial).after s₁
  let s₃ := (Run.expression 9 1 shadowing.test).after s₂
  let s₄ := Exec.after (Exec.openScope 1 []) s₃
  let s₅ := (Run.statement 9 2 shadowing.body).after s₄
  have declared : Run.statement 9 1 initial s₁ = .ok .normal s₂ := Exec.eq_ok (by decide +kernel)
  have holds : Run.expression 9 1 shadowing.test s₂ = .ok (.bool true) s₃ :=
    Exec.eq_ok (by decide +kernel)
  have opened : Exec.openScope 1 [] s₃ = .ok 2 s₄ := Exec.eq_ok (by decide +kernel)
  have body : Run.statement 9 2 shadowing.body s₄ = .ok .normal s₅ :=
    Exec.eq_ok (by decide +kernel)
  exact ⟨⟨.statement 0 shadowing.statement, 0, s⟩, _, _, .single .first,
    .initialized rfl rfl declared, .mk holds rfl opened body, by decide +kernel, by decide +kernel⟩

/-- In the first round the increment is evaluated in the block, which may bind nothing but `i`. -/
theorem Session.increments_scoped_shadowing :
    ∃ start m next,
      Source.program "for (var i = true; i; i = nil) loop (var i in \"a\") i;".toList =
        .ok [ForLoop.shadowing.statement] ∧
      start.Within [ForLoop.shadowing.statement]
        (feedAll 0 [] (State.fresh 0 ⟨"", [], ""⟩)).2 ∧
      ForLoop.shadowing.body.Proper ∧ ForLoop.shadowing.Comes 1 start m ∧
      ForLoop.shadowing.Round 1 2 m next ∧ Relation.ReflTransGen Moment.Leads start next ∧
      ∃ bound ⊆ ["i"], ForLoop.shadowing.Scoped 1 2 bound next.state.scopes := by
  obtain ⟨start, m, next, within, comes, round, -⟩ := ForLoop.shadowing_rounds
  obtain ⟨way, bound, loops, names⟩ :=
    increments_scoped ForLoop.shadowing_read within ForLoop.shadowing_proper comes round
  exact ⟨start, m, next, ForLoop.shadowing_read, within, ForLoop.shadowing_proper, comes, round,
    way, bound, loops, names next _ 0 .refl (.inl rfl)⟩

/-- A loop over a string that is the body takes the name of its variable from the increment. -/
theorem Session.increments_captured :
    Source.program "for (var i = true; i; i = nil) loop (var i in \"a\") i;".toList =
      .ok [ForLoop.shadowing.statement] ∧
    ¬∀ start m next, start.Within [ForLoop.shadowing.statement]
        (feedAll 0 [] (State.fresh 0 ⟨"", [], ""⟩)).2 →
      ForLoop.shadowing.Comes 1 start m → ForLoop.shadowing.Round 1 2 m next →
      ∀ name value, Node.assign name value ∈ ForLoop.shadowing.increment.nodes →
        (next.state.scopes.find? 2 name.name).map Prod.fst =
          (next.state.scopes.find? 1 name.name).map Prod.fst := by
  refine ⟨ForLoop.shadowing_read, fun same => ?_⟩
  obtain ⟨start, m, next, within, comes, round, inner, outer⟩ := ForLoop.shadowing_rounds
  have assigns : Node.assign ⟨"i", ⟨22, 1⟩, 1⟩ 1 ∈ ForLoop.shadowing.increment.nodes := by
    simp [ForLoop.shadowing]
  have wrong := same start m next within comes round _ _ assigns
  rw [inner, outer] at wrong
  cases wrong

end Lox
