import Lox.Proofs.Evaluation.Calls
import Lox.Proofs.Evaluation.Chains
import Lox.Proofs.Evaluation.Reach

/-!
Sessions keep their scopes rooted in the globals. At every moment of a session the scopes in which
something is run, and those of all functions, are there, and the way outward from them ends at the
globals; so names are looked up in vain only if no scope on the way binds them.
-/

namespace Lox

variable {s t : State}

/-- A discipline that keeps one more invariant of the scopes. -/
def Discipline.keeping (d : Discipline) (inv : Scopes → Prop)
    (declare : ∀ {scopes : Scopes} (i : Nat) (name : String) (v : Value),
      inv scopes → inv (scopes.declare i name v))
    (opened : ∀ {n : Nat} {s : State} {i : Nat} (bs : Bindings),
      d.state n s → d.scope s.extent i → inv s.scopes → inv (s.scopes.opened (some i) bs).2) :
    Discipline where
  toFragment := d.toFragment
  state n s := d.state n s ∧ inv s.scopes
  value := d.value
  scope := d.scope
  binds := d.binds
  stop := d.stop
  value_mono := d.value_mono
  scope_mono := d.scope_mono
  binds_mono := d.binds_mono
  plain := d.plain
  quoted := d.quoted
  body kept := d.body kept.1
  closure := d.closure
  bound kept := d.bound kept.1
  declare kept allowed hv := ⟨d.declare kept.1 allowed hv, declare _ _ _ kept.2⟩
  assign kept inScope found hv := ⟨d.assign kept.1 inScope found hv, declare _ _ _ kept.2⟩
  opened kept inScope hb := ⟨d.opened kept.1 inScope hb, opened _ kept.1 inScope kept.2⟩
  fresh kept := d.fresh kept.1
  made kept inScope hc :=
    have made := d.made kept.1 inScope hc
    ⟨⟨made.1, kept.2⟩, made.2⟩
  printed text kept := ⟨d.printed text kept.1, kept.2⟩
  read kept := ⟨d.read kept.1, kept.2⟩
  rand kept := ⟨d.rand kept.1, kept.2⟩
  timed kept := ⟨d.timed kept.1, kept.2⟩
  entered kept room := ⟨d.entered kept.1 room, kept.2⟩
  left kept := ⟨d.left kept.1, kept.2⟩
  fault := d.fault
  outOfFuel := d.outOfFuel
  missingNode := d.missingNode
  missingCode := d.missingCode

/-- Functions are sound and scopes stay rooted. -/
def Discipline.rooted : Discipline :=
  Region.whole.discipline.keeping Scopes.Rooted (fun i name v h => h.declare i name v)
    fun bs _ inScope h => h.opened inScope.2 bs

/-- A sane state whose scopes are rooted. -/
def State.Grounded (s : State) : Prop :=
  s.Sane ∧ s.scopes.Rooted

lemma State.fresh_grounded (now : Clock) (console : Console) :
    (State.fresh now console).Grounded := by
  refine ⟨State.fresh_sane now console, ⟨_, rfl, rfl⟩, ?_⟩
  intro i cell found inner
  cases i with
  | zero => exact absurd rfl inner
  | succ i => cases found

/-- The globals admit what the grammar derives outside of functions. -/
lemma State.Grounded.admits (h : s.Grounded) {text : List Char} {ss : List Statement}
    (read : Source.program text = .ok ss) :
    ∀ st ∈ ss, Discipline.rooted.Admits false s.extent globalScope st := by
  intro st within
  obtain ⟨-, ps, derived, denote⟩ := Source.program_sound read
  have admits := h.1.admits denote derived.fit st within
  exact ⟨admits.statement, admits.scope, admits.binds⟩

namespace Session

lemma feedAll_grounded (fuel : Nat) (texts : List (List Char)) (start : s.Grounded) :
    (feedAll fuel texts s).2.Grounded := by
  refine (feedAll_keeps (P := State.Grounded) (Q := fun _ => True) (fun t h => ?_)
    (fun text t h => ⟨?_, trivial⟩) texts start).1
  · exact ⟨⟨h.1.scopes, h.1.grown, h.1.others, h.1.codes⟩, h.2⟩
  · cases read : Source.program text with
    | error diagnostics => simpa only [feed, read] using h
    | ok ss =>
      rw [feed_of_program read]
      exact (Discipline.rooted.program_keeps fuel (n := 0) h (h.admits read)).after

end Session

/-- The scope in which a part is run, if it has one. A call has none before that of its body. -/
def Part.scope? : Part → Option Nat
  | .node _ scope _ | .statement scope _ | .statements scope _ | .whileLoop scope _ _
  | .characters scope _ _ _ => some scope
  | .call _ _ _ => none

namespace Moment

/-- A scope is active at a moment of a run: something around the moment is run in it. -/
def Active (start m : Moment) (i : Nat) : Prop :=
  ∃ m', Relation.ReflTransGen Leads start m' ∧ Relation.ReflTransGen Leads m' m ∧
    m'.part.scope? = some i

/-- A value is in flight at a moment of a run: a call around the moment was given it, or a node
around the moment has got it from an operand and evaluates another one. -/
inductive InFlight (start : Moment) (v : Value) : Moment → Prop
  | given {f vs line n s} :
    Relation.ReflTransGen Leads start ⟨.call f vs line, n, s⟩ → v ∈ f :: vs →
    InFlight start v ⟨.call f vs line, n, s⟩
  | operand {nodes scope ref node before next others fuel vs n s t} :
    Relation.ReflTransGen Leads start ⟨.node nodes scope ref, n, s⟩ →
    nodes[ref]? = some node → node.operands = before ++ next :: others →
    Run.operands fuel nodes scope before s = .ok vs t → v ∈ vs →
    Leads ⟨.node nodes scope ref, n, s⟩ ⟨.node nodes scope next, n, t⟩ →
    InFlight start v ⟨.node nodes scope next, n, t⟩
  | within {m m'} : InFlight start v m → Leads m m' → InFlight start v m'

/-- A part looks up a name, for its value or in order to change it, on a line, in a scope and in a
state. -/
inductive Seeks : Moment → String → Nat → Nat → State → Prop
  | name {nodes scope ref name line n s} :
    nodes[ref]? = some (.atom (.identifier name) line) →
    Seeks ⟨.node nodes scope ref, n, s⟩ name.name line scope s
  | target {nodes scope ref target rhs fuel v n s t} :
    nodes[ref]? = some (.assign target rhs) → Run.node fuel nodes scope rhs s = .ok v t →
    Seeks ⟨.node nodes scope ref, n, s⟩ target.name target.line scope t

variable {start m m' : Moment} {v : Value}

lemma InFlight.reached (h : InFlight start v m) : Relation.ReflTransGen Leads start m := by
  induction h with
  | given way _ => exact way
  | operand way _ _ _ _ leads => exact way.tail leads
  | within _ leads ih => exact ih.tail leads

/-- What is in flight is a value of every discipline that is kept. -/
lemma InFlight.known {d : Discipline} (begins : d.Begins start) (h : InFlight start v m) :
    d.value m.state.extent v := by
  induction h with
  | given way within =>
    obtain ⟨-, hf, hv⟩ := begins.onward way
    exact List.forall_mem_cons.mpr ⟨hf, hv⟩ v within
  | operand way found split run within _ =>
    obtain ⟨kept, here, inScope⟩ := begins.onward way
    have operand := fun j (hj : j ∈ _) => d.operand here found hj
    rw [split] at operand
    obtain ⟨-, -, values⟩ := ((d.kept _).operands kept
      (fun i hi => operand i (List.mem_append_left _ hi)) inScope).ok run
    exact values v within
  | within inFlight leads ih =>
    exact d.value_mono ((begins.onward inFlight.reached).step leads).2 ih

/-- The scope of a part is there when the part begins. -/
lemma Leads.scope_there (begins : Discipline.rooted.Begins m) (leads : m.Leads m')
    (there : ∀ i, m.part.scope? = some i → i < m.state.scopes.size) :
    ∀ i, m'.part.scope? = some i → i < m'.state.scopes.size := by
  have more := (begins.step leads).2.1
  obtain ⟨kept, allowed⟩ := begins
  cases leads with
  | call => exact nofun
  | body found run =>
    rintro i ⟨⟩
    have opened := (Discipline.enter_keeps kept (Discipline.rooted.closure allowed.1) _
      allowed.2 _).ok run
    exact opened.2.2.1.2
  | block run =>
    rintro i ⟨⟩
    obtain ⟨inside, admits⟩ := allowed
    have opened := (Discipline.openScope_keeps kept admits.scope (List.forall_mem_nil _)).ok run
    exact opened.2.2.1.2
  | _ => exact fun i here => Nat.lt_of_lt_of_le (there i here) more

lemma scope_there_onward (begins : Discipline.rooted.Begins start)
    (there : ∀ i, start.part.scope? = some i → i < start.state.scopes.size)
    (way : Relation.ReflTransGen Leads start m) :
    ∀ i, m.part.scope? = some i → i < m.state.scopes.size := by
  induction way with
  | refl => exact there
  | tail way leads ih => exact leads.scope_there (begins.onward way) ih

lemma size_le_onward (begins : Discipline.rooted.Begins start)
    (way : Relation.ReflTransGen Leads start m) :
    start.state.scopes.size ≤ m.state.scopes.size := by
  induction way with
  | refl => exact Nat.le_refl _
  | tail way leads ih => exact Nat.le_trans ih ((begins.onward way).step leads).2.1

lemma Active.there (begins : Discipline.rooted.Begins start)
    (there : ∀ i, start.part.scope? = some i → i < start.state.scopes.size) {i : Nat}
    (active : Active start m i) : i < m.state.scopes.size := by
  obtain ⟨m', way, onward, here⟩ := active
  exact Nat.lt_of_lt_of_le (scope_there_onward begins there way i here)
    (size_le_onward (begins.onward way) onward)

/-- The parts that find a name undefined are those that look it up in vain. -/
lemma raises_undefined {name : String} {line : Nat} :
    m.Raises ⟨.undefined name, line⟩ ↔
      ∃ scope t, m.Seeks name line scope t ∧ t.scopes.find? scope name = none := by
  constructor
  · intro raises
    generalize he : (⟨.undefined name, line⟩ : RuntimeError) = e at raises
    cases raises with
    | name found unbound =>
      cases he
      exact ⟨_, _, .name found, Option.map_eq_none_iff.mp unbound⟩
    | target found run unbound =>
      cases he
      exact ⟨_, _, .target found run, unbound⟩
    | unary _ _ fault =>
      cases he
      exact absurd rfl ((UnaryOp.apply_fault fault).unnamed name)
    | binary _ _ fault =>
      cases he
      exact absurd rfl ((BinaryOp.apply_fault fault).unnamed name)
    | floor _ _ run | substring _ _ run | native run =>
      cases he
      obtain ⟨-, arity | ⟨now, failed⟩⟩ := Run.native_stops run
      · cases arity
      · exact absurd rfl ((Native.apply_fault failed).unnamed name)
    | @entry f code vs line' e n s t found run =>
      subst he
      rcases Exec.bind_stops run with run | ⟨_, u, -, run⟩
      · cases (Run.checkArity_stops run).2
      · rcases Exec.bind_stops run with run | ⟨_, _, -, run⟩
        · cases run
        · split at run <;> cases run
    | callee | iterable => cases he
  · rintro ⟨scope, t, seeks, unbound⟩
    cases seeks with
    | name found => exact .name found (Option.map_eq_none_iff.mpr unbound)
    | target found run => exact .target found run unbound

/-- Where scopes are rooted, a run finds a name undefined if and only if it comes to a part that
looks the name up while no scope on the way outward binds it. -/
lemma stop?_eq_undefined_iff (begins : Discipline.rooted.Begins m) {fuel : Nat}
    (ends : m.part.stop? fuel m.state ≠ some .outOfFuel) {name : String} {line : Nat} :
    m.part.stop? fuel m.state = some (.error ⟨.undefined name, line⟩) ↔
      ∃ m' scope t, Relation.ReflTransGen Leads m m' ∧ m'.Seeks name line scope t ∧
        ∀ i, t.scopes.Chain scope i → ¬t.scopes.HasName i name := by
  have rooted {m' : Moment} {scope : Nat} {t : State} (way : Relation.ReflTransGen Leads m m')
      (seeks : m'.Seeks name line scope t) : t.scopes.Rooted := by
    have begins' := begins.onward way
    cases seeks with
    | name => exact begins'.1.2
    | target found run =>
      have operand := Discipline.rooted.operand begins'.2.1 found List.mem_cons_self
      exact (((Discipline.rooted.kept _).node begins'.1 operand begins'.2.2).ok run).1.2
  refine (stop?_eq_error_iff ends _).trans ⟨?_, ?_⟩
  · rintro ⟨m', way, raises⟩
    obtain ⟨scope, t, seeks, unbound⟩ := raises_undefined.mp raises
    exact ⟨m', scope, t, way, seeks, (rooted way seeks).find?_eq_none_iff.mp unbound⟩
  · rintro ⟨m', scope, t, way, seeks, nowhere⟩
    exact ⟨m', way, raises_undefined.mpr
      ⟨scope, t, seeks, (rooted way seeks).find?_eq_none_iff.mpr nowhere⟩⟩

end Moment

/-- Whenever a part of a program begins or ends in a session, whatever came before and however it
ends, each scope but the globals lies in an older one. The scopes that are active, and those of the
functions that are bound or in flight, are there, and so are those of the functions that a part
hands on or that its error shows. From each scope the way outward is finite and ends at the globals,
so every look-up comes to an end, what is bound globally means something everywhere, and a name is
undefined for a part if and only if a look-up of it finds it bound in no scope on the way. -/
theorem Session.scopes_rooted {fuel : Nat} {texts : List (List Char)} {now : Clock}
    {console : Console} {text : List Char} {ss : List Statement} {m : Moment}
    (read : Source.program text = .ok ss)
    (within : m.Within ss (Session.feedAll fuel texts (State.fresh now console)).2) (rest : Nat) :
    let start : Moment :=
      ⟨.statements globalScope ss, 0, (Session.feedAll fuel texts (State.fresh now console)).2⟩
    (∀ t, t = m.state ∨ t = m.part.after rest m.state →
      t.scopes.Rooted ∧ (WellFounded fun p i => t.scopes.LiesIn i p) ∧
      (∀ i, start.Active m i → i < t.scopes.size) ∧
      (∀ f, (∃ i, t.scopes.Binds i f) ∨ start.InFlight (.function f) m →
        f.scope < t.scopes.size) ∧
      ∀ i < t.scopes.size, t.scopes.Chain i globalScope ∧ ∀ name,
        (∀ depth > i, t.scopes.findWithin name depth i = t.scopes.find? i name) ∧
        (t.scopes.HasName globalScope name → ∃ v, t.scopes.get? i name = some v)) ∧
    (∀ f, .function f ∈ m.part.yields rest m.state ∨
      (∃ e, m.part.stop? rest m.state = some (.error e) ∧ .function f ∈ e.fault.values) →
      f.scope < (m.part.after rest m.state).scopes.size) ∧
    (m.part.stop? rest m.state ≠ some .outOfFuel → ∀ name line,
      (m.part.stop? rest m.state = some (.error ⟨.undefined name, line⟩) ↔
        ∃ m' scope t, Relation.ReflTransGen Moment.Leads m m' ∧ m'.Seeks name line scope t ∧
          ∀ i, t.scopes.Chain scope i → ¬t.scopes.HasName i name)) := by
  intro start
  have grounded := feedAll_grounded fuel texts (State.fresh_grounded now console)
  have first : Discipline.rooted.Begins start := ⟨grounded, false, grounded.admits read⟩
  have globals : ∀ i, start.part.scope? = some i → i < start.state.scopes.size := by
    rintro i ⟨⟩
    exact grounded.1.grown
  have begins := first.onward within
  have ends := begins.ends rest
  refine ⟨fun t here => ?_, fun f handed => ?_, fun proper name line => ?_⟩
  · have state : Discipline.rooted.state m.bodies t ∧ m.state.extent ≤ t.extent := by
      rcases here with rfl | rfl
      · exact ⟨begins.1, le_refl _⟩
      · exact ⟨ends.state, ends.more⟩
    obtain ⟨⟨sane, rooted⟩, more⟩ := state
    refine ⟨rooted, rooted.wellFounded, fun i active => ?_, fun f known => ?_, fun i there => ?_⟩
    · exact Nat.lt_of_lt_of_le (active.there first globals) more.1
    · rcases known with ⟨i, cell, name, there, bound⟩ | inFlight
      · exact (sane.scopes.value trivial there bound f rfl).2.1
      · exact Nat.lt_of_lt_of_le (inFlight.known first f rfl).2.1 more.1
    · exact ⟨rooted.chain_globals there, fun name =>
        ⟨fun depth enough => rooted.find?_eq name enough, rooted.get?_of_global there⟩⟩
  · rcases handed with yielded | ⟨e, stops, shown⟩
    · exact (ends.values _ yielded f rfl).2.1
    · exact ((ends.stops _ stops).2 e rfl _ shown f rfl).2.1
  · exact Moment.stop?_eq_undefined_iff begins proper

/-- A function of an earlier text makes another one, which is called before a name is looked up in
vain. -/
theorem Session.scopes_rooted_counter :
    let texts := ["fun make() { var n = 0; fun up() { n = n + 1; return n; } return up; }".toList]
    let text := "var up = make(); up(); print lost;".toList
    let s := (Session.feedAll 30 texts (State.fresh 0 ⟨"", [], ""⟩)).2
    ∃ ss, Source.program text = .ok ss ∧
      let start : Moment := ⟨.statements globalScope ss, 0, s⟩
      let t := start.part.after 30 s
      start.Within ss s ∧ start.part.stop? 30 s = some (.error ⟨.undefined "lost", 1⟩) ∧
        t.scopes.size = 3 ∧ t.scopes.Rooted ∧ (∀ i < 3, t.scopes.Chain i globalScope) ∧
        ∃ m' scope u, Relation.ReflTransGen Moment.Leads start m' ∧
          m'.Seeks "lost" 1 scope u ∧
          ∀ i, u.scopes.Chain scope i → ¬u.scopes.HasName i "lost" := by
  intro texts text s
  have fails : (Source.program text).toOption.map (fun ss =>
      ((Part.statements globalScope ss).stop? 30 s,
        ((Part.statements globalScope ss).after 30 s).scopes.size)) =
      some (some (.error ⟨.undefined "lost", 1⟩), 3) := by decide +kernel
  cases read : Source.program text with
  | error ds => simp [read, Except.toOption] at fails
  | ok ss =>
    rw [read] at fails
    obtain ⟨stops, size⟩ := Prod.mk.inj (Option.some.inj fails)
    have within : Moment.Within ss s ⟨.statements globalScope ss, 0, s⟩ := .refl
    obtain ⟨states, -, undefined⟩ := Session.scopes_rooted read within 30
    obtain ⟨rooted, -, -, -, chains⟩ := states _ (.inr rfl)
    exact ⟨ss, rfl, within, stops, size, rooted, fun i there => (chains i (size ▸ there)).1,
      (undefined (by simp [stops]) "lost" 1).mp stops⟩

end Lox
