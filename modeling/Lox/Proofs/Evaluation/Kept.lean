import Lox.Proofs.Evaluation.Discipline

/-!
Runs keep every discipline, by induction on the fuel: one lemma for each kind of part, which has
the same for the parts within it.
-/

namespace Lox

namespace Discipline

/-- What is returned is a value of the discipline, and nothing is returned outside of functions. -/
def completes (d : Discipline) (inside : Bool) (x : Extent) : Completion → Prop
  | .normal => True
  | .returned v => inside = true ∧ d.value x v

/-- A statement of the fragment and a scope that may bind the names that the statement declares. -/
structure Admits (d : Discipline) (inside : Bool) (x : Extent) (i : Nat) (st : Statement) :
    Prop where
  statement : d.statement inside st
  scope : d.scope x i
  binds : ∀ name ∈ st.declares, d.binds x i name

/-- With so much fuel, runs keep the discipline. -/
structure Kept (d : Discipline) (fuel : Nat) : Prop where
  node {n : Nat} {nodes : Array Node} {scope : Nat} {i : NodeRef} {s : State} :
    d.state n s → d.node nodes i → d.scope s.extent scope →
    d.Keeps n d.value (Run.node fuel nodes scope i) s
  operands {n : Nat} {nodes : Array Node} {scope : Nat} {refs : List NodeRef} {s : State} :
    d.state n s → (∀ i ∈ refs, d.node nodes i) → d.scope s.extent scope →
    d.Keeps n (fun x vs => ∀ v ∈ vs, d.value x v) (Run.operands fuel nodes scope refs) s
  call {n : Nat} {f : Value} {vs : List Value} {line : Nat} {s : State} :
    d.state n s → d.value s.extent f → (∀ v ∈ vs, d.value s.extent v) →
    d.Keeps n d.value (Run.call fuel f vs line) s
  statement {n : Nat} {inside : Bool} {scope : Nat} {st : Statement} {s : State} :
    d.state n s → d.Admits inside s.extent scope st →
    d.Keeps n (d.completes inside) (Run.statement fuel scope st) s
  statements {n : Nat} {inside : Bool} {scope : Nat} {ss : List Statement} {s : State} :
    d.state n s → (∀ st ∈ ss, d.Admits inside s.extent scope st) →
    d.Keeps n (d.completes inside) (Run.statements fuel scope ss) s
  whileLoop {n : Nat} {inside : Bool} {scope : Nat} {e : Expression} {st : Statement} {s : State} :
    d.state n s → d.node e.nodes e.root → d.Admits inside s.extent scope st →
    d.Keeps n (d.completes inside) (Run.whileLoop fuel scope e st) s
  characters {n : Nat} {inside : Bool} {scope : Nat} {name : String} {st : Statement}
    {text : List Char} {s : State} :
    d.state n s → d.binds s.extent scope name → d.Admits inside s.extent scope st →
    d.Keeps n (d.completes inside) (Run.characters fuel scope name st text) s

section

variable {d : Discipline} {n : Nat} {s : State} {scope : Nat} {inside : Bool} {x y : Extent}

lemma completes.plain {c : Completion} (h : d.completes false x c) : c = .normal := by
  cases c with
  | normal => rfl
  | returned v => exact absurd h.1 Bool.false_ne_true

lemma Admits.mono {st : Statement} (h : d.Admits inside x scope st) (more : x ≤ y) :
    d.Admits inside y scope st :=
  ⟨h.statement, d.scope_mono more h.scope, fun name hn => d.binds_mono more (h.binds name hn)⟩

/-- A part that is run in the scope of its statement. -/
lemma Admits.part {st part : Statement} (h : d.Admits inside x scope st)
    (within : part ∈ st.parts) (same : st.encloses inside = inside)
    (names : part.declares ⊆ st.declares) : d.Admits inside x scope part := by
  have fragment := d.part h.statement within
  rw [same] at fragment
  exact ⟨fragment, h.scope, fun name hn => h.binds name (names hn)⟩

lemma Admits.success {e : Expression} {success : Statement} {failure : Option Statement}
    (h : d.Admits inside x scope (.branch e success failure)) :
    d.Admits inside x scope success :=
  h.part (by cases failure <;> simp [Statement.parts]) rfl (by simp [Statement.declares])

lemma Admits.failure {e : Expression} {success failure : Statement}
    (h : d.Admits inside x scope (.branch e success (some failure))) :
    d.Admits inside x scope failure :=
  h.part (by simp [Statement.parts]) rfl (by simp [Statement.declares, Statement.maybeDeclares])

/-- A scope that has just been opened admits all statements of the fragment. -/
lemma Admits.of_opened {st : Statement} (h : d.statement inside st)
    (opened : d.scope x scope ∧ ∀ name, d.binds x scope name) : d.Admits inside x scope st :=
  ⟨h, opened.1, fun name _ => opened.2 name⟩

namespace Kept

lemma zero : d.Kept 0 where
  node kept _ _ := by
    rw [Run.node]
    exact .outOfFuel kept
  operands {_ _ _ refs _} kept _ _ := by
    cases refs with
    | nil =>
      rw [Run.operands]
      exact .pure kept (List.forall_mem_nil _)
    | cons ref refs =>
      rw [Run.operands]
      exact .outOfFuel kept
  call kept _ _ := by
    rw [Run.call]
    exact .outOfFuel kept
  statement kept _ := by
    rw [Run.statement]
    exact .outOfFuel kept
  statements {_ _ _ ss _} kept _ := by
    cases ss with
    | nil =>
      rw [Run.statements]
      exact .pure kept trivial
    | cons st ss =>
      rw [Run.statements]
      exact .outOfFuel kept
  whileLoop kept _ _ := by
    rw [Run.whileLoop]
    exact .outOfFuel kept
  characters {_ _ _ _ _ text _} kept _ _ := by
    cases text with
    | nil =>
      rw [Run.characters]
      exact .pure kept trivial
    | cons c text =>
      rw [Run.characters]
      exact .outOfFuel kept

variable {fuel : Nat} (h : d.Kept fuel)
include h

lemma node_succ {nodes : Array Node} {i : NodeRef} (kept : d.state n s) (here : d.node nodes i)
    (inScope : d.scope s.extent scope) :
    d.Keeps n d.value (Run.node (fuel + 1) nodes scope i) s := by
  cases found : nodes[i]? with
  | none =>
    simp only [Run.node, found]
    exact .of_error rfl kept (d.missingNode here found)
  | some node =>
    have operand {j : NodeRef} (within : j ∈ node.operands) := d.operand here found within
    simp only [Run.node, found]
    cases node with
    | atom atom line => exact atom_keeps kept inScope atom line
    | group inner => exact h.node kept (operand (by simp [Node.operands])) inScope
    | unary op rhs line =>
      refine (h.node kept (operand (by simp [Node.operands])) inScope).bind
        fun v t kept more hv => ?_
      exact .ofExcept kept line (List.forall_mem_singleton.mpr hv)
        (fun w result => d.plain (UnaryOp.apply_plain result)) fun f => UnaryOp.apply_fault
    | binary op lhs rhs line =>
      refine (h.node kept (operand (by simp [Node.operands])) inScope).bind
        fun v t kept more hv => ?_
      refine (h.node kept (operand (by simp [Node.operands])) (d.scope_mono more inScope)).bind
        fun w u kept more hw => ?_
      have known : ∀ z ∈ [v, w], d.value u.extent z :=
        List.forall_mem_cons.mpr ⟨d.value_mono more hv, List.forall_mem_singleton.mpr hw⟩
      exact .ofExcept kept line known (fun w result => d.plain (BinaryOp.apply_plain result))
        fun f => BinaryOp.apply_fault
    | assign target rhs =>
      refine (h.node kept (operand (by simp [Node.operands])) inScope).bind
        fun v t kept more hv => ?_
      refine (assign_keeps kept (d.scope_mono more inScope) _ hv _).bind
        fun _ u kept more _ => ?_
      exact .pure kept (d.value_mono more hv)
    | logical op lhs rhs line =>
      refine (h.node kept (operand (by simp [Node.operands])) inScope).bind
        fun v t kept more hv => ?_
      split
      · exact .pure kept hv
      · exact h.node kept (operand (by simp [Node.operands])) (d.scope_mono more inScope)
    | call callee arguments line =>
      refine (h.node kept (operand (by simp [Node.operands])) inScope).bind
        fun f t kept more hf => ?_
      refine (h.operands kept (fun j within => operand (List.mem_cons_of_mem _ within))
        (d.scope_mono more inScope)).bind fun vs u kept more hv => ?_
      exact h.call kept (d.value_mono more hf) hv
    | read line => exact read_keeps kept
    | rand line => exact rand_keeps kept
    | floor argument line =>
      refine (h.node kept (operand (by simp [Node.operands])) inScope).bind
        fun v t kept more hv => ?_
      exact native_keeps kept _ (List.forall_mem_singleton.mpr hv) line
    | substring subject start stop line =>
      refine (h.node kept (operand (by simp [Node.operands])) inScope).bind
        fun v t kept more hv => ?_
      have inScope := d.scope_mono more inScope
      refine (h.node kept (operand (by simp [Node.operands])) inScope).bind
        fun a t' kept more' ha => ?_
      have inScope := d.scope_mono more' inScope
      refine (h.node kept (operand (by simp [Node.operands])) inScope).bind
        fun b u kept more hb => ?_
      have known : ∀ z ∈ [v, a, b], d.value u.extent z :=
        List.forall_mem_cons.mpr ⟨d.value_mono (le_trans more' more) hv,
          List.forall_mem_cons.mpr ⟨d.value_mono more ha, List.forall_mem_singleton.mpr hb⟩⟩
      exact native_keeps kept _ known line
    | value v line => exact .pure kept (d.quoted here found)

lemma operands_succ {nodes : Array Node} {refs : List NodeRef} (kept : d.state n s)
    (here : ∀ i ∈ refs, d.node nodes i) (inScope : d.scope s.extent scope) :
    d.Keeps n (fun x vs => ∀ v ∈ vs, d.value x v) (Run.operands (fuel + 1) nodes scope refs) s := by
  cases refs with
  | nil =>
    rw [Run.operands]
    exact .pure kept (List.forall_mem_nil _)
  | cons ref refs =>
    simp only [Run.operands]
    refine (h.node kept (here ref List.mem_cons_self) inScope).bind fun v t kept more hv => ?_
    refine (h.operands kept (fun i hi => here i (List.mem_cons_of_mem _ hi))
      (d.scope_mono more inScope)).bind fun vs u kept more hvs => .pure kept ?_
    simp only [List.mem_cons, forall_eq_or_imp]
    exact ⟨d.value_mono more hv, hvs⟩

lemma call_succ {f : Value} {vs : List Value} {line : Nat} (kept : d.state n s)
    (hf : d.value s.extent f) (hv : ∀ v ∈ vs, d.value s.extent v) :
    d.Keeps n d.value (Run.call (fuel + 1) f vs line) s := by
  cases f with
  | native f =>
    simp only [Run.call]
    exact native_keeps kept f.native hv line
  | function f =>
    simp only [Run.call]
    refine .get ?_
    cases found : s.codes[f.number]? with
    | none =>
      have beyond := Array.getElem?_eq_none_iff.mp found
      exact .of_error rfl kept (d.missingCode hf beyond)
    | some code =>
      refine (enter_keeps kept (d.closure hf) code hv line).bind_run
        fun scope t run kept' _ opened => ?_
      have body : d.Keeps (n + 1) (d.completes true)
          (Run.statements fuel scope code.body) { t with calls := t.calls + 1 } :=
        h.statements (d.entered kept' (enter_calls run)) fun st within =>
          .of_opened (d.body kept found within) opened
      refine (nested_keeps body).bind fun completion u kept _ ends => .pure kept ?_
      cases completion with
      | normal => exact d.nil
      | returned v => exact ends.2
  | _ =>
    simp only [Run.call]
    exact .fault kept line (List.forall_mem_singleton.mpr hf)

lemma branch_succ {e : Expression} {success : Statement} {failure : Option Statement}
    (kept : d.state n s) (ha : d.Admits inside s.extent scope (.branch e success failure)) :
    d.Keeps n (d.completes inside)
      (Run.statement (fuel + 1) scope (.branch e success failure)) s := by
  have condition : d.Keeps n d.value (Run.node fuel e.nodes scope e.root) s :=
    h.node kept (d.subject ha.statement rfl) ha.scope
  cases failure with
  | none =>
    simp only [Run.statement]
    refine condition.bind fun v t kept more _ => ?_
    split
    · exact h.statement kept (ha.success.mono more)
    · exact .pure kept trivial
  | some failure =>
    simp only [Run.statement]
    refine condition.bind fun v t kept more _ => ?_
    split
    · exact h.statement kept (ha.success.mono more)
    · exact h.statement kept (ha.failure.mono more)

lemma statement_succ {st : Statement} (kept : d.state n s)
    (ha : d.Admits inside s.extent scope st) :
    d.Keeps n (d.completes inside) (Run.statement (fuel + 1) scope st) s := by
  have subject {e : Expression} (he : st.subject? = some e) :
      d.Keeps n d.value (Run.node fuel e.nodes scope e.root) s :=
    h.node kept (d.subject ha.statement he) ha.scope
  cases st with
  | declareVar name initial =>
    have allowed : d.binds s.extent scope name.name :=
      ha.binds _ (by simp [Statement.declares])
    cases initial with
    | none =>
      simp only [Run.statement]
      refine (declare_keeps kept allowed d.nil).bind fun _ t kept _ _ => ?_
      exact .pure kept trivial
    | some e =>
      simp only [Run.statement]
      refine (subject rfl).bind fun v t kept more hv => ?_
      refine (declare_keeps kept (d.binds_mono more allowed) hv).bind fun _ u kept _ _ => ?_
      exact .pure kept trivial
  | declareFun name parameters body =>
    have allowed : d.binds s.extent scope name.name :=
      ha.binds _ (by simp [Statement.declares])
    have sound : ∀ st ∈ body, d.statement true st := fun st within => d.part ha.statement within
    simp only [Run.statement]
    refine (makeFunction_keeps kept ha.scope sound).bind fun f t kept more hf => ?_
    refine (declare_keeps kept (d.binds_mono more allowed) hf).bind fun _ u kept _ _ => ?_
    exact .pure kept trivial
  | expression e =>
    simp only [Run.statement]
    refine (subject rfl).bind fun v t kept _ _ => ?_
    exact .pure kept trivial
  | print e =>
    simp only [Run.statement]
    refine (subject rfl).bind fun v t kept _ _ => ?_
    refine (print_keeps kept v.text).bind fun _ u kept _ _ => ?_
    exact .pure kept trivial
  | block body =>
    simp only [Run.statement]
    refine (openScope_keeps kept ha.scope (List.forall_mem_nil _)).bind
      fun inner t kept _ opened => ?_
    exact h.statements kept fun st within => .of_opened (d.part ha.statement within) opened
  | branch e success failure => exact h.branch_succ kept ha
  | whileLoop e body =>
    simp only [Run.statement]
    exact h.whileLoop kept (d.subject ha.statement rfl)
      (ha.part List.mem_cons_self rfl (by simp [Statement.declares]))
  | returnFrom line value =>
    have within := d.inside ha.statement
    cases value with
    | none =>
      simp only [Run.statement]
      exact .pure kept ⟨within, d.nil⟩
    | some e =>
      simp only [Run.statement]
      refine (subject rfl).bind fun v t kept _ hv => ?_
      exact .pure kept ⟨within, hv⟩
  | stringLoop name e body =>
    simp only [Run.statement]
    refine (subject rfl).bind fun v t kept more hv => ?_
    cases v with
    | string text =>
      have body : d.Admits inside s.extent scope body :=
        ha.part List.mem_cons_self rfl (by simp [Statement.declares])
      have allowed : d.binds s.extent scope name.name :=
        ha.binds _ (by simp [Statement.declares])
      exact h.characters kept (d.binds_mono more allowed) (body.mono more)
    | _ => exact .fault kept name.line (List.forall_mem_singleton.mpr hv)

lemma statements_succ {ss : List Statement} (kept : d.state n s)
    (ha : ∀ st ∈ ss, d.Admits inside s.extent scope st) :
    d.Keeps n (d.completes inside) (Run.statements (fuel + 1) scope ss) s := by
  cases ss with
  | nil =>
    rw [Run.statements]
    exact .pure kept trivial
  | cons st ss =>
    simp only [Run.statements]
    refine (h.statement kept (ha st List.mem_cons_self)).bind fun completion t kept more ends => ?_
    cases completion with
    | normal =>
      exact h.statements kept fun st within => (ha st (List.mem_cons_of_mem _ within)).mono more
    | returned v => exact .pure kept ends

lemma whileLoop_succ {e : Expression} {st : Statement} (kept : d.state n s)
    (here : d.node e.nodes e.root) (ha : d.Admits inside s.extent scope st) :
    d.Keeps n (d.completes inside) (Run.whileLoop (fuel + 1) scope e st) s := by
  simp only [Run.whileLoop]
  refine (h.node kept here ha.scope).bind fun v t kept more _ => ?_
  have ha := ha.mono more
  split
  · refine (h.statement kept ha).bind fun completion u kept more ends => ?_
    cases completion with
    | normal => exact h.whileLoop kept here (ha.mono more)
    | returned v => exact .pure kept ends
  · exact .pure kept trivial

lemma characters_succ {name : String} {st : Statement} {text : List Char} (kept : d.state n s)
    (allowed : d.binds s.extent scope name) (ha : d.Admits inside s.extent scope st) :
    d.Keeps n (d.completes inside) (Run.characters (fuel + 1) scope name st text) s := by
  cases text with
  | nil =>
    rw [Run.characters]
    exact .pure kept trivial
  | cons c text =>
    simp only [Run.characters]
    refine (declare_keeps kept allowed (d.string _)).bind fun _ t kept more _ => ?_
    have allowed := d.binds_mono more allowed
    have ha := ha.mono more
    refine (h.statement kept ha).bind fun completion u kept more ends => ?_
    cases completion with
    | normal => exact h.characters kept (d.binds_mono more allowed) (ha.mono more)
    | returned v => exact .pure kept ends

lemma succ : d.Kept (fuel + 1) where
  node kept here inScope := h.node_succ kept here inScope
  operands kept here inScope := h.operands_succ kept here inScope
  call kept hf hv := h.call_succ kept hf hv
  statement kept ha := h.statement_succ kept ha
  statements kept ha := h.statements_succ kept ha
  whileLoop kept here ha := h.whileLoop_succ kept here ha
  characters kept allowed ha := h.characters_succ kept allowed ha

end Kept

end

/-- Runs keep every discipline. -/
theorem kept (d : Discipline) (fuel : Nat) : d.Kept fuel := by
  induction fuel with
  | zero => exact .zero
  | succ fuel ih => exact ih.succ

section

variable (d : Discipline) {n : Nat} {s : State} {scope : Nat}

/-- A program does not return. -/
lemma program_keeps (fuel : Nat) {ss : List Statement} (kept : d.state n s)
    (ha : ∀ st ∈ ss, d.Admits false s.extent globalScope st) :
    d.Keeps n (fun _ _ => True) (Run.program fuel ss) s := by
  refine ((d.kept fuel).statements kept ha).bind fun completion t kept _ ends => ?_
  obtain rfl := completes.plain ends
  exact .pure kept trivial

/-- What must hold where a part begins. -/
def Allows (x : Extent) : Part → Prop
  | .node nodes scope i => d.node nodes i ∧ d.scope x scope
  | .call f vs _ => d.value x f ∧ ∀ v ∈ vs, d.value x v
  | .statement scope st => ∃ inside, d.Admits inside x scope st
  | .statements scope ss => ∃ inside, ∀ st ∈ ss, d.Admits inside x scope st
  | .whileLoop scope e st => d.node e.nodes e.root ∧ ∃ inside, d.Admits inside x scope st
  | .characters scope name st _ => d.binds x scope name ∧ ∃ inside, d.Admits inside x scope st

/-- A part begins as the discipline has it. -/
def Begins (m : Moment) : Prop :=
  d.state m.bodies m.state ∧ d.Allows m.state.extent m.part

variable {d}

/-- How a part ends: the discipline is kept, nothing is lost, and the values that are handed on and
the reason to stop are as the discipline has them. -/
structure Ends (d : Discipline) (n : Nat) (s t : State) (yields : List Value)
    (stop : Option Stop) : Prop where
  state : d.state n t
  more : s.extent ≤ t.extent
  values : ∀ v ∈ yields, d.value t.extent v
  stops : ∀ e, stop = some e → d.stop t.extent e

lemma Keeps.ends {α : Type} {P : Extent → α → Prop} {x : Exec α} (h : d.Keeps n P x s)
    {values : α → List Value} (hv : ∀ y a, P y a → ∀ v ∈ values a, d.value y v) :
    d.Ends n s (x.after s) (x.yields values s) (x.stop? s) := by
  cases run : x s with
  | ok a t =>
    obtain ⟨kept, more, result⟩ := h.ok run
    simp only [Exec.after, Exec.yields, Exec.stop?, run]
    exact ⟨kept, more, hv _ a result, by simp⟩
  | error e t =>
    obtain ⟨kept, more, stops⟩ := h.error run
    simp only [Exec.after, Exec.yields, Exec.stop?, run]
    exact ⟨kept, more, List.forall_mem_nil _, by rintro e ⟨⟩; exact stops⟩

lemma completes.values {inside : Bool} (x : Extent) (c : Completion) (h : d.completes inside x c) :
    ∀ v ∈ c.values, d.value x v := by
  cases c with
  | normal => exact List.forall_mem_nil _
  | returned v => exact List.forall_mem_singleton.mpr h.2

lemma Begins.ends {m : Moment} (h : d.Begins m) (fuel : Nat) :
    d.Ends m.bodies m.state (m.part.after fuel m.state) (m.part.yields fuel m.state)
      (m.part.stop? fuel m.state) := by
  obtain ⟨part, bodies, s⟩ := m
  obtain ⟨kept, allowed⟩ := h
  have single (x : Extent) (v : Value) (hv : d.value x v) : ∀ w ∈ [v], d.value x w :=
    List.forall_mem_singleton.mpr hv
  cases part with
  | node nodes scope i => exact ((d.kept fuel).node kept allowed.1 allowed.2).ends single
  | call f vs line => exact ((d.kept fuel).call kept allowed.1 allowed.2).ends single
  | statement scope st =>
    obtain ⟨inside, ha⟩ := allowed
    exact ((d.kept fuel).statement kept ha).ends completes.values
  | statements scope ss =>
    obtain ⟨inside, ha⟩ := allowed
    exact ((d.kept fuel).statements kept ha).ends completes.values
  | whileLoop scope e st =>
    obtain ⟨here, inside, ha⟩ := allowed
    exact ((d.kept fuel).whileLoop kept here ha).ends completes.values
  | characters scope name st text =>
    obtain ⟨named, inside, ha⟩ := allowed
    exact ((d.kept fuel).characters kept named ha).ends completes.values

lemma Begins.after {m : Moment} (h : d.Begins m) (fuel : Nat) :
    d.state m.bodies (m.part.after fuel m.state) :=
  (h.ends fuel).state

/-- A part that leads to another one keeps the discipline up to there, and loses no scope and no
function. -/
lemma Begins.step {m m' : Moment} (h : d.Begins m) (leads : m.Leads m') :
    d.Begins m' ∧ m.state.extent ≤ m'.state.extent := by
  obtain ⟨kept, allowed⟩ := h
  cases leads with
  | operand found split run decides =>
    obtain ⟨here, inScope⟩ := allowed
    have operand := fun j (within : j ∈ _) => d.operand here found within
    rw [split] at operand
    obtain ⟨kept', more, -⟩ := ((d.kept _).operands kept
      (fun i hi => operand i (List.mem_append_left _ hi)) inScope).ok run
    exact ⟨⟨kept', operand _ (by simp), d.scope_mono more inScope⟩, more⟩
  | call found run =>
    obtain ⟨here, inScope⟩ := allowed
    obtain ⟨kept', more, values⟩ := ((d.kept _).operands kept
      (fun i hi => d.operand here found hi) inScope).ok run
    exact ⟨⟨kept', values _ List.mem_cons_self,
      fun v hv => values v (List.mem_cons_of_mem _ hv)⟩, more⟩
  | body found run =>
    obtain ⟨hf, hv⟩ := allowed
    obtain ⟨kept', more, opened⟩ := (enter_keeps kept (d.closure hf) _ hv _).ok run
    exact ⟨⟨d.entered kept' (enter_calls run), true, fun st within =>
      .of_opened (d.body kept found within) opened⟩, more⟩
  | subject he =>
    obtain ⟨inside, ha⟩ := allowed
    exact ⟨⟨kept, d.subject ha.statement he, ha.scope⟩, le_refl _⟩
  | block run =>
    obtain ⟨inside, ha⟩ := allowed
    obtain ⟨kept', more, opened⟩ := (openScope_keeps kept ha.scope (List.forall_mem_nil _)).ok run
    exact ⟨⟨kept', inside, fun st within => .of_opened (d.part ha.statement within) opened⟩, more⟩
  | success run holds =>
    obtain ⟨inside, ha⟩ := allowed
    obtain ⟨kept', more, -⟩ :=
      ((d.kept _).node kept (d.subject ha.statement rfl) ha.scope).ok run
    exact ⟨⟨kept', inside, ha.success.mono more⟩, more⟩
  | failure run holds =>
    obtain ⟨inside, ha⟩ := allowed
    obtain ⟨kept', more, -⟩ :=
      ((d.kept _).node kept (d.subject ha.statement rfl) ha.scope).ok run
    exact ⟨⟨kept', inside, ha.failure.mono more⟩, more⟩
  | whileLoop =>
    obtain ⟨inside, ha⟩ := allowed
    exact ⟨⟨kept, d.subject ha.statement rfl, inside,
      ha.part List.mem_cons_self rfl (by simp [Statement.declares])⟩, le_refl _⟩
  | stringLoop run =>
    obtain ⟨inside, ha⟩ := allowed
    obtain ⟨kept', more, -⟩ :=
      ((d.kept _).node kept (d.subject ha.statement rfl) ha.scope).ok run
    have ha := ha.mono more
    exact ⟨⟨kept', ha.binds _ (by simp [Statement.declares]), inside,
      ha.part List.mem_cons_self rfl (by simp [Statement.declares])⟩, more⟩
  | first =>
    obtain ⟨inside, ha⟩ := allowed
    exact ⟨⟨kept, inside, ha _ List.mem_cons_self⟩, le_refl _⟩
  | others run =>
    obtain ⟨inside, ha⟩ := allowed
    obtain ⟨kept', more, -⟩ := ((d.kept _).statement kept (ha _ List.mem_cons_self)).ok run
    exact ⟨⟨kept', inside, fun st within => (ha st (List.mem_cons_of_mem _ within)).mono more⟩,
      more⟩
  | condition =>
    obtain ⟨here, inside, ha⟩ := allowed
    exact ⟨⟨kept, here, ha.scope⟩, le_refl _⟩
  | round run holds =>
    obtain ⟨here, inside, ha⟩ := allowed
    obtain ⟨kept', more, -⟩ := ((d.kept _).node kept here ha.scope).ok run
    exact ⟨⟨kept', inside, ha.mono more⟩, more⟩
  | again run holds run' =>
    obtain ⟨here, inside, ha⟩ := allowed
    obtain ⟨kept', more, -⟩ := ((d.kept _).node kept here ha.scope).ok run
    have ha := ha.mono more
    obtain ⟨kept'', more', -⟩ := ((d.kept _).statement kept' ha).ok run'
    exact ⟨⟨kept'', here, inside, ha.mono more'⟩, le_trans more more'⟩
  | character run =>
    obtain ⟨named, inside, ha⟩ := allowed
    obtain ⟨kept', more, -⟩ := (declare_keeps kept named (d.string _)).ok run
    exact ⟨⟨kept', inside, ha.mono more⟩, more⟩
  | next run run' =>
    obtain ⟨named, inside, ha⟩ := allowed
    obtain ⟨kept', more, -⟩ := (declare_keeps kept named (d.string _)).ok run
    have named := d.binds_mono more named
    have ha := ha.mono more
    obtain ⟨kept'', more', -⟩ := ((d.kept _).statement kept' ha).ok run'
    exact ⟨⟨kept'', d.binds_mono more' named, inside, ha.mono more'⟩, le_trans more more'⟩

lemma Begins.leads {m m' : Moment} (h : d.Begins m) (leads : m.Leads m') : d.Begins m' :=
  (h.step leads).1

lemma Begins.onward {m m' : Moment} (h : d.Begins m)
    (way : Relation.ReflTransGen Moment.Leads m m') : d.Begins m' := by
  induction way with
  | refl => exact h
  | tail _ leads ih => exact ih.leads leads

/-- Every part of the run of a program begins as the discipline has it. -/
lemma begins_within {ss : List Statement} {m : Moment} (kept : d.state 0 s)
    (ha : ∀ st ∈ ss, d.Admits false s.extent globalScope st) (h : m.Within ss s) : d.Begins m := by
  have begins : d.Begins ⟨.statements globalScope ss, 0, s⟩ := ⟨kept, false, ha⟩
  exact begins.onward h

end

end Discipline

end Lox
