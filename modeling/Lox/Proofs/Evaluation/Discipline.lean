import Lox.Proofs.Evaluation.Parts
import Mathlib.Order.Defs.PartialOrder

/-!
Disciplines. A discipline says what holds of states, values and scopes while programs run, and that
single steps keep it.
-/

namespace Lox

variable {α β : Type}

/-- How many scopes and how many functions there are. -/
structure Extent where
  scopes : Nat
  functions : Nat

instance : Preorder Extent where
  le x y := x.scopes ≤ y.scopes ∧ x.functions ≤ y.functions
  le_refl _ := ⟨Nat.le_refl _, Nat.le_refl _⟩
  le_trans _ _ _ h k := ⟨Nat.le_trans h.1 k.1, Nat.le_trans h.2 k.2⟩

def Machine.extent {Body : Type} (s : Machine Body) : Extent :=
  ⟨s.scopes.size, s.codes.size⟩

/-- Not a function of a program. -/
def Value.Plain (v : Value) : Prop :=
  ∀ f, v ≠ .function f

/-- The values that a fault shows. -/
def Fault.values : Fault → List Value
  | .notNumber v | .notCallable v | .argumentNotNumber v | .notIterable v => [v]
  | .notNumbers l r | .notAddable l r => [l, r]
  | .undefined _ | .argumentCount _ _ | .substringArguments | .substringRange _ _ _
  | .callsTooDeep => []

/-- A fault that an operation finds with its operands: it shows no other values, and is about no
name and no depth of calls. -/
structure Fault.Of (f : Fault) (operands : List Value) : Prop where
  values : f.values ⊆ operands
  unnamed (name : String) : f ≠ .undefined name
  shallow : f ≠ .callsTooDeep

/-- Whether a function encloses the parts of a statement, where it is told for the statement. -/
def Statement.encloses (inside : Bool) : Statement → Bool
  | .declareFun _ _ _ => true
  | _ => inside

/-- A fragment of the language: some nodes and statements, with all their parts. Statements in the
body of a function are told from others, and only they return. -/
structure Fragment where
  node : Array Node → NodeRef → Prop
  statement : Bool → Statement → Prop
  operand {nodes : Array Node} {i j : NodeRef} {found : Node} :
    node nodes i → nodes[i]? = some found → j ∈ found.operands → node nodes j
  subject {inside : Bool} {st : Statement} {e : Expression} :
    statement inside st → st.subject? = some e → node e.nodes e.root
  part {inside : Bool} {st part : Statement} :
    statement inside st → part ∈ st.parts → statement (st.encloses inside) part
  inside {inside : Bool} {line : Nat} {value : Option Expression} :
    statement inside (.returnFrom line value) → inside = true

/-- What holds while programs of a fragment run. -/
structure Discipline extends Fragment where
  /-- The states in which so many bodies of functions are being run. -/
  state : Nat → State → Prop
  value : Extent → Value → Prop
  /-- The scopes in which expressions are evaluated. -/
  scope : Extent → Nat → Prop
  /-- The names that may be declared in a scope. -/
  binds : Extent → Nat → String → Prop
  stop : Extent → Stop → Prop
  value_mono {x y : Extent} {v : Value} : x ≤ y → value x v → value y v
  scope_mono {x y : Extent} {i : Nat} : x ≤ y → scope x i → scope y i
  binds_mono {x y : Extent} {i : Nat} {name : String} : x ≤ y → binds x i name → binds y i name
  plain {x : Extent} {v : Value} : v.Plain → value x v
  quoted {nodes : Array Node} {i : NodeRef} {v : Value} {line : Nat} {x : Extent} :
    node nodes i → nodes[i]? = some (.value v line) → value x v
  body {n : Nat} {s : State} {i : Nat} {code : Code (List Statement)} {st : Statement} :
    state n s → s.codes[i]? = some code → st ∈ code.body → statement true st
  closure {x : Extent} {f : FunctionObject} : value x (.function f) → scope x f.scope
  bound {n : Nat} {s : State} {i : Nat} {name : String} {v : Value} :
    state n s → scope s.extent i → s.scopes.get? i name = some v → value s.extent v
  declare {n : Nat} {s : State} {i : Nat} {name : String} {v : Value} :
    state n s → binds s.extent i name → value s.extent v →
    state n { s with scopes := s.scopes.declare i name v }
  assign {n : Nat} {s : State} {i : Nat} {name : String} {holder : Nat} {old v : Value} :
    state n s → scope s.extent i → s.scopes.find? i name = some (holder, old) →
    value s.extent v → state n { s with scopes := s.scopes.declare holder name v }
  opened {n : Nat} {s : State} {i : Nat} {bs : Bindings} :
    state n s → scope s.extent i → (∀ entry ∈ bs, value s.extent entry.2) →
    state n { s with scopes := (s.scopes.opened (some i) bs).2 }
  fresh {n : Nat} {s : State} :
    state n s → scope ⟨s.scopes.size + 1, s.codes.size⟩ s.scopes.size ∧
      ∀ name, binds ⟨s.scopes.size + 1, s.codes.size⟩ s.scopes.size name
  made {n : Nat} {s : State} {i : Nat} {code : Code (List Statement)} :
    state n s → scope s.extent i → (∀ st ∈ code.body, statement true st) →
    state n { s with codes := s.codes.push code } ∧ value ⟨s.scopes.size, s.codes.size + 1⟩
      (.function ⟨code.name.name, code.parameters.length, s.codes.size, i⟩)
  printed {n : Nat} {s : State} (text : String) :
    state n s → state n { s with console := s.console.writeLine text }
  read {n : Nat} {s : State} : state n s → state n { s with console := s.console.read.2 }
  rand {n : Nat} {s : State} : state n s → state n { s with rand := Rand.next s.rand }
  timed {n : Nat} {s : State} : state n s → state n { s with now := s.now.next }
  entered {n : Nat} {s : State} :
    state n s → s.calls < maxCalls → state (n + 1) { s with calls := s.calls + 1 }
  left {n : Nat} {s : State} : state (n + 1) s → state n { s with calls := s.calls - 1 }
  fault {x : Extent} {f : Fault} {line : Nat} :
    (∀ v ∈ f.values, value x v) → stop x (.error ⟨f, line⟩)
  outOfFuel {x : Extent} : stop x .outOfFuel
  missingNode {x : Extent} {nodes : Array Node} {i : NodeRef} :
    node nodes i → nodes[i]? = none → stop x (.defect (.missingNode i))
  missingCode {x : Extent} {f : FunctionObject} :
    value x (.function f) → x.functions ≤ f.number → stop x (.defect (.missingCode f.number))

namespace Discipline

/-- A step keeps the discipline and loses no scope and no function. Its result is as said for what
there is in the end. -/
structure Keeps (d : Discipline) (n : Nat) (P : Extent → α → Prop) (x : Exec α) (s : State) :
    Prop where
  ok {a : α} {t : State} : x s = .ok a t → d.state n t ∧ s.extent ≤ t.extent ∧ P t.extent a
  error {e : Stop} {t : State} :
    x s = .error e t → d.state n t ∧ s.extent ≤ t.extent ∧ d.stop t.extent e

lemma nil (d : Discipline) {x : Extent} : d.value x .nil :=
  d.plain nofun

lemma string (d : Discipline) {x : Extent} (text : String) : d.value x (.string text) :=
  d.plain nofun

section

variable {d : Discipline} {n : Nat} {s t : State}

namespace Keeps

variable {P : Extent → α → Prop} {Q : Extent → β → Prop} {x : Exec α} {f : α → Exec β}

lemma bind_run (h : d.Keeps n P x s) (hf : ∀ a t, x s = .ok a t → d.state n t →
    s.extent ≤ t.extent → P t.extent a → d.Keeps n Q (f a) t) : d.Keeps n Q (x >>= f) s := by
  have runs : (x >>= f) s = EStateM.bind x f s := rfl
  cases hx : x s with
  | ok a t =>
    rw [EStateM.bind, hx] at runs
    obtain ⟨kept, more, result⟩ := h.ok hx
    have next := hf a t hx kept more result
    constructor
    · intro b u run
      obtain ⟨kept', more', result'⟩ := next.ok (runs.symm.trans run)
      exact ⟨kept', le_trans more more', result'⟩
    · intro e u run
      obtain ⟨kept', more', stops⟩ := next.error (runs.symm.trans run)
      exact ⟨kept', le_trans more more', stops⟩
  | error e t =>
    rw [EStateM.bind, hx] at runs
    constructor
    · intro b u run
      cases runs.symm.trans run
    · intro e' u run
      cases runs.symm.trans run
      exact h.error hx

lemma bind (h : d.Keeps n P x s) (hf : ∀ a t, d.state n t → s.extent ≤ t.extent →
    P t.extent a → d.Keeps n Q (f a) t) : d.Keeps n Q (x >>= f) s :=
  h.bind_run fun a t _ => hf a t

lemma of_ok {a : α} (run : x s = .ok a t) (kept : d.state n t) (more : s.extent ≤ t.extent)
    (result : P t.extent a) : d.Keeps n P x s := by
  constructor
  · intro b u run'
    cases run.symm.trans run'
    exact ⟨kept, more, result⟩
  · intro e u run'
    cases run.symm.trans run'

lemma of_error {e : Stop} (run : x s = .error e s) (kept : d.state n s)
    (stops : d.stop s.extent e) : d.Keeps n P x s := by
  constructor
  · intro b u run'
    cases run.symm.trans run'
  · intro e' u run'
    cases run.symm.trans run'
    exact ⟨kept, le_refl _, stops⟩

lemma pure {a : α} (kept : d.state n s) (h : P s.extent a) : d.Keeps n P (pure a) s :=
  .of_ok rfl kept (le_refl _) h

lemma outOfFuel (kept : d.state n s) : d.Keeps n P (throw .outOfFuel) s :=
  .of_error rfl kept d.outOfFuel

lemma fault (kept : d.state n s) (line : Nat) {f : Fault}
    (shown : ∀ v ∈ f.values, d.value s.extent v) : d.Keeps n P (Exec.fault line f) s :=
  .of_error rfl kept (d.fault shown)

/-- An operation whose faults show its operands only. -/
lemma ofExcept (kept : d.state n s) (line : Nat) {vs : List Value}
    (hv : ∀ v ∈ vs, d.value s.extent v) {x : Except Fault α} (h : ∀ a, x = .ok a → P s.extent a)
    (hf : ∀ f, x = .error f → f.Of vs) : d.Keeps n P (Exec.ofExcept line x) s := by
  cases x with
  | ok a => exact .pure kept (h a rfl)
  | error f => exact .fault kept line fun v shown => hv v ((hf f rfl).values shown)

lemma get {f : State → Exec β} (h : d.Keeps n Q (f s) s) : d.Keeps n Q (get >>= f) s :=
  ⟨h.ok, h.error⟩

/-- The state is one of the discipline however the step ends. -/
lemma after (h : d.Keeps n P x s) : d.state n (x.after s) := by
  cases hx : x s with
  | ok a t => simpa only [Exec.after, hx] using (h.ok hx).1
  | error e t => simpa only [Exec.after, hx] using (h.error hx).1

end Keeps

end

end Discipline

section

variable {v w l r : Value}

lemma Value.numeric_plain {op : Float → Float → Value} (h : Value.numeric op l r = .ok w)
    (ho : ∀ x y, (op x y).Plain) : w.Plain := by
  unfold Value.numeric at h
  split at h <;> cases h
  exact ho _ _

lemma UnaryOp.apply_plain {op : UnaryOp} (h : op.apply v = .ok w) : w.Plain := by
  cases op with
  | not =>
    cases h
    exact nofun
  | negate =>
    simp only [UnaryOp.apply, Value.negate] at h
    split at h <;> cases h
    exact nofun

lemma BinaryOp.apply_plain {op : BinaryOp} (h : op.apply l r = .ok w) : w.Plain := by
  cases op with
  | add =>
    simp only [BinaryOp.apply, Value.add] at h
    split at h <;> cases h <;> exact nofun
  | equal | notEqual =>
    cases h
    exact nofun
  | _ => exact Value.numeric_plain h fun _ _ => nofun

lemma Native.apply_plain {f : Native} {now : Float} {vs : List Value}
    (h : f.apply now vs = .ok w) : w.Plain := by
  cases f with
  | clock =>
    cases h
    exact nofun
  | floor =>
    simp only [Native.apply, Native.applyFloor] at h
    split at h <;> cases h
    exact nofun
  | substring =>
    simp only [Native.apply, Native.applySubstring] at h
    split at h
    · split at h
      · split at h <;> cases h <;> exact nofun
      · cases h
    · cases h

lemma Value.negate_fault {f : Fault} (h : v.negate = .error f) : f.Of [v] := by
  unfold Value.negate at h
  split at h <;> cases h
  exact ⟨by simp [Fault.values], nofun, nofun⟩

lemma Value.numeric_fault {op : Float → Float → Value} {f : Fault}
    (h : Value.numeric op l r = .error f) : f.Of [l, r] := by
  unfold Value.numeric at h
  split at h <;> cases h
  exact ⟨by simp [Fault.values], nofun, nofun⟩

lemma UnaryOp.apply_fault {op : UnaryOp} {f : Fault} (h : op.apply v = .error f) : f.Of [v] := by
  cases op with
  | not => cases h
  | negate => exact Value.negate_fault h

lemma BinaryOp.apply_fault {op : BinaryOp} {f : Fault} (h : op.apply l r = .error f) :
    f.Of [l, r] := by
  cases op with
  | add =>
    simp only [BinaryOp.apply, Value.add] at h
    split at h <;> cases h
    exact ⟨by simp [Fault.values], nofun, nofun⟩
  | equal | notEqual => cases h
  | _ => exact Value.numeric_fault h

lemma Native.apply_fault {native : Native} {now : Float} {vs : List Value} {f : Fault}
    (h : native.apply now vs = .error f) : f.Of vs := by
  cases native with
  | clock => cases h
  | floor =>
    simp only [Native.apply, Native.applyFloor] at h
    split at h <;> cases h <;> exact ⟨by simp [Fault.values], nofun, nofun⟩
  | substring =>
    simp only [Native.apply, Native.applySubstring] at h
    repeat' split at h
    all_goals cases h <;> exact ⟨by simp [Fault.values], nofun, nofun⟩

end

namespace Bindings

lemma mem_set {name : String} {v : Value} {bs : Bindings} {entry : String × Value}
    (h : entry ∈ Bindings.set name v bs) : entry.2 = v ∨ entry ∈ bs := by
  induction bs with
  | nil =>
    obtain rfl := List.mem_singleton.mp h
    exact .inl rfl
  | cons first bs ih =>
    obtain ⟨other, old⟩ := first
    simp only [Bindings.set] at h
    split at h
    · rcases List.mem_cons.mp h with rfl | within
      · exact .inl rfl
      · exact .inr (List.mem_cons_of_mem _ within)
    · rcases List.mem_cons.mp h with rfl | within
      · exact .inr List.mem_cons_self
      · exact (ih within).imp_right (List.mem_cons_of_mem _)

lemma mem_ofLists {names : List String} {values : List Value} {bs : Bindings}
    {entry : String × Value} (h : entry ∈ Bindings.ofLists names values bs) :
    entry.2 ∈ values ∨ entry ∈ bs := by
  induction names generalizing bs values with
  | nil => exact .inr h
  | cons name names ih =>
    cases values with
    | nil => exact .inr h
    | cons v values =>
      rcases ih h with within | within
      · exact .inl (List.mem_cons_of_mem _ within)
      · rcases mem_set within with rfl | within
        · exact .inl List.mem_cons_self
        · exact .inr within

end Bindings

namespace Discipline

section

variable {d : Discipline} {n : Nat} {s : State} {scope : Nat}

lemma lookup_keeps (kept : d.state n s) (inScope : d.scope s.extent scope) (name : String)
    (line : Nat) : d.Keeps n d.value (Exec.lookup scope name line) s := by
  cases found : s.scopes.get? scope name with
  | none =>
    have run : Exec.lookup scope name line s = .error (.error ⟨.undefined name, line⟩) s := by
      simp only [Exec.lookup, found]
    exact .of_error run kept (d.fault (List.forall_mem_nil _))
  | some v =>
    have run : Exec.lookup scope name line s = .ok v s := by simp only [Exec.lookup, found]
    exact .of_ok run kept (le_refl _) (d.bound kept inScope found)

lemma extent_declare (scopes : Scopes) (name : String) (v : Value) (i : Nat) :
    Machine.extent { s with scopes := scopes.declare i name v } = ⟨scopes.size, s.codes.size⟩ := by
  simp [Machine.extent, Scopes.declare]

lemma declare_keeps (kept : d.state n s) {name : String} (allowed : d.binds s.extent scope name)
    {v : Value} (hv : d.value s.extent v) :
    d.Keeps n (fun _ _ => True) (Exec.declare scope name v) s :=
  .of_ok rfl (d.declare kept allowed hv) (le_of_eq (extent_declare _ name v scope).symm) trivial

lemma assign_keeps (kept : d.state n s) (inScope : d.scope s.extent scope) (name : String)
    {v : Value} (hv : d.value s.extent v) (line : Nat) :
    d.Keeps n (fun _ _ => True) (Exec.assign scope name v line) s := by
  cases found : s.scopes.find? scope name with
  | none =>
    have run : Exec.assign scope name v line s = .error (.error ⟨.undefined name, line⟩) s := by
      simp only [Exec.assign, found]
    exact .of_error run kept (d.fault (List.forall_mem_nil _))
  | some place =>
    have run : Exec.assign scope name v line s =
        .ok () { s with scopes := s.scopes.declare place.1 name v } := by
      simp only [Exec.assign, found]
    exact .of_ok run (d.assign kept inScope found hv)
      (le_of_eq (extent_declare _ name v place.1).symm) trivial

lemma openScope_keeps (kept : d.state n s) (inScope : d.scope s.extent scope) {bs : Bindings}
    (hb : ∀ entry ∈ bs, d.value s.extent entry.2) :
    d.Keeps n (fun x i => d.scope x i ∧ ∀ name, d.binds x i name) (Exec.openScope scope bs) s := by
  have grown : Machine.extent { s with scopes := (s.scopes.opened (some scope) bs).2 } =
      ⟨s.scopes.size + 1, s.codes.size⟩ := by simp [Machine.extent, Scopes.opened]
  have run : Exec.openScope scope bs s =
    .ok s.scopes.size { s with scopes := (s.scopes.opened (some scope) bs).2 } := rfl
  refine .of_ok run (d.opened kept inScope hb) ?_ ?_
  · rw [grown]
    exact ⟨Nat.le_succ _, Nat.le_refl _⟩
  · rw [grown]
    exact d.fresh kept

lemma makeFunction_keeps (kept : d.state n s) (inScope : d.scope s.extent scope)
    {code : Code (List Statement)} (hc : ∀ st ∈ code.body, d.statement true st) :
    d.Keeps n d.value (Exec.makeFunction code scope) s := by
  have grown : Machine.extent { s with codes := s.codes.push code } =
      ⟨s.scopes.size, s.codes.size + 1⟩ := by simp [Machine.extent]
  have run : Exec.makeFunction code scope s =
    .ok (.function ⟨code.name.name, code.parameters.length, s.codes.size, scope⟩)
      { s with codes := s.codes.push code } := rfl
  obtain ⟨kept', made⟩ := d.made kept inScope hc
  refine .of_ok run kept' ?_ ?_
  · rw [grown]
    exact ⟨Nat.le_refl _, Nat.le_succ _⟩
  · rw [grown]
    exact made

lemma print_keeps (kept : d.state n s) (text : String) :
    d.Keeps n (fun _ _ => True) (Exec.print text) s :=
  .of_ok rfl (d.printed text kept) (le_refl _) trivial

lemma read_keeps (kept : d.state n s) : d.Keeps n d.value Exec.read s :=
  .of_ok rfl (d.read kept) (le_refl _) (d.plain nofun)

lemma rand_keeps (kept : d.state n s) : d.Keeps n d.value Exec.rand s :=
  .of_ok rfl (d.rand kept) (le_refl _) (d.plain nofun)

lemma time_keeps (kept : d.state n s) (f : Native) :
    d.Keeps n (fun _ _ => True) (Exec.time f) s := by
  cases f with
  | clock => exact .of_ok rfl (d.timed kept) (le_refl _) trivial
  | _ => exact .of_ok rfl kept (le_refl _) trivial

lemma nested_keeps {P : Extent → α → Prop} {x : Exec α}
    (h : d.Keeps (n + 1) P x { s with calls := s.calls + 1 }) :
    d.Keeps n P (Exec.nested x) s := by
  cases hx : x { s with calls := s.calls + 1 } with
  | ok a t =>
    have run : Exec.nested x s = .ok a { t with calls := t.calls - 1 } := by
      simp only [Exec.nested, hx]
    obtain ⟨kept, more, result⟩ := h.ok hx
    exact .of_ok run (d.left kept) more result
  | error e t =>
    have run : Exec.nested x s = .error e { t with calls := t.calls - 1 } := by
      simp only [Exec.nested, hx]
    obtain ⟨kept, more, stops⟩ := h.error hx
    constructor
    · intro b u run'
      cases run.symm.trans run'
    · intro e' u run'
      cases run.symm.trans run'
      exact ⟨d.left kept, more, stops⟩

lemma atom_keeps (kept : d.state n s) (inScope : d.scope s.extent scope) (atom : Atom)
    (line : Nat) : d.Keeps n d.value (atom.evaluate scope line) s := by
  cases atom with
  | identifier name => exact lookup_keeps kept inScope name.name line
  | _ => exact .pure kept (d.plain nofun)

lemma checkArity_keeps (kept : d.state n s) (expected actual line : Nat) :
    d.Keeps n (fun _ _ => True) (Run.checkArity expected actual line) s := by
  unfold Run.checkArity
  split
  · exact .pure kept trivial
  · exact .fault kept line (List.forall_mem_nil _)

lemma native_keeps (kept : d.state n s) (f : Native) {vs : List Value}
    (hv : ∀ v ∈ vs, d.value s.extent v) (line : Nat) :
    d.Keeps n d.value (Run.native f vs line) s := by
  refine (checkArity_keeps kept _ _ line).bind fun _ t kept more _ => ?_
  refine (time_keeps kept f).bind fun time u kept more' _ => ?_
  exact .ofExcept kept line (fun v within => d.value_mono (le_trans more more') (hv v within))
    (fun v h => d.plain (Native.apply_plain h)) fun f h => Native.apply_fault h

/-- The scope of a call may bind all names, and there was room for one more call. -/
lemma enter_keeps (kept : d.state n s) (inScope : d.scope s.extent scope)
    (code : Code (List Statement)) {vs : List Value} (hv : ∀ v ∈ vs, d.value s.extent v)
    (line : Nat) :
    d.Keeps n (fun x i => d.scope x i ∧ ∀ name, d.binds x i name)
      (Run.enter code scope vs line) s := by
  refine (checkArity_keeps kept _ _ line).bind fun _ t kept more _ => .get ?_
  split
  · exact .fault kept line (List.forall_mem_nil _)
  · refine openScope_keeps kept (d.scope_mono more inScope) fun entry within => ?_
    rcases Bindings.mem_ofLists within with given | none
    · exact d.value_mono more (hv _ given)
    · exact absurd none List.not_mem_nil

lemma enter_calls {code : Code (List Statement)} {vs : List Value} {line i : Nat} {t : State}
    (h : Run.enter code scope vs line s = .ok i t) : t.calls < maxCalls := by
  simp only [Run.enter, Run.checkArity] at h
  split at h
  · change (if maxCalls ≤ s.calls then _ else _ : Exec Nat) s = _ at h
    split at h
    · cases h
    · next room =>
      cases h
      exact Nat.lt_of_not_le room
  · cases h

end

end Discipline

end Lox
