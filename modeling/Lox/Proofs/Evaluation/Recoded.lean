import Lox.Evaluation.Run
import Lox.Proofs.Place.Located

/-!
States whose functions have other code. No single step of a run looks into the code of a function,
so each of them does in a state whose functions have other code what it does without; if the text is
moved, an error is on the line to which its own was moved.
-/

namespace Lox

variable {A B α β : Type}

/-- Other code for functions, which have the names and parameters that they had, and other places in
the text. -/
structure Recoding (A B : Type) where
  code : Code A → Code B
  place : Relocation
  name (c : Code A) : (code c).name.name = c.name.name
  parameters (c : Code A) : (code c).parameters.map (·.name) = c.parameters.map (·.name)

namespace Recoding

/-- The state with the other code. -/
def machine (r : Recoding A B) (m : Machine A) : Machine B :=
  ⟨m.scopes, m.codes.map r.code, m.calls, m.rand, m.console, m.now⟩

/-- The reason to stop in the other place. -/
def stop (r : Recoding A B) : Stop → Stop
  | .error e => .error ⟨e.fault, r.place.line e.line⟩
  | .outOfFuel => .outOfFuel
  | .defect d => .defect d

/-- The end of a step with the other code. -/
def result (r : Recoding A B) :
    EStateM.Result Stop (Machine A) α → EStateM.Result Stop (Machine B) α
  | .ok a m => .ok a (r.machine m)
  | .error e m => .error (r.stop e) (r.machine m)

/-- With the other code, the second step does what the first one does. -/
def Recodes (r : Recoding A B) (x : ExecOf A α) (y : ExecOf B α) : Prop :=
  ∀ m, y (r.machine m) = r.result (x m)

variable {r : Recoding A B}

lemma length_parameters (r : Recoding A B) (c : Code A) :
    (r.code c).parameters.length = c.parameters.length := by
  simpa using congrArg List.length (r.parameters c)

lemma recodes_pure (a : α) : r.Recodes (pure a) (pure a) :=
  fun _ => rfl

lemma recodes_throw (e : Stop) : r.Recodes (α := α) (throw e) (throw (r.stop e)) :=
  fun _ => rfl

lemma recodes_fault (line : Nat) (f : Fault) :
    r.Recodes (α := α) (Exec.fault line f) (Exec.fault (r.place.line line) f) :=
  fun _ => rfl

lemma recodes_ofExcept (line : Nat) (x : Except Fault α) :
    r.Recodes (Exec.ofExcept line x) (Exec.ofExcept (r.place.line line) x) := by
  cases x with
  | ok a => exact recodes_pure a
  | error f => exact recodes_fault line f

/-- What follows a step only counts for the values that the step can have. -/
lemma Recodes.bind_ok {x : ExecOf A α} {y : ExecOf B α} {f : α → ExecOf A β}
    {g : α → ExecOf B β} (h : r.Recodes x y)
    (hf : ∀ a m n, x m = .ok a n → g a (r.machine n) = r.result (f a n)) :
    r.Recodes (x >>= f) (y >>= g) := by
  intro m
  change EStateM.bind y g (r.machine m) = r.result (EStateM.bind x f m)
  rw [EStateM.bind, EStateM.bind, h m]
  cases run : x m with
  | ok a n => exact hf a m n run
  | error e n => rfl

lemma Recodes.bind {x : ExecOf A α} {y : ExecOf B α} {f : α → ExecOf A β} {g : α → ExecOf B β}
    (h : r.Recodes x y) (hf : ∀ a, r.Recodes (f a) (g a)) : r.Recodes (x >>= f) (y >>= g) :=
  h.bind_ok fun a _ n _ => hf a n

/-- Steps that go on from the state they are in. -/
lemma recodes_get {f : Machine A → ExecOf A α} {g : Machine B → ExecOf B α}
    (h : ∀ m, r.Recodes (f m) (g (r.machine m))) : r.Recodes (get >>= f) (get >>= g) :=
  fun m => h m m

lemma recodes_lookup (scope : Nat) (name : String) (line : Nat) :
    r.Recodes (Exec.lookup scope name line) (Exec.lookup scope name (r.place.line line)) := by
  intro m
  simp only [Exec.lookup, machine]
  split <;> rfl

lemma recodes_declare (scope : Nat) (name : String) (value : Value) :
    r.Recodes (Exec.declare scope name value) (Exec.declare scope name value) :=
  fun _ => rfl

lemma recodes_assign (scope : Nat) (name : String) (value : Value) (line : Nat) :
    r.Recodes (Exec.assign scope name value line)
      (Exec.assign scope name value (r.place.line line)) := by
  intro m
  simp only [Exec.assign, machine]
  split <;> rfl

lemma recodes_openScope (parent : Nat) (bindings : Bindings) :
    r.Recodes (Exec.openScope parent bindings) (Exec.openScope parent bindings) :=
  fun _ => rfl

/-- A new function has the other code. -/
lemma recodes_makeFunction (c : Code A) (scope : Nat) :
    r.Recodes (Exec.makeFunction c scope) (Exec.makeFunction (r.code c) scope) := by
  intro m
  have size : (m.codes.map r.code).size = m.codes.size := Array.size_map
  have pushed : (m.codes.map r.code).push (r.code c) = (m.codes.push c).map r.code :=
    Array.map_push.symm
  change EStateM.Result.ok (Value.function
    ⟨(r.code c).name.name, (r.code c).parameters.length, (m.codes.map r.code).size, scope⟩)
      (Machine.mk m.scopes ((m.codes.map r.code).push (r.code c)) m.calls m.rand m.console
        m.now) = _
  rw [r.name, r.length_parameters, size, pushed]
  rfl

lemma recodes_print (text : String) : r.Recodes (Exec.print text) (Exec.print text) :=
  fun _ => rfl

lemma recodes_read : r.Recodes Exec.read Exec.read :=
  fun _ => rfl

lemma recodes_rand : r.Recodes Exec.rand Exec.rand :=
  fun _ => rfl

lemma recodes_time (f : Native) : r.Recodes (Exec.time f) (Exec.time f) := by
  cases f <;> exact fun _ => rfl

lemma Recodes.nested {x : ExecOf A α} {y : ExecOf B α} (h : r.Recodes x y) :
    r.Recodes (Exec.nested x) (Exec.nested y) := by
  intro m
  have inside : y { r.machine m with calls := (r.machine m).calls + 1 } =
      r.result (x { m with calls := m.calls + 1 }) := h { m with calls := m.calls + 1 }
  simp only [Exec.nested, inside]
  cases x { m with calls := m.calls + 1 } <;> rfl

lemma recodes_checkArity (expected actual line : Nat) :
    r.Recodes (Run.checkArity expected actual line)
      (Run.checkArity expected actual (r.place.line line)) := by
  simp only [Run.checkArity]
  split
  · exact recodes_pure ()
  · exact recodes_fault line _

lemma recodes_native (f : Native) (arguments : List Value) (line : Nat) :
    r.Recodes (Run.native f arguments line) (Run.native f arguments (r.place.line line)) :=
  (recodes_checkArity f.arity arguments.length line).bind fun _ =>
    (recodes_time f).bind fun _ => recodes_ofExcept line _

lemma recodes_enter (c : Code A) (scope : Nat) (arguments : List Value) (line : Nat) :
    r.Recodes (Run.enter c scope arguments line)
      (Run.enter (r.code c) scope arguments (r.place.line line)) := by
  simp only [Run.enter, r.length_parameters, r.parameters]
  refine (recodes_checkArity _ _ line).bind fun _ => recodes_get fun m => ?_
  change r.Recodes (if maxCalls ≤ m.calls then _ else _) (if maxCalls ≤ m.calls then _ else _)
  split
  · exact recodes_fault line _
  · exact recodes_openScope scope _

/-- The other code of a function. -/
lemma machine_codes (r : Recoding A B) (m : Machine A) (number : Nat) :
    (r.machine m).codes[number]? = m.codes[number]?.map r.code :=
  Array.getElem?_map

end Recoding

end Lox
