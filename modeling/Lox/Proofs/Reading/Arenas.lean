import Lox.Proofs.Derivation.Sound
import Lox.Proofs.Evaluation.Parts
import Lox.Proofs.Reading.Carried
import Mathlib.Data.List.Perm.Basic

/-!
The nodes of an expression under construction are a forest, whose roots wait to become operands.
Each node that is pushed joins some of them, and an assignment leaves the node of its target behind.
So in the end there is one tree, apart from the targets of assignments.
-/

namespace Lox

open Reading Reader

namespace Node

/-- The name that an assignment sets. -/
def assigned? : Node → Option Ident
  | .assign target _ => some target
  | _ => none

/-- The operands of all nodes, each as often as it is one. -/
def allOperands (nodes : Array Node) : List NodeRef :=
  nodes.toList.flatMap operands

/-- The names that the assignments among nodes set. -/
def allAssigned (nodes : Array Node) : List Ident :=
  nodes.toList.filterMap assigned?

/-- Nodes make up trees whose roots are pending: of the others, each is once the operand of a later
node, unless it was the target of an assignment. -/
structure Forest (nodes : Array Node) (pending : List NodeRef) : Prop where
  plain : ∀ node ∈ nodes, ∀ v line, node ≠ .value v line
  earlier : ∀ (i : NodeRef) (node : Node), nodes[i]? = some node → ∀ j ∈ node.operands, j < i
  once : ∃ targets : List NodeRef,
    (allOperands nodes ++ targets ++ pending).Perm (List.range nodes.size) ∧
      (targets.map fun i => nodes[i]?.bind target?).Perm ((allAssigned nodes).map some)

lemma allOperands_push (nodes : Array Node) (node : Node) :
    allOperands (nodes.push node) = allOperands nodes ++ node.operands := by
  simp [allOperands]

lemma allAssigned_push (nodes : Array Node) (node : Node) :
    allAssigned (nodes.push node) = allAssigned nodes ++ node.assigned?.toList := by
  cases h : node.assigned? <;> simp [allAssigned, h]

namespace Forest

variable {nodes : Array Node} {pending : List NodeRef} {node : Node}

lemma empty : Forest #[] [] := by
  constructor
  · simp
  · simp
  · exact ⟨[], by simp [allOperands], by simp [allAssigned]⟩

lemma lt_size (h : Forest nodes pending) {i : NodeRef} (waits : i ∈ pending) :
    i < nodes.size := by
  obtain ⟨targets, perm, -⟩ := h.once
  have within : i ∈ allOperands nodes ++ targets ++ pending := List.mem_append_right _ waits
  exact List.mem_range.mp (perm.mem_iff.mp within)

/-- What a later node does not change. -/
lemma push_rest (h : Forest nodes pending) (plain : ∀ v line, node ≠ .value v line)
    (waits : ∀ j ∈ node.operands, j < nodes.size) :
    (∀ other ∈ nodes.push node, ∀ v line, other ≠ .value v line) ∧
      ∀ (i : NodeRef) (other : Node), (nodes.push node)[i]? = some other →
        ∀ j ∈ other.operands, j < i := by
  constructor
  · intro other within
    rcases Array.mem_push.mp within with old | rfl
    · exact h.plain other old
    · exact plain
  · intro i other found j within
    rw [Array.getElem?_push] at found
    split_ifs at found with last
    · obtain rfl := Option.some.inj found
      exact last ▸ waits j within
    · exact h.earlier i other found j within

lemma targets_push {targets : List NodeRef} (below : ∀ i ∈ targets, i < nodes.size) :
    (targets.map fun i => (nodes.push node)[i]?.bind target?) =
      targets.map fun i => nodes[i]?.bind target? := by
  refine List.map_congr_left fun i within => ?_
  have distinct : i ≠ nodes.size := Nat.ne_of_lt (below i within)
  simp only [Array.getElem?_push, distinct, if_false]

/-- A node that is no assignment takes its operands from those that wait, and waits itself. -/
lemma push (h : Forest nodes (pending ++ node.operands)) (plain : ∀ v line, node ≠ .value v line)
    (still : node.assigned? = none) : Forest (nodes.push node) (pending ++ [nodes.size]) := by
  have waits : ∀ j ∈ node.operands, j < nodes.size := fun j within =>
    h.lt_size (List.mem_append_right _ within)
  obtain ⟨plain', earlier'⟩ := h.push_rest plain waits
  obtain ⟨targets, perm, names⟩ := h.once
  refine ⟨plain', earlier', targets, ?_, ?_⟩
  · rw [allOperands_push, Array.size_push, List.range_succ]
    refine List.perm_iff_count.mpr fun i => ?_
    have counted := perm.count_eq i
    simp only [List.count_append] at counted ⊢
    omega
  · have below : ∀ i ∈ targets, i < nodes.size := fun i within =>
      List.mem_range.mp (perm.mem_iff.mp (by simp [within]))
    rw [targets_push below, allAssigned_push, still]
    simpa using names

/-- An assignment leaves its target behind. -/
lemma push_assign {name : Ident} {target value : NodeRef}
    (h : Forest nodes (pending ++ [target, value]))
    (named : nodes[target]?.bind target? = some name) :
    Forest (nodes.push (.assign name value)) (pending ++ [nodes.size]) := by
  have waits : ∀ j ∈ (Node.assign name value).operands, j < nodes.size := by
    intro j within
    obtain rfl := List.mem_singleton.mp within
    exact h.lt_size (by simp)
  have still : ∀ v line, Node.assign name value ≠ .value v line := by simp
  obtain ⟨plain', earlier'⟩ := h.push_rest still waits
  obtain ⟨targets, perm, names⟩ := h.once
  refine ⟨plain', earlier', targets ++ [target], ?_, ?_⟩
  · rw [allOperands_push, Array.size_push, List.range_succ]
    refine List.perm_iff_count.mpr fun i => ?_
    have counted := perm.count_eq i
    simp only [operands, List.count_append, List.count_cons, List.count_nil] at counted ⊢
    omega
  · have below : ∀ i ∈ targets ++ [target], i < nodes.size := by
      intro i within
      rcases List.mem_append.mp within with old | new
      · exact List.mem_range.mp (perm.mem_iff.mp (by simp [old]))
      · exact h.lt_size (by simp_all)
    rw [targets_push below, allAssigned_push]
    simpa [assigned?, named] using names.append_right [some name]

end Forest

/-- The node read last is a root, behind the others that wait. -/
def Stands (pending : List NodeRef) (ref : NodeRef) (nodes : Array Node) : Prop :=
  Forest nodes (pending ++ [ref]) ∧ ref + 1 = nodes.size

end Node

namespace Reader

variable {α β : Type} {P P' : Array Node → Prop} {Q Q' : α → Array Node → Prop}
  {R : β → Array Node → Prop}

/-- Where a reader succeeds and records no mistake, it takes nodes of one sort to nodes of
another. -/
structure Builds (P : Array Node → Prop) (Q : α → Array Node → Prop) (x : Reader α) : Prop where
  goes : ∀ s, Goes 0 x s
  builds : ∀ {s a t}, x s = .ok a t → t.errors = s.errors → P s.nodes → Q a t.nodes

namespace Builds

variable {x : Reader α}

lemma mono (h : Builds P Q x) (hp : ∀ nodes, P' nodes → P nodes)
    (hq : ∀ a nodes, Q a nodes → Q' a nodes) : Builds P' Q' x :=
  ⟨h.goes, fun run quiet before => hq _ _ (h.builds run quiet (hp _ before))⟩

lemma bind {f : α → Reader β} (h : Builds P Q x) (hf : ∀ a, Builds (Q a) R (f a)) :
    Builds P R (x >>= f) := by
  constructor
  · exact fun s => (h.goes s).bind fun a t _ => (hf a).goes t
  · intro s b u run quiet before
    cases hx : x s with
    | error e t =>
      rw [bind_error hx] at run
      cases run
    | ok a t =>
      rw [bind_ok hx] at run
      obtain ⟨first, second⟩ :=
        ((h.goes s).onward hx).quiet (((hf a).goes t).onward run) quiet
      exact (hf a).builds run second (h.builds hx first before)

/-- A reader that leaves the nodes as they are. -/
lemma keeping (goes : ∀ s, Goes 0 x s) (same : ∀ {s a t}, x s = .ok a t → t.nodes = s.nodes) :
    Builds P (fun _ => P) x :=
  ⟨goes, fun run _ before => same run ▸ before⟩

lemma pure {a : α} (h : ∀ nodes, P nodes → Q a nodes) : Builds P Q (pure a) := by
  constructor
  · exact fun s => (pure_alike (n := s.left + 1) a s (Nat.lt_succ_self _)).2
  · intro s b t run _ before
    cases run
    exact h _ before

lemma map {f : α → β} (h : Builds P Q x) (hf : ∀ a nodes, Q a nodes → R (f a) nodes) :
    Builds P R (f <$> x) := by
  constructor
  · intro s
    cases hx : x s with
    | ok a t => exact .of_ok (map_ok hx) ((h.goes s).onward hx) ((h.goes s).ok hx).2
    | error e t => exact .of_error (map_error hx) ((h.goes s).error hx)
  · intro s b t run quiet before
    cases hx : x s with
    | error e u =>
      rw [map_error hx] at run
      cases run
    | ok a u =>
      rw [map_ok hx] at run
      cases run
      exact hf a _ (h.builds hx quiet before)

lemma fail (cause : TokenKind → SyntaxError.Cause) : Builds P Q (fail cause) := by
  constructor
  · exact fun s => (fail_alike (n := s.left + 1) cause s (Nat.lt_succ_self _)).2
  · intro s a t run
    cases run

lemma current : Builds P (fun _ => P) current :=
  .keeping (fun s => (current_alike (n := s.left + 1) s (Nat.lt_succ_self _)).2) fun run => by
    cases run
    rfl

lemma sees (kind : TokenKind) : Builds P (fun _ => P) (sees kind) :=
  .keeping (fun s => (sees_alike (n := s.left + 1) kind s (Nat.lt_succ_self _)).2) fun run => by
    cases run
    rfl

lemma advance : Builds P (fun _ => P) advance :=
  .keeping (fun s => .of_ok rfl (.pass s) (Onward.pass s).left_le) fun run => by
    cases run
    rfl

lemma accept (kind : TokenKind) : Builds P (fun _ => P) (accept kind) :=
  .keeping (fun s => (accept_alike (n := s.left + 1) kind s (Nat.lt_succ_self _)).2) fun run => by
    rw [accept_eq] at run
    split_ifs at run <;> cases run <;> rfl

lemma require (what : Requirement) : Builds P (fun _ => P) (require what) :=
  .keeping (fun s => (require_alike (n := s.left + 1) what s (Nat.lt_succ_self _)).2.mono
      (Nat.zero_le 1)) fun run => by
    rw [require_eq] at run
    split_ifs at run
    cases run
    rfl

lemma limit (count : Nat) (cause : SyntaxError.Cause) :
    Builds P (fun _ => P) (limit count cause) :=
  .keeping (fun s => (limit_alike (n := s.left + 1) count cause s (Nat.lt_succ_self _)).2)
    fun run => by
      rw [limit_eq] at run
      split_ifs at run <;> cases run <;> rfl

/-- The state that is looked at has the nodes. -/
lemma get : Builds P (fun s nodes => s.nodes = nodes ∧ P nodes) get := by
  constructor
  · exact fun s => (get_alike (n := s.left + 1) s (Nat.lt_succ_self _)).2
  · intro s a t run _ before
    cases run
    exact ⟨rfl, before⟩

/-- Nothing is said of runs in which a mistake is recorded. -/
lemma record (e : SyntaxError) : Builds P (fun _ _ => False) (record e) := by
  constructor
  · exact fun s => (record_alike (n := s.left + 1) e s (Nat.lt_succ_self _)).2
  · intro s a t run quiet
    cases run
    have size := congrArg Array.size quiet
    simp [Reading.note] at size

lemma unlessAt (kind : TokenKind) {otherwise : α} (h : ∀ nodes, P nodes → Q otherwise nodes)
    (hx : Builds P Q x) : Builds P Q (unlessAt kind otherwise x) := by
  refine (sees kind).bind fun seen => ?_
  split
  · exact .pure h
  · exact hx

lemma ifAt (kind : TokenKind) {Q : Option α → Array Node → Prop}
    (none : ∀ nodes, P nodes → Q none nodes) (hx : Builds P (fun a => Q (some a)) x) :
    Builds P Q (ifAt kind x) := by
  refine (accept kind).bind fun seen => ?_
  split
  · exact hx.map fun _ _ => id
  · exact .pure none

lemma insideFunction (h : Builds P Q x) : Builds P Q (insideFunction x) := by
  constructor
  · intro s
    cases hx : x s.deeper with
    | ok a t =>
      obtain ⟨onward, passed⟩ := (h.goes s.deeper).ok hx
      exact .of_ok (insideFunction_ok hx) onward.shallower passed
    | error e t => exact .of_error (insideFunction_error hx) ((h.goes s.deeper).error hx).shallower
  · intro s a t run quiet before
    cases hx : x s.deeper with
    | ok b u =>
      cases (insideFunction_ok hx).symm.trans run
      exact h.builds (s := s.deeper) (t := u) hx quiet before
    | error e u => cases (insideFunction_error hx).symm.trans run

/-- Where nothing is recorded, there was no mistake to recover from. -/
lemma recovering {Q : Option α → Array Node → Prop} (h : Builds P (fun a => Q (some a)) x) :
    Builds P Q (recovering x) := by
  constructor
  · exact fun s => recovering_goes (h.goes s)
  · intro s found t run quiet before
    cases hx : x s with
    | ok a u =>
      cases (recovering_ok hx).symm.trans run
      exact h.builds hx quiet before
    | error e u =>
      cases (recovering_error hx).symm.trans run
      have kept := ((h.goes s).error hx).errors.length_le
      have size := congrArg Array.size quiet
      simp only [Array.length_toList, Reading.resumed, Reading.note, Array.size_push] at kept size
      omega

end Builds

end Reader

end Lox
