import Lox.Proofs.Reading.Subjects
import Mathlib

/-!
Every expression that is written in a program is one tree, with its root behind all other nodes. The
nodes that the tree leaves out are the targets of its assignments.
-/

namespace Lox

open Node Reader

namespace Expression

/-- The nodes outside of the tree: they are not the root, and no node has them as operands. -/
def abandoned (e : Expression) : List NodeRef :=
  (List.range e.nodes.size).filter fun i => i ≠ e.root ∧ i ∉ allOperands e.nodes

/-- A node has another one as an operand. -/
def Uses (e : Expression) (user i : NodeRef) : Prop :=
  ∃ node, e.nodes[user]? = some node ∧ i ∈ node.operands

/-- The nodes of an expression are one tree and the targets of its assignments. -/
structure OneTree (e : Expression) : Prop where
  last : e.root + 1 = e.nodes.size
  earlier : ∀ user i, e.Uses user i → i < user
  once : ∀ i < e.nodes.size, i ≠ e.root → i ∉ e.abandoned →
    (∃! user, e.Uses user i) ∧ (allOperands e.nodes).count i = 1
  target : ∀ i ∈ e.abandoned, ∃ name line, e.nodes[i]? = some (.atom (.identifier name) line)
  assigned : (e.abandoned.map fun i => e.nodes[i]?.bind target?).Perm
    ((allAssigned e.nodes).map some)
  number : e.abandoned.length = (allAssigned e.nodes).length
  plain : ∀ node ∈ e.nodes, ∀ v line, node ≠ .value v line
  line : ∀ i, (e.lineOf? i).isSome ↔ i < e.nodes.size

variable {e : Expression} {i user other : NodeRef}

/-- Some node has what is an operand. -/
lemma mem_allOperands : i ∈ allOperands e.nodes ↔ ∃ user, e.Uses user i := by
  constructor
  · intro within
    obtain ⟨node, member, operand⟩ := List.mem_flatMap.mp within
    obtain ⟨user, found⟩ := Array.getElem?_of_mem (Array.mem_def.mpr member)
    exact ⟨user, node, found, operand⟩
  · rintro ⟨user, node, found, operand⟩
    exact List.mem_flatMap.mpr ⟨node, Array.mem_def.mp (Array.mem_of_getElem? found), operand⟩

/-- An operand of two nodes is counted twice. -/
lemma two_le_count (h : e.Uses user i) (h' : e.Uses other i) (before : user < other) :
    2 ≤ (allOperands e.nodes).count i := by
  obtain ⟨node, found, operand⟩ := h
  obtain ⟨node', found', operand'⟩ := h'
  obtain ⟨within, rfl⟩ := Array.getElem?_eq_some_iff.mp found
  obtain ⟨within', rfl⟩ := Array.getElem?_eq_some_iff.mp found'
  have pair : [e.nodes[user], e.nodes[other]].Sublist e.nodes.toList := by
    have places : [(⟨user, within⟩ : Fin e.nodes.toList.length), ⟨other, within'⟩].Pairwise
        (· < ·) := by
      simpa using before
    exact List.map_getElem_sublist places
  have counted := ((pair.flatMap operands).count_le i)
  have first := List.count_pos_iff.mpr operand
  have second := List.count_pos_iff.mpr operand'
  simp only [List.flatMap_cons, List.flatMap_nil, List.append_nil, List.count_append] at counted
  exact Nat.le_trans (Nat.add_le_add first second) counted

/-- What is counted once is an operand of exactly one node. -/
lemma existsUnique_uses (once : (allOperands e.nodes).count i = 1) : ∃! user, e.Uses user i := by
  have within : i ∈ allOperands e.nodes := List.count_pos_iff.mp (by omega)
  obtain ⟨user, uses⟩ := mem_allOperands.mp within
  refine ⟨user, uses, fun other uses' => ?_⟩
  rcases Nat.lt_trichotomy other user with before | same | behind
  · have := two_le_count uses' uses before
    omega
  · exact same
  · have := two_le_count uses uses' behind
    omega

/-- Where operands come before their nodes, a node has a line. -/
lemma lineWithin_isSome {nodes : Array Node}
    (earlier : ∀ (i : NodeRef) (node : Node), nodes[i]? = some node → ∀ j ∈ node.operands, j < i)
    (depth : Nat) (deep : i < depth) (within : i < nodes.size) :
    (lineWithin nodes depth i).isSome := by
  induction depth generalizing i with
  | zero => exact absurd deep (Nat.not_lt_zero i)
  | succ depth ih =>
    have found : nodes[i]? = some nodes[i] := Array.getElem?_eq_getElem within
    rw [lineWithin, found]
    cases h : nodes[i] with
    | group inner =>
      have before : inner < i := earlier i _ found inner (by simp [h, operands])
      exact ih (Nat.lt_of_lt_of_le before (Nat.le_of_lt_succ deep)) (Nat.lt_trans before within)
    | _ => rfl

lemma lineOf?_isSome_iff (earlier : ∀ (i : NodeRef) (node : Node), e.nodes[i]? = some node →
      ∀ j ∈ node.operands, j < i) :
    (e.lineOf? i).isSome ↔ i < e.nodes.size := by
  constructor
  · intro some
    by_contra outside
    have missing : e.nodes[i]? = none := Array.getElem?_eq_none (Nat.le_of_not_lt outside)
    have none (depth : Nat) : lineWithin e.nodes depth i = none := by
      cases depth with
      | zero => rfl
      | succ depth => rw [lineWithin, missing]
    rw [lineOf?, none] at some
    cases some
  · exact fun within => lineWithin_isSome earlier _ within within

section

variable {targets : List NodeRef}
  (perm : (allOperands e.nodes ++ targets ++ [e.root]).Perm (List.range e.nodes.size))
include perm

/-- Each node is an operand once, or a target, or the root. -/
lemma count_once (within : i < e.nodes.size) :
    (allOperands e.nodes).count i + targets.count i + [e.root].count i = 1 := by
  have count := perm.count_eq i
  rw [List.count_append, List.count_append] at count
  rw [count]
  exact List.count_eq_one_of_mem List.nodup_range (List.mem_range.mpr within)

/-- The nodes outside of the tree are the targets. -/
lemma abandoned_perm : e.abandoned.Perm targets := by
  have nodup := perm.nodup_iff.mpr List.nodup_range
  obtain ⟨nodup, -, apart⟩ := List.nodup_append'.mp nodup
  obtain ⟨-, single, split⟩ := List.nodup_append'.mp nodup
  refine (List.perm_ext_iff_of_nodup (List.nodup_range.filter _) single).mpr fun i => ?_
  have known := perm.mem_iff (a := i)
  simp only [List.mem_append, List.mem_singleton, List.mem_range] at known
  simp only [List.mem_filter, List.mem_range, decide_eq_true_eq]
  constructor
  · rintro ⟨within, notRoot, unused⟩
    rcases known.mpr within with (used | target) | root
    · exact absurd used unused
    · exact target
    · exact absurd root notRoot
  · intro target
    refine ⟨known.mp (.inl (.inr target)), ?_, fun used => split used target⟩
    rintro rfl
    exact apart (List.mem_append_right _ target) (List.mem_singleton_self _)

end

/-- A node that gives a name to an assignment is an identifier. -/
lemma eq_identifier {node : Node} {name : Ident} (h : node.target? = some name) :
    ∃ line, node = .atom (.identifier name) line := by
  unfold target? at h
  split at h
  · cases h
    exact ⟨_, rfl⟩
  · cases h

/-- A forest whose last node alone waits is one tree. -/
theorem oneTree_of_stands (h : Stands [] e.root e.nodes) : e.OneTree := by
  obtain ⟨forest, last⟩ := h
  obtain ⟨targets, perm, names⟩ := forest.once
  rw [List.nil_append] at perm
  have left := abandoned_perm perm
  have assigned := (left.map fun i => e.nodes[i]?.bind target?).trans names
  constructor
  · exact last
  · rintro user i ⟨node, found, operand⟩
    exact forest.earlier user node found i operand
  · intro i within notRoot inside
    have count := count_once perm within
    have root : [e.root].count i = 0 := List.count_eq_zero.mpr (by simpa using notRoot)
    have target : targets.count i = 0 := List.count_eq_zero.mpr fun h => inside (left.mem_iff.mpr h)
    have once : (allOperands e.nodes).count i = 1 := by omega
    exact ⟨existsUnique_uses once, once⟩
  · intro i outside
    have named := List.mem_map_of_mem (f := fun i => e.nodes[i]?.bind target?) outside
    obtain ⟨name, -, same⟩ := List.mem_map.mp (assigned.mem_iff.mp named)
    obtain ⟨node, found, target⟩ := Option.bind_eq_some_iff.mp same.symm
    obtain ⟨line, rfl⟩ := eq_identifier target
    exact ⟨name, line, found⟩
  · exact assigned
  · simpa using assigned.length_eq
  · exact forest.plain
  · exact fun i => lineOf?_isSome_iff forest.earlier

/-- The condition of a `for` that has none is one node. -/
lemma oneTree_always (line : Nat) : (Grammar.always line).OneTree := by
  have forest : Forest (#[].push (Node.atom (.bool true) line)) ([] ++ [(#[] : Array Node).size]) :=
    Forest.empty.push (by simp) rfl
  exact oneTree_of_stands ⟨forest, rfl⟩

end Expression

/-- The nodes of every expression that is written in a text without mistakes are one tree: the root
is the last node, operands come before their nodes, and every other node is an operand of exactly
one node, except for the identifiers that were the targets of assignments. -/
theorem Statement.Written.oneTree {st : Statement} (written : st.Written) {e : Expression}
    (subject : st.subject? = some e) : e.OneTree := by
  refine (written.everywhere Expression.oneTree_always fun depth => ?_).subject subject
  exact (Grammar.expression_builds depth).mono (fun _ => id) fun _ _ => Expression.oneTree_of_stands

/-- Of an assignment in an assignment, the two targets are left out of the tree. -/
theorem Statement.Written.oneTree_assignments :
    let name (text : String) (start : Nat) : Ident := ⟨text, ⟨start, 1⟩, 1⟩
    let identifier (text : String) (start : Nat) : Node := .atom (.identifier (name text start)) 1
    let e : Expression := ⟨#[identifier "a" 0, identifier "b" 4, identifier "f" 8,
      .atom (.string "x") 1, .call 2 [3] 1, .assign (name "b" 4) 4, .assign (name "a" 0) 5], 6⟩
    Source.program "a = b = f(\"x\");".toList = .ok [.expression e] ∧ e.abandoned = [0, 1] ∧
      e.OneTree := by
  intro name identifier e
  have read : Source.program "a = b = f(\"x\");".toList = .ok [.expression e] := by cbv
  have written : (Statement.expression e).Written := .top read (List.mem_singleton_self _)
  exact ⟨read, by decide, written.oneTree rfl⟩

end Lox
