import Lox.Proofs.Reading.Arenas

/-!
Each rule of the grammar of expressions pushes one more tree. What holds of the expressions that are
read without a mistake holds of all expressions in a program, and so each of them is one tree.
-/

namespace Lox

open Reading Reader Node

namespace Grammar

section Expressions

variable {operation : Nat → Reader NodeRef} {pending : List NodeRef}

/-- Pushing a node whose operands wait. -/
lemma push_builds {node : Node} (plain : ∀ v line, node ≠ .value v line)
    (still : node.assigned? = none) :
    Builds (Forest · (pending ++ node.operands)) (Stands pending) (push node) := by
  constructor
  · exact fun s => .of_ok rfl (.add s node) (Nat.le_refl _)
  · intro s ref t run _ before
    cases run
    exact ⟨before.push plain still, by simp [Reading.add]⟩

/-- A node without operands. -/
lemma push_leaf_builds {node : Node} (plain : ∀ v line, node ≠ .value v line)
    (still : node.assigned? = none) (leaf : node.operands = []) :
    Builds (Forest · pending) (Stands pending) (push node) := by
  have pushes : Builds (Forest · (pending ++ node.operands)) (Stands pending) (push node) :=
    push_builds plain still
  rwa [leaf, List.append_nil] at pushes

/-- An assignment is pushed behind its target and its value. -/
lemma push_assign_builds {name : Ident} {target value : NodeRef} :
    Builds (fun nodes => Forest nodes (pending ++ [target, value]) ∧
      nodes[target]?.bind target? = some name) (Stands pending) (push (.assign name value)) := by
  constructor
  · exact fun s => .of_ok rfl (.add s _) (Nat.le_refl _)
  · rintro s ref t run - ⟨before, named⟩
    cases run
    exact ⟨before.push_assign named, by simp [Reading.add]⟩

variable (h : ∀ power pending, Builds (Forest · pending) (Stands pending) (operation power))
include h

lemma floorOf_builds (line : Nat) :
    Builds (Forest · pending) (Stands pending) (floorOf operation line) := by
  refine (Builds.require _).bind fun _ => (h 0 pending).bind fun argument => ?_
  refine (Builds.require _).bind fun _ => ?_
  exact (push_builds (by simp) rfl).mono (fun nodes stands => stands.1) fun _ _ => id

lemma substringOf_builds (line : Nat) :
    Builds (Forest · pending) (Stands pending) (substringOf operation line) := by
  have next (waiting : List NodeRef) (ref : NodeRef) :
      Builds (Stands waiting ref) (Stands (waiting ++ [ref])) (operation 0) :=
    (h 0 (waiting ++ [ref])).mono (fun nodes stands => stands.1) fun _ _ => id
  refine (Builds.require _).bind fun _ => (h 0 pending).bind fun subject => ?_
  refine (Builds.require _).bind fun _ => (next pending subject).bind fun start => ?_
  refine (Builds.require _).bind fun _ => (next _ start).bind fun stop => ?_
  refine (Builds.require _).bind fun _ => ?_
  refine (push_builds (by simp) rfl).mono (fun nodes stands => ?_) fun _ _ => id
  simpa only [operands, List.append_assoc, List.cons_append, List.nil_append] using stands.1

lemma unaryOf_builds (op : UnaryOp) (line : Nat) :
    Builds (Forest · pending) (Stands pending) (unaryOf operation op line) :=
  (h _ pending).bind fun _ =>
    (push_builds (by simp) rfl).mono (fun nodes stands => stands.1) fun _ _ => id

lemma groupOf_builds : Builds (Forest · pending) (Stands pending) (groupOf operation) :=
  (h 0 pending).bind fun _ => (Builds.require _).bind fun _ =>
    (push_builds (by simp) rfl).mono (fun nodes stands => stands.1) fun _ _ => id

lemma operandOf_builds : Builds (Forest · pending) (Stands pending) (operandOf operation) := by
  refine Builds.current.bind fun t => ?_
  split
  case h_9 => exact Builds.advance.bind fun _ => floorOf_builds h _
  case h_10 => exact Builds.advance.bind fun _ => substringOf_builds h _
  case h_11 | h_12 => exact Builds.advance.bind fun _ => unaryOf_builds h _ _
  case h_13 => exact Builds.advance.bind fun _ => groupOf_builds h
  case h_14 => exact .fail _
  all_goals exact Builds.advance.bind fun _ => push_leaf_builds (by simp) rfl rfl

variable {arguments : Reader (List NodeRef)}
  (ha : ∀ pending, Builds (Forest · pending)
    (fun refs nodes => Forest nodes (pending ++ refs)) arguments)

include ha

lemma argumentsOf_builds (count : Nat) :
    Builds (Forest · pending) (fun refs nodes => Forest nodes (pending ++ refs))
      (argumentsOf operation arguments count) := by
  refine (Builds.limit _ _).bind fun _ => (h 0 pending).bind fun argument => ?_
  refine (Builds.accept _).bind fun comma => ?_
  split
  · refine ((ha (pending ++ [argument])).mono (fun nodes stands => stands.1) fun _ _ => id).bind
      fun others => .pure fun nodes forest => ?_
    simpa only [List.append_assoc, List.cons_append, List.nil_append] using forest
  · exact .pure fun nodes stands => stands.1

lemma continuedOf_builds (next : Continuation) (t : Token) (lhs : NodeRef) :
    Builds (Stands pending lhs) (Stands pending)
      (continuedOf operation arguments next t lhs) := by
  have more (power : Nat) : Builds (Stands pending lhs) (Stands (pending ++ [lhs]))
      (operation power) :=
    (h power (pending ++ [lhs])).mono (fun nodes stands => stands.1) fun _ _ => id
  have both {rhs : NodeRef} {nodes : Array Node} (stands : Stands (pending ++ [lhs]) rhs nodes) :
      Forest nodes (pending ++ [lhs, rhs]) := by
    simpa only [List.append_assoc, List.cons_append, List.nil_append] using stands.1
  cases next with
  | call =>
    have listed : Builds (Stands pending lhs)
        (fun refs nodes => Forest nodes (pending ++ lhs :: refs))
        (unlessAt .rightParen [] arguments) := by
      refine .unlessAt _ (fun nodes stands => stands.1) ?_
      refine (ha (pending ++ [lhs])).mono (fun nodes stands => stands.1) fun refs nodes forest => ?_
      simpa only [List.append_assoc, List.cons_append, List.nil_append] using forest
    refine listed.bind fun refs => (Builds.require _).bind fun close => ?_
    have pushes (line : Nat) : Builds (Forest · (pending ++ (Node.call lhs refs line).operands))
        (Stands pending) (push (.call lhs refs line)) :=
      push_builds (by simp) rfl
    exact pushes close.line
  | binary op | logical op =>
    exact (more _).bind fun rhs => (push_builds (by simp) rfl).mono (fun _ => both) fun _ _ => id
  | assign =>
    refine (more _).bind fun rhs => Builds.get.bind fun s => ?_
    split
    · next name named =>
      have pushes : Builds (fun nodes => Forest nodes (pending ++ [lhs, rhs]) ∧
          nodes[lhs]?.bind target? = some name) (Stands pending) (push (.assign name rhs)) :=
        push_assign_builds
      refine pushes.mono ?_ fun _ _ => id
      rintro nodes ⟨rfl, stands⟩
      exact ⟨both stands, named⟩
    · exact (Builds.record _).bind fun _ => .pure fun _ => False.elim

lemma continuationsOf_builds {again : NodeRef → Reader NodeRef}
    (hg : ∀ lhs, Builds (Stands pending lhs) (Stands pending) (again lhs)) (power : Nat)
    (lhs : NodeRef) : Builds (Stands pending lhs) (Stands pending)
      (continuationsOf operation arguments again power lhs) := by
  refine Builds.current.bind fun t => ?_
  split
  · exact .pure fun _ => id
  · split
    · exact .pure fun _ => id
    · exact Builds.advance.bind fun _ => (continuedOf_builds h ha _ t lhs).bind hg

end Expressions

/-- At every depth, what is read of an expression is one more tree. -/
structure ExpressionsBuild (depth : Nat) : Prop where
  operand : ∀ pending, Builds (Forest · pending) (Stands pending) (operand depth)
  operation : ∀ power pending,
    Builds (Forest · pending) (Stands pending) (operation depth power)
  continuations : ∀ power lhs pending,
    Builds (Stands pending lhs) (Stands pending) (continuations depth power lhs)
  arguments : ∀ count pending, Builds (Forest · pending)
    (fun refs nodes => Forest nodes (pending ++ refs)) (arguments depth count)

lemma expressionsBuild (depth : Nat) : ExpressionsBuild depth := by
  induction depth with
  | zero =>
    constructor
    · intro pending
      rw [operand]
      exact .fail _
    · intro power pending
      rw [operation]
      exact .fail _
    · intro power lhs pending
      rw [continuations]
      exact .fail _
    · intro count pending
      rw [arguments]
      exact .fail _
  | succ depth ih =>
    constructor
    · intro pending
      rw [operand]
      exact operandOf_builds ih.operation
    · intro power pending
      rw [operation]
      exact (ih.operand pending).bind fun lhs => ih.continuations power lhs pending
    · intro power lhs pending
      rw [continuations]
      exact continuationsOf_builds ih.operation (ih.arguments 0)
        (fun lhs => ih.continuations power lhs pending) power lhs
    · intro count pending
      rw [arguments]
      exact argumentsOf_builds ih.operation (ih.arguments (count + 1)) count

/-- The nodes of an expression that is read without a mistake are one tree, with its root last. -/
lemma expression_builds (depth : Nat) :
    Builds (fun _ => True) (fun e _ => Stands [] e.root e.nodes) (expression depth) := by
  have clear : Builds (fun _ => True) (fun _ nodes => Forest nodes [])
      (modify Reading.bare : Reader Unit) := by
    constructor
    · exact fun s => .of_ok rfl (.bare s) (Nat.le_refl _)
    · intro s a t run _ _
      cases run
      exact .empty
  have finish (root : NodeRef) : Builds (Stands [] root) (fun e _ => Stands [] e.root e.nodes)
      (modifyGet fun s => (⟨s.nodes, root⟩, s.bare) : Reader Expression) := by
    constructor
    · exact fun s => .of_ok rfl (.bare s) (Nat.le_refl _)
    · intro s a t run _ stands
      cases run
      exact stands
  exact clear.bind fun _ => ((expressionsBuild depth).operation 0 []).bind finish

end Grammar

end Lox
