import Lox.Proofs.Reading.Rules

/-!
What is read as an operand is a node, at every depth and on every list of tokens: the root of an
expression lies among its nodes.
-/

namespace Lox

open Grammar

namespace Reader

variable {α β : Type} {s : Reading}

/-- Where a step succeeds, it loses no node, and its result is as said for the number of nodes. -/
def Yields (P : α → Nat → Prop) (x : Reader α) (s : Reading) : Prop :=
  ∀ a t, x s = .ok a t → s.nodes.size ≤ t.nodes.size ∧ P a t.nodes.size

/-- A step that loses no node. -/
abbrev Keeps (x : Reader α) : Prop :=
  ∀ s, Yields (fun _ _ => True) x s

/-- A step whose result is the place of a node. -/
abbrev Refers (x : Reader NodeRef) : Prop :=
  ∀ s, Yields (fun ref count => ref < count) x s

namespace Yields

variable {P : α → Nat → Prop} {Q : β → Nat → Prop} {x : Reader α} {f : α → Reader β}

lemma bind (h : Yields P x s)
    (hf : ∀ a t, s.nodes.size ≤ t.nodes.size → P a t.nodes.size → Yields Q (f a) t) :
    Yields Q (x >>= f) s := by
  intro b u run
  cases hx : x s with
  | ok a t =>
    obtain ⟨kept, result⟩ := h a t hx
    rw [bind_ok hx] at run
    obtain ⟨kept', result'⟩ := hf a t kept result b u run
    exact ⟨Nat.le_trans kept kept', result'⟩
  | error e t =>
    rw [bind_error hx] at run
    cases run

lemma pure {a : α} (h : P a s.nodes.size) : Yields P (pure a) s := by
  intro b t run
  cases run
  exact ⟨Nat.le_refl _, h⟩

lemma fail (cause : TokenKind → SyntaxError.Cause) : Yields P (fail cause) s := by
  intro b t run
  cases run

end Yields

lemma keeps_current : Keeps current := by
  intro s a t run
  cases run
  exact ⟨Nat.le_refl _, trivial⟩

lemma keeps_advance : Keeps advance := by
  intro s a t run
  cases run
  exact ⟨Nat.le_refl _, trivial⟩

lemma keeps_get : Keeps (get : Reader Reading) := by
  intro s a t run
  cases run
  exact ⟨Nat.le_refl _, trivial⟩

lemma keeps_sees (kind : TokenKind) : Keeps (sees kind) := by
  intro s a t run
  cases run
  exact ⟨Nat.le_refl _, trivial⟩

lemma keeps_record (e : SyntaxError) : Keeps (record e) := by
  intro s a t run
  cases run
  exact ⟨Nat.le_refl _, trivial⟩

lemma keeps_accept (kind : TokenKind) : Keeps (accept kind) := by
  intro s a t run
  rw [accept_eq] at run
  split at run <;> cases run <;> exact ⟨Nat.le_refl _, trivial⟩

lemma keeps_require (what : Requirement) : Keeps (require what) := by
  intro s a t run
  rw [require_eq] at run
  split at run <;> cases run
  exact ⟨Nat.le_refl _, trivial⟩

lemma keeps_limit (count : Nat) (cause : SyntaxError.Cause) : Keeps (limit count cause) := by
  intro s a t run
  rw [limit_eq] at run
  split at run <;> cases run <;> exact ⟨Nat.le_refl _, trivial⟩

lemma keeps_unlessAt (kind : TokenKind) (otherwise : α) {x : Reader α} (h : Keeps x) :
    Keeps (unlessAt kind otherwise x) := by
  intro s
  refine (keeps_sees kind s).bind fun seen t _ _ => ?_
  split
  · exact .pure trivial
  · exact h t

lemma refers_push (node : Node) : Refers (push node) := by
  intro s a t run
  cases run
  simp [Reading.add]

section

variable {operation : Nat → Reader NodeRef} (h : ∀ power, Refers (operation power))
include h

lemma refers_operandOf : Refers (operandOf operation) := by
  intro s
  refine (keeps_current s).bind fun t u _ _ => ?_
  have alone (node : Node) : Yields (fun ref count => ref < count)
      (do let _ ← advance; push node) u :=
    (keeps_advance u).bind fun _ v _ _ => refers_push node v
  have unary (op : UnaryOp) : Yields (fun ref count => ref < count)
      (do let _ ← advance; unaryOf operation op t.line) u :=
    (keeps_advance u).bind fun _ v _ _ => (h _ v).bind fun _ w _ _ => refers_push _ w
  split
  case h_9 =>
    refine (keeps_advance u).bind fun _ v _ _ => (keeps_require _ v).bind fun _ v _ _ => ?_
    refine (h 0 v).bind fun _ v _ _ => (keeps_require _ v).bind fun _ v _ _ => ?_
    exact refers_push _ v
  case h_10 =>
    refine (keeps_advance u).bind fun _ v _ _ => (keeps_require _ v).bind fun _ v _ _ => ?_
    refine (h 0 v).bind fun _ v _ _ => (keeps_require _ v).bind fun _ v _ _ => ?_
    refine (h 0 v).bind fun _ v _ _ => (keeps_require _ v).bind fun _ v _ _ => ?_
    refine (h 0 v).bind fun _ v _ _ => (keeps_require _ v).bind fun _ v _ _ => ?_
    exact refers_push _ v
  case h_11 => exact unary .negate
  case h_12 => exact unary .not
  case h_13 =>
    refine (keeps_advance u).bind fun _ v _ _ => (h 0 v).bind fun _ v _ _ => ?_
    exact (keeps_require _ v).bind fun _ v _ _ => refers_push _ v
  case h_14 => exact .fail _
  all_goals exact alone _

lemma refers_continuedOf {arguments : Reader (List NodeRef)} (ha : Keeps arguments)
    (next : Continuation) (t : Token) {lhs : NodeRef} (hl : lhs < s.nodes.size) :
    Yields (fun ref count => ref < count) (continuedOf operation arguments next t lhs) s := by
  cases next with
  | call =>
    refine (keeps_unlessAt _ _ ha s).bind fun _ u _ _ => ?_
    exact (keeps_require _ u).bind fun _ u _ _ => refers_push _ u
  | binary op => exact (h _ s).bind fun _ u _ _ => refers_push _ u
  | logical op => exact (h _ s).bind fun _ u _ _ => refers_push _ u
  | assign =>
    refine (h _ s).bind fun rhs u kept _ => ?_
    refine (keeps_get u).bind fun state v more _ => ?_
    split
    · exact refers_push _ v
    · refine (keeps_record _ v).bind fun _ w more' _ => .pure ?_
      exact Nat.lt_of_lt_of_le hl (Nat.le_trans kept (Nat.le_trans more more'))

lemma refers_continuationsOf {arguments : Reader (List NodeRef)} (ha : Keeps arguments)
    {again : NodeRef → Reader NodeRef}
    (hg : ∀ {lhs s}, lhs < s.nodes.size → Yields (fun ref count => ref < count) (again lhs) s)
    (power : Nat) {lhs : NodeRef} (hl : lhs < s.nodes.size) :
    Yields (fun ref count => ref < count)
      (continuationsOf operation arguments again power lhs) s := by
  refine (keeps_current s).bind fun t u kept _ => ?_
  have still : lhs < u.nodes.size := Nat.lt_of_lt_of_le hl kept
  split
  · exact .pure still
  · split
    · exact .pure still
    · refine (keeps_advance u).bind fun _ v kept' _ => ?_
      have there : lhs < v.nodes.size := Nat.lt_of_lt_of_le still kept'
      refine (refers_continuedOf h ha _ t there).bind fun larger w _ found => ?_
      exact hg found

lemma keeps_argumentsOf {others : Reader (List NodeRef)} (ho : Keeps others) (count : Nat) :
    Keeps (argumentsOf operation others count) := by
  intro s
  refine (keeps_limit _ _ s).bind fun _ t _ _ => (h 0 t).bind fun first t _ _ => ?_
  refine (keeps_accept _ t).bind fun comma t _ _ => ?_
  split
  · exact (ho t).bind fun _ t _ _ => .pure trivial
  · exact .pure trivial

end

end Reader

open Reader

namespace Grammar

/-- At every depth, operands and what goes on with them are nodes. -/
structure FindsNodes (depth : Nat) : Prop where
  operand : Refers (operand depth)
  operation : ∀ power, Refers (operation depth power)
  continuations : ∀ power {lhs : NodeRef} {s : Reading}, lhs < s.nodes.size →
    Yields (fun ref count => ref < count) (continuations depth power lhs) s
  arguments : ∀ count, Keeps (arguments depth count)

lemma findsNodes (depth : Nat) : FindsNodes depth := by
  induction depth with
  | zero =>
    constructor
    · rw [operand]
      exact fun s => .fail _
    · intro power s
      rw [operation]
      exact .fail _
    · intro power lhs s _
      rw [continuations]
      exact .fail _
    · intro count s
      rw [arguments]
      exact .fail _
  | succ depth ih =>
    constructor
    · rw [operand]
      exact refers_operandOf ih.operation
    · intro power s
      rw [operation]
      exact (ih.operand s).bind fun lhs t _ found => ih.continuations power found
    · intro power lhs s found
      rw [continuations]
      exact refers_continuationsOf ih.operation (ih.arguments 0) (ih.continuations power) power
        found
    · intro count
      rw [arguments]
      exact keeps_argumentsOf ih.operation (ih.arguments (count + 1)) count

/-- The root of an expression that was read is one of its nodes. -/
lemma expression_root {depth : Nat} {s t : Reading} {e : Expression}
    (h : expression depth s = .ok e t) : e.root < e.nodes.size := by
  have bare : (modify Reading.bare : Reader Unit) s = .ok () s.bare := rfl
  rw [expression, expressionOf, bind_ok bare] at h
  cases run : operation depth 0 s.bare with
  | ok root u =>
    rw [bind_ok run] at h
    cases h
    exact ((findsNodes depth).operation 0 s.bare root u run).2
  | error e u =>
    rw [bind_error run] at h
    cases h

end Grammar

end Lox
