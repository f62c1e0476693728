import Lox.Proofs.Reading.Mirror
import Lox.Proofs.Reading.Powers

/-!
Reading by the power of operators and recursive descent agree: on every list of tokens they give the
same tree, stop at the same mistake or at the same place, and record the same mistakes on the way.
-/

namespace Lox

open Reading Reader Grammar

variable {s : Reading} {n : Nat}

/-- The power with which the operators of a level hold their left operand. -/
def Level.power : Level → Nat
  | .or => 3
  | .and => 5
  | .equality => 7
  | .comparison => 9
  | .additive => 11
  | .multiplicative => 13

namespace Infix

/-- What announces the operator. -/
def continuation : Infix → Continuation
  | .binary op => .binary op
  | .logical op => .logical op

def node (lhs rhs : NodeRef) (line : Nat) : Infix → Node
  | .binary op => .binary op lhs rhs line
  | .logical op => .logical op lhs rhs line

end Infix

namespace Unbounded

/-- The node made last is the root of the term that is read. -/
abbrev Lies (nodes : Array Node) (i : NodeRef) (t : Term) : Prop :=
  t.LiesAt nodes i

/-- A reader of continuations that stops at once is no step of descent. -/
lemma stopped_mirror {power : Nat} {l : NodeRef} {t : Term} (h : s.Stopped power)
    (lies : Lies s.nodes l t) : Mirrors 0 Lies (continuations power l) (pure t) s :=
  (Mirrors.pure lies).same (continuations_stopped h l) rfl

/-- Where less than `n` tokens are left, operations of a power are what a level reads, at every
depth that is enough. Sixteen calls lead from one token to the next, and the rank says how many of
them a reader may need before it passes a token. -/
def Reads (n power rank : Nat) (y : Nat → Descent Term) : Prop :=
  ∀ s d, s.left < n → 16 * s.left + rank ≤ d → Mirrors 1 Lies (operation power) (y d) s

lemma leftPower_values (c : Continuation) : c.leftPower = 2 ∨ c.leftPower = 3 ∨
    c.leftPower = 5 ∨ c.leftPower = 7 ∨ c.leftPower = 9 ∨ c.leftPower = 11 ∨ c.leftPower = 13 ∨
    c.leftPower = 17 := by
  rcases c with - | op | op | -
  · decide
  · cases op <;> decide
  · cases op <;> decide
  · decide

/-- Nothing holds less tightly than an assignment. -/
lemma Reads.whole {power rank : Nat} {y : Nat → Descent Term} (h : Reads n 2 rank y)
    (hp : power ≤ 2) : Reads n power rank y := by
  have same : operation power = operation 2 := by
    refine operation_eq_of_gap hp fun c hc => ?_
    have values := leftPower_values c
    omega
  rw [Reads, same]
  exact h

lemma arguments_mirror (h : Reads n 0 16 Descent.assignment) (count : Nat) {d : Nat}
    (hs : s.left < n) (hd : 16 * s.left + 17 ≤ d) :
    Mirrors 1 (fun nodes refs ts => Term.AllLieAt nodes ts refs) (arguments count)
      (Descent.arguments d count) s := by
  induction d generalizing s count with
  | zero => omega
  | succ d ih =>
    rw [arguments_eq, Descent.arguments]
    refine (Mirrors.limit count _).bind (k := 1) ?_ (by omega)
    intro _ _ t _ _ ht _
    refine (h t d (by omega) (by omega)).bind (k := 0) ?_ (by omega)
    intro first term u _ _ hu lies
    refine Mirrors.accept ?_ ?_
    · intro _
      have hp := (Onward.pass u).left_le
      simp only [if_true]
      refine (ih (count + 1) (s := u.pass) (by omega) (by omega)).bind (k := 0) ?_ (by omega)
      intro others terms v _ keeps _ all
      refine .pure ?_
      simp only [Term.AllLieAt]
      exact ⟨first, others, rfl, lies.extend keeps, all⟩
    · intro _
      refine .pure ?_
      simp only [Term.AllLieAt]
      exact ⟨first, [], rfl, lies, rfl⟩

lemma floor_mirror (h : Reads n 0 16 Descent.assignment) (line : Nat) {d : Nat} (hs : s.left < n)
    (hd : 16 * s.left + 16 ≤ d) :
    Mirrors 1 Lies (floorOf operation line) (do
      let _ ← require .floorOpen
      let argument ← Descent.assignment d
      let _ ← require .floorClose
      return .floor argument line) s := by
  have hp := (Onward.pass s).left_le
  refine (Mirrors.require (k := 1) fun _ => ?_).least (by omega)
  refine (h s.pass d (by omega) (by omega)).bind (k := 1) ?_ (by omega)
  intro i term t _ _ _ lies
  refine Mirrors.require (k := 0) fun _ => .push ?_
  simp only [Term.LiesAt]
  exact ⟨i, lies.lt_size, by simp, lies.extend (.push _ _)⟩

lemma substring_mirror (h : Reads n 0 16 Descent.assignment) (line : Nat) {d : Nat}
    (hs : s.left < n) (hd : 16 * s.left + 16 ≤ d) :
    Mirrors 1 Lies (substringOf operation line) (do
      let _ ← require .substringOpen
      let subject ← Descent.assignment d
      let _ ← require .substringComma
      let start ← Descent.assignment d
      let _ ← require .substringComma
      let stop ← Descent.assignment d
      let _ ← require .substringClose
      return .substring subject start stop line) s := by
  have hp := (Onward.pass s).left_le
  refine (Mirrors.require (k := 1) fun _ => ?_).least (by omega)
  refine (h s.pass d (by omega) (by omega)).bind (k := 1) ?_ (by omega)
  intro i subject t _ _ ht subjectLies
  have hp := (Onward.pass t).left_le
  refine (Mirrors.require (k := 1) fun _ => ?_).least (by omega)
  refine (h t.pass d (by omega) (by omega)).bind (k := 1) ?_ (by omega)
  intro j start u _ hkeep hu startLies
  have hp := (Onward.pass u).left_le
  refine (Mirrors.require (k := 1) fun _ => ?_).least (by omega)
  refine (h u.pass d (by omega) (by omega)).bind (k := 1) ?_ (by omega)
  intro k stop v _ hkeep' hv stopLies
  refine Mirrors.require (k := 0) fun _ => .push ?_
  have startLies : start.LiesAt v.nodes j := startLies.extend hkeep'
  have subjectLies : subject.LiesAt v.nodes i := (subjectLies.extend hkeep).extend hkeep'
  simp only [Term.LiesAt]
  exact ⟨i, subjectLies.lt_size, j, startLies.lt_size, k, stopLies.lt_size, by simp,
    subjectLies.extend (.push _ _), startLies.extend (.push _ _), stopLies.extend (.push _ _)⟩

lemma group_mirror (h : Reads n 0 16 Descent.assignment) {d : Nat} (hs : s.left < n)
    (hd : 16 * s.left + 16 ≤ d) :
    Mirrors 1 Lies (groupOf operation) (do
      let inner ← Descent.assignment d
      let _ ← require .groupClose
      return .group inner) s := by
  refine (h s d hs hd).bind (k := 1) ?_ (by omega)
  intro i inner t _ _ _ lies
  refine Mirrors.require (k := 0) fun _ => .push ?_
  simp only [Term.LiesAt]
  exact ⟨i, lies.lt_size, by simp, lies.extend (.push _ _)⟩

/-- Apart from unary operators, operands are primaries. -/
lemma primary_mirror (h : Reads n 0 16 Descent.assignment) {d : Nat} (hs : s.left < n + 1)
    (hd : 16 * s.left + 1 ≤ d) (minus : s.current.kind ≠ .minus)
    (bang : s.current.kind ≠ .bang) : Mirrors 1 Lies operand (Descent.primary d) s := by
  obtain ⟨d, rfl, deep⟩ := exists_succ hd
  rw [operand_eq, Descent.primary]
  have shorter (hne : s.current.kind ≠ .eof) : s.pass.left + 1 = s.left := pass_left hne
  refine Mirrors.current ?_
  split
  case h_9 hk =>
    simp only [hk]
    have hne : s.current.kind ≠ .eof := by simp [hk]
    have hl := shorter hne
    have inner := floor_mirror (s := s.pass) h s.current.line (by omega) (d := d) (by omega)
    exact (Mirrors.advance hne inner).least (by omega)
  case h_10 hk =>
    simp only [hk]
    have hne : s.current.kind ≠ .eof := by simp [hk]
    have hl := shorter hne
    have inner := substring_mirror (s := s.pass) h s.current.line (by omega) (d := d) (by omega)
    exact (Mirrors.advance hne inner).least (by omega)
  case h_11 hk => exact absurd hk minus
  case h_12 hk => exact absurd hk bang
  case h_13 hk =>
    simp only [hk]
    have hne : s.current.kind ≠ .eof := by simp [hk]
    have hl := shorter hne
    have inner := group_mirror (s := s.pass) h (by omega) (d := d) (by omega)
    exact (Mirrors.advance hne inner).least (by omega)
  case h_14 =>
    split
    case h_12 => exact .fail _
    all_goals simp_all
  case h_1 hk hl =>
    simp only [hk, hl]
    exact Mirrors.advance (by simp [hk]) (.push (by simp [Term.LiesAt]))
  case h_2 hk hl =>
    simp only [hk, hl]
    exact Mirrors.advance (by simp [hk]) (.push (by simp [Term.LiesAt]))
  -- the other operands are single tokens
  all_goals
    next hk =>
    simp only [hk]
    exact Mirrors.advance (by simp [hk]) (.push (by simp [Term.LiesAt]))

/-- What a token announces that holds its operand more tightly than every operator. -/
lemma call_of_strong {c : Continuation} {kind : TokenKind}
    (found : Continuation.ofKind? kind = some c) (strong : 15 ≤ c.leftPower) :
    kind = .leftParen := by
  cases kind <;> simp [Continuation.ofKind?] at found ⊢ <;> subst found <;>
    simp [Continuation.leftPower] at strong

lemma argumentList_mirror (h : Reads n 0 16 Descent.assignment) {d : Nat} (hs : s.left < n)
    (hd : 16 * s.left + 18 ≤ d) :
    Mirrors 0 (fun nodes refs ts => Term.AllLieAt nodes ts refs)
      (unlessAt .rightParen [] (arguments 0)) (Descent.argumentList d) s := by
  obtain ⟨d, rfl, deep⟩ := exists_succ hd
  rw [Descent.argumentList]
  refine Mirrors.sees ?_
  split
  · exact .pure (by simp [Term.AllLieAt])
  · exact (arguments_mirror h 0 hs deep).least (Nat.zero_le 1)

lemma callRest_mirror (h : Reads n 0 16 Descent.assignment) {lhs : NodeRef} {callee : Term}
    {d : Nat} (lies : Lies s.nodes lhs callee) (hs : s.left < n + 1) (hd : 16 * s.left + 3 ≤ d) :
    Mirrors 0 Lies (continuations 15 lhs) (Descent.callRest d callee) s := by
  induction d generalizing s lhs callee with
  | zero => omega
  | succ d ih =>
    rw [Descent.callRest]
    rcases stopped_or_taken 15 s with stopped | ⟨c, found, strong⟩
    · have seen : s.current.kind ≠ .leftParen := by
        intro hk
        exact absurd (stopped .call (by rw [hk]; rfl)) (by decide)
      exact (stopped_mirror stopped lies).same rfl (Descent.accept_neg (s := s.bare) seen _)
    · have seen := call_of_strong found strong
      have hl := pass_left (announced_ne_eof found)
      rw [seen] at found
      obtain rfl : Continuation.call = c := Option.some.inj found
      refine Mirrors.passing ?_ (continuations_taken (by rw [seen]; rfl) strong lhs)
        (Descent.accept_pos (s := s.bare) seen _)
      simp only [continuedOf, bind_assoc, if_true]
      refine (argumentList_mirror h (by omega) (by omega)).bind (k := 1) ?_ (by omega)
      intro refs terms t _ keeps ht all
      refine Mirrors.require (k := 0) fun _ => .push_bind ?_
      have fewer : t.pass.left < s.left := by
        have hp := (Onward.pass t).left_le
        omega
      have callee_lies := lies.extend keeps
      refine ih (s := t.pass.add _) ?_ (show t.pass.left < n + 1 by omega)
        (show 16 * t.pass.left + 3 ≤ d by omega)
      simp only [Lies, Term.LiesAt]
      exact ⟨lhs, callee_lies.lt_size, refs, all.lt_size, by simp [Reading.add, Reading.pass],
        callee_lies.extend (.push _ _), all.extend (.push _ _)⟩

lemma prefix_mirror (hu : Reads n 15 3 Descent.unary) (op : UnaryOp) (line : Nat) {d : Nat}
    (hs : s.left < n) (hd : 16 * s.left + 3 ≤ d) :
    Mirrors 1 Lies (unaryOf operation op line >>= continuations 15) (do
      let rhs ← Descent.unary d
      return .unary op rhs line) s := by
  simp only [unaryOf, bind_assoc]
  refine (hu s d hs hd).bind (k := 0) ?_ (by omega)
  intro i rhs t hx _ _ lies
  -- the right operand has taken every list of arguments, so none is left for the operation
  refine .push_bind (stopped_mirror ((operation_stops hx).add _) ?_)
  simp only [Lies, Term.LiesAt]
  exact ⟨i, lies.lt_size, by simp [Reading.add], lies.extend (.push _ _)⟩

lemma call_mirror (h : Reads n 0 16 Descent.assignment) {d : Nat} (hs : s.left < n + 1)
    (hd : 16 * s.left + 2 ≤ d) (minus : s.current.kind ≠ .minus) (bang : s.current.kind ≠ .bang) :
    Mirrors 1 Lies (operation 15) (Descent.call d) s := by
  obtain ⟨d, rfl, deep⟩ := exists_succ hd
  rw [operation_eq, Descent.call]
  refine (primary_mirror h hs deep minus bang).bind (k := 0) ?_ (by omega)
  intro lhs callee t _ _ ht lies
  exact callRest_mirror h lies (by omega) (by omega)

/-- An operand with unary operators before it and lists of arguments after it. -/
lemma unary_mirror (h : Reads n 0 16 Descent.assignment) (hu : Reads n 15 3 Descent.unary) :
    Reads (n + 1) 15 3 Descent.unary := by
  intro s d hs hd
  obtain ⟨d, rfl, deep⟩ := exists_succ hd
  by_cases minus : s.current.kind = .minus
  · have hne : s.current.kind ≠ .eof := by simp [minus]
    have hl := pass_left hne
    rw [operation_eq, operand_eq, Descent.unary, operandOf, bind_assoc]
    refine Mirrors.current ?_
    simp only [minus, bind_assoc]
    have inner := prefix_mirror hu .negate s.current.line (s := s.pass) (by omega) (d := d)
      (by omega)
    exact (Mirrors.advance hne inner).least (by omega)
  · by_cases bang : s.current.kind = .bang
    · have hne : s.current.kind ≠ .eof := by simp [bang]
      have hl := pass_left hne
      rw [operation_eq, operand_eq, Descent.unary, operandOf, bind_assoc]
      refine Mirrors.current ?_
      simp only [bang, bind_assoc]
      have inner := prefix_mirror hu .not s.current.line (s := s.pass) (by omega) (d := d)
        (by omega)
      exact (Mirrors.advance hne inner).least (by omega)
    · exact (call_mirror h hs deep minus bang).same rfl
        (Descent.unary_eq_call (s := s.bare) minus bang d)

/-- A token that holds its operand just as tightly as a level is an operator of the level. -/
lemma exists_operator {k : Level} {c : Continuation} {kind : TokenKind}
    (found : Continuation.ofKind? kind = some c) (hc : c.leftPower = k.power) :
    ∃ op, k.operator? kind = some op ∧ c = op.continuation := by
  cases kind <;> simp [Continuation.ofKind?] at found <;> subst found <;> cases k <;>
    simp [Continuation.leftPower, Level.power, Level.operator?, Infix.continuation] at hc ⊢

lemma operator_announced {k : Level} {kind : TokenKind} {op : Infix}
    (h : k.operator? kind = some op) : Continuation.ofKind? kind = some op.continuation ∧
      op.continuation.leftPower = k.power := by
  cases k <;> cases kind <;> simp [Level.operator?] at h <;> subst h <;> exact ⟨rfl, rfl⟩

/-- An operator between two operands is read as its right operand and a node for both. -/
lemma continuedOf_operator {op : Infix} {k : Level} (h : op.continuation.leftPower = k.power)
    (t : Token) (lhs : NodeRef) :
    continuedOf operation (arguments 0) op.continuation t lhs = (do
      let rhs ← operation (k.power + 1)
      push (op.node lhs rhs t.line)) := by
  cases op <;> simp only [Infix.continuation, continuedOf, Continuation.rightPower, Infix.node] <;>
    simp only [Infix.continuation] at h <;> rw [h]

lemma join_lies {nodes : Array Node} {op : Infix} {l r : NodeRef} {lhs rhs : Term} {line : Nat}
    (hl : Lies nodes l lhs) (hr : Lies nodes r rhs) :
    Lies (nodes.push (op.node l r line)) nodes.size (op.join lhs rhs line) := by
  cases op <;> simp only [Lies, Infix.join, Infix.node, Term.LiesAt] <;>
    exact ⟨l, hl.lt_size, r, hr.lt_size, by simp, hl.extend (.push _ _), hr.extend (.push _ _)⟩

/-- The loop over the operators of a level starts where operands of the next level end. -/
lemma levelRest_mirror {k : Level} {rank d : Nat} (hr : rank ≤ 16)
    (h : Reads n (k.power + 1) rank fun d => Descent.tighter d k) {l : NodeRef} {lhs : Term}
    (lies : Lies s.nodes l lhs) (stopped : s.Stopped (k.power + 1)) (hs : s.left < n)
    (hd : 16 * s.left + 1 ≤ d) :
    Mirrors 0 Lies (continuations k.power l) (Descent.levelRest d k lhs) s := by
  induction d generalizing s l lhs with
  | zero => omega
  | succ d ih =>
    rcases stopped_or_taken k.power s with ends | ⟨c, found, strong⟩
    · have none : k.operator? s.current.kind = none := by
        cases hop : k.operator? s.current.kind with
        | none => rfl
        | some op =>
          have announced := operator_announced hop
          exact absurd (ends _ announced.1) (by omega)
      exact (stopped_mirror ends lies).same rfl
        (Descent.levelRest_none (s := s.bare) none lhs d)
    · have hl := pass_left (announced_ne_eof found)
      have power : c.leftPower = k.power :=
        Nat.le_antisymm (Nat.le_of_lt_succ (stopped c found)) strong
      obtain ⟨op, hop, rfl⟩ := exists_operator found power
      refine Mirrors.passing ?_ (continuations_taken found strong l)
        (Descent.levelRest_some (s := s.bare) hop lhs d)
      rw [continuedOf_operator power, bind_assoc]
      refine (h s.pass d (by omega) (by omega)).bind (k := 0) ?_ (by omega)
      intro r rhs t hx keeps ht rlies
      refine .push_bind (ih (s := t.add _) ?_ ((operation_stops hx).add _)
        (show t.left < n by omega) (show 16 * t.left + 1 ≤ d by omega))
      exact join_lies (lies.extend keeps) rlies

lemma level_mirror {k : Level} {rank : Nat} (hr : rank ≤ 16)
    (h : Reads n (k.power + 1) rank fun d => Descent.tighter d k) :
    Reads n k.power (rank + 1) fun d => Descent.level d k := by
  intro s d hs hd
  obtain ⟨d, rfl, deep⟩ := exists_succ hd
  rw [operation_absorb (Nat.le_succ k.power)]
  simp only [Descent.level]
  refine (h s d hs deep).bind (k := 0) ?_ (by omega)
  intro l lhs t hx _ ht lies
  exact levelRest_mirror hr h lies (operation_stops hx) (by omega) (by omega)

/-- Between a level and the next one no operator holds its operand. -/
lemma tighter_mirror {k next : Level} {rank : Nat} (hk : k.next? = some next)
    (h : Reads n next.power rank fun d => Descent.level d next) :
    Reads n (k.power + 1) (rank + 1) fun d => Descent.tighter d k := by
  have gap : operation (k.power + 1) = operation next.power := by
    refine operation_eq_of_gap ?_ fun c hc => ?_
    · cases k <;> cases hk <;> decide
    · have values := leftPower_values c
      cases k <;> cases hk <;> simp only [Level.power] at hc ⊢ <;> omega
  intro s d hs hd
  obtain ⟨d, rfl, deep⟩ := exists_succ hd
  simp only [gap, Descent.tighter, hk]
  exact h s d hs deep

/-- The operands of the tightest level are those of unary operators. -/
lemma factor_mirror {rank : Nat} (h : Reads n 15 rank Descent.unary) :
    Reads n (Level.multiplicative.power + 1) (rank + 1) fun d =>
      Descent.tighter d .multiplicative := by
  have gap : operation (Level.multiplicative.power + 1) = operation 15 := by
    refine operation_eq_of_gap (by decide) fun c hc => ?_
    have values := leftPower_values c
    simp only [Level.power]
    omega
  intro s d hs hd
  obtain ⟨d, rfl, deep⟩ := exists_succ hd
  simp only [gap, Descent.tighter, Level.next?]
  exact h s d hs deep

/-- Where an operand of the loosest level ends, only an assignment can follow. -/
lemma assign_of_stopped (stopped : s.Stopped Level.or.power) {c : Continuation}
    (found : Continuation.ofKind? s.current.kind = some c) : s.current.kind = .equal := by
  have weak := stopped c found
  have values := leftPower_values c
  simp only [Level.power] at weak
  have power : c.leftPower = 2 := by omega
  cases hk : s.current.kind <;> rw [hk] at found <;> cases found <;>
    simp [Continuation.leftPower] at power

/-- An assignment, whose target is an operand of the loosest level. -/
lemma assignment_mirror (ho : Reads (n + 1) Level.or.power 15 fun d => Descent.level d .or)
    (h : Reads n 2 16 Descent.assignment) : Reads (n + 1) 2 16 Descent.assignment := by
  intro s d hs hd
  obtain ⟨d, rfl, deep⟩ := exists_succ hd
  rw [operation_absorb (show 2 ≤ Level.or.power by decide), Descent.assignment]
  refine (ho s d hs deep).bind (k := 0) ?_ (by omega)
  intro l target t hx _ ht lies
  refine Mirrors.descent_current ?_
  by_cases seen : t.current.kind = .equal
  · have hl := pass_left (show t.current.kind ≠ .eof by simp [seen])
    have found : Continuation.ofKind? t.current.kind = some .assign := by rw [seen]; rfl
    refine Mirrors.passing ?_ (continuations_taken found (Nat.le_refl 2) l)
      (Descent.accept_pos (s := t.bare) seen _)
    simp only [continuedOf, bind_assoc, if_true]
    refine (h.whole (show 1 ≤ 2 by omega) t.pass d (by omega) (by omega)).bind (k := 0) ?_
      (by omega)
    intro r value u hvalue keeps _ rlies
    have ends : u.Stopped 2 := (operation_stops hvalue).mono (by omega)
    have lies : Lies u.nodes l target := lies.extend keeps
    refine .get ?_
    rw [lies.target]
    cases target.target? with
    | some name =>
      refine .push_bind (stopped_mirror (ends.add _) ?_)
      simp only [Lies, Term.LiesAt]
      exact ⟨r, rlies.lt_size, by simp [Reading.add], rlies.extend (.push _ _)⟩
    | none =>
      simp only [bind_assoc, pure_bind]
      exact .record (stopped_mirror (ends.note _) lies)
  · have ends : t.Stopped 2 := fun c hc =>
      absurd (assign_of_stopped (operation_stops hx) hc) seen
    exact (stopped_mirror ends lies).same rfl (Descent.accept_neg (s := t.bare) seen _)

/-- The readers on which all levels rest, where less than `n` tokens are left. -/
structure Layered (n : Nat) : Prop where
  assignment : Reads n 2 16 Descent.assignment
  unary : Reads n 15 3 Descent.unary

lemma layered (n : Nat) : Layered n := by
  induction n with
  | zero => exact ⟨fun s _ hs => absurd hs (Nat.not_lt_zero _),
      fun s _ hs => absurd hs (Nat.not_lt_zero _)⟩
  | succ n ih =>
    have unary := unary_mirror (ih.assignment.whole (by omega)) ih.unary
    have products := level_mirror (by omega) (factor_mirror unary)
    have sums := level_mirror (by omega) (tighter_mirror (k := .additive) rfl products)
    have comparisons := level_mirror (by omega) (tighter_mirror (k := .comparison) rfl sums)
    have equalities := level_mirror (by omega) (tighter_mirror (k := .equality) rfl comparisons)
    have ands := level_mirror (by omega) (tighter_mirror (k := .and) rfl equalities)
    have ors := level_mirror (by omega) (tighter_mirror (k := .or) rfl ands)
    exact ⟨assignment_mirror ors ih.assignment, unary⟩

end Unbounded

namespace Grammar

/-- The outcomes of reading an expression and of recursive descent say the same: the expression
denotes the term, or the mistake is the same, and the states agree in what is left to read and in
the mistakes that were recorded. -/
def Agrees : EStateM.Result SyntaxError Reading Expression →
    Option (Except SyntaxError Term × Reading) → Prop
  | .ok e t, some (.ok term, u) => e.Denotes term ∧ u = t.bare
  | .error e t, some (.error e', u) => e' = e ∧ u = t.bare
  | _, _ => False

/-- The expression that is read by the powers of operators is the one that recursive descent reads
at any depth that is enough. -/
lemma expression_agrees (s : Reading) {d : Nat} (hd : 16 * s.left + 16 ≤ d) :
    Agrees (Unbounded.expression s) (Descent.assignment d s.bare) := by
  have run : Unbounded.expression s = (do
      let root ← Unbounded.operation 0
      modifyGet fun s => (⟨s.nodes, root⟩, s.bare) : Reader Expression) s.bare := rfl
  have whole := (Unbounded.layered (s.left + 1)).assignment.whole (Nat.zero_le 2)
  rw [run]
  cases whole s.bare d (Nat.lt_succ_self s.left) hd with
  | ok hx hy _ _ lies =>
    rw [Reader.bind_ok hx, show Descent.assignment _ s.bare = _ from hy]
    exact ⟨lies, rfl⟩
  | error hx hy =>
    rw [Reader.bind_error hx, show Descent.assignment _ s.bare = _ from hy]
    exact ⟨rfl, rfl⟩

/-- Whatever the tokens are and wherever reading stands, the expression that is read by the powers
of operators is the one that recursive descent reads, at every depth that is enough. -/
theorem expression_layered (s : Reading) (extra extra' : Nat) :
    Agrees (expression (2 * (s.left + 1) + extra) s)
      (Descent.assignment (16 * (s.left + 1) + extra') s.bare) := by
  have enough : 2 * (s.left + 1) ≤ 2 * (s.left + 1) + extra := Nat.le_add_right _ _
  rw [(expression_unbounded enough s (Nat.lt_succ_self _)).1]
  exact expression_agrees s (by omega)

end Grammar

end Lox
