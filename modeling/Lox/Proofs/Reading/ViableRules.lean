import Lox.Proofs.Reading.Layers
import Lox.Proofs.Reading.Viable

/-!
Every rule of the grammar is viable. Each expression, statement and declaration can be completed by
`nil` and what its rule still requires, and all tokens that cannot go on are found where they stand.
-/

namespace Lox

open Reading Reader
open Token (nextKind nextKind_eq_of_head)

namespace Reader

variable {ι κ α β : Type} {first follow first' follow' : TokenKind → Prop} {n m : Nat}

/-- Any token. -/
abbrev Any : TokenKind → Prop :=
  fun _ => True

/-- The token that can begin what is missing. -/
abbrev AtNil : TokenKind → Prop :=
  (· = .kwNil)

/-- The kinds that hold no operand on their left with the given power or a larger one. -/
def Stops (power : Nat) (kind : TokenKind) : Prop :=
  ∀ c, Continuation.ofKind? kind = some c → c.leftPower < power

lemma stops_of_none {power : Nat} {kind : TokenKind} (h : Continuation.ofKind? kind = none) :
    Stops power kind := by
  intro c hc
  rw [h] at hc
  cases hc

lemma stops_other {power : Nat} {kind : TokenKind} (h : Continuation.ofKind? kind = none) :
    ∀ k, k = kind → Stops power k := by
  rintro _ rfl
  exact stops_of_none h

/-- Readers that pass a token leave fewer than there were. -/
lemma Done.shorter {x : ι → Reader α} {p r : List Token} (h : Done x p r) (i : ι)
    (goes : ∀ s : Reading, s.rest = p ++ r → Goes 1 (x i) s) : r.length < (p ++ r).length := by
  let s : Reading := ⟨p ++ r, Token.atEnd .start, #[], #[], 0, rfl⟩
  obtain ⟨a, t, run, rest, -⟩ := h i s r rfl rfl rfl
  have passed := ((goes s rfl).ok run).2
  have left : t.left = r.length := congrArg List.length rest
  have left' : s.left = (p ++ r).length := rfl
  omega

namespace Predicts

variable {x : ι → Reader α} {f : ι → α → Reader β}

lemma mono (h : Predicts n first follow x) (hf : ∀ k, first k → first' k)
    (hw : ∀ k, follow' k → follow k) : Predicts n first' follow' x :=
  ⟨h.goes, fun ts short proper => (h.viable ts short proper).mono hf hw⟩

lemma narrow (h : Predicts n first Any x) : Predicts n first follow x :=
  h.mono (fun _ => id) fun _ _ => trivial

lemma below (h : Predicts n first follow x) (hm : m ≤ n) : Predicts m first follow x :=
  ⟨h.goes, fun ts short => h.viable ts (Nat.lt_of_lt_of_le short hm)⟩

lemma comap (h : Predicts n first follow x) (g : κ → ι) :
    Predicts n first follow fun k => x (g k) :=
  ⟨fun k => h.goes (g k), fun ts short proper => (h.viable ts short proper).comap g⟩

lemma bind (hx : Predicts n first follow x)
    (hf : Predicts n first' follow' fun ia : ι × α => f ia.1 ia.2)
    (meets : ∀ k, first' k → follow k) : Predicts n first follow' fun i => x i >>= f i := by
  refine ⟨fun i s => (hx.goes i s).bind fun a t _ => hf.goes (i, a) t, fun ts short proper => ?_⟩
  refine (hx.viable ts short proper).bind hx.goes (fun i a => hf.goes (i, a))
    (fun p r split _ => hf.viable r ?_ ?_) (hf.viable [] ?_ ?_) meets
  · have lengths := congrArg List.length split
    simp only [List.length_append] at lengths
    omega
  · exact fun t within => proper t (split ▸ List.mem_append_right p within)
  · exact Nat.lt_of_le_of_lt (Nat.zero_le _) short
  · exact List.forall_mem_nil _

lemma insideFunction (h : Predicts n first follow x) :
    Predicts n first follow fun i => insideFunction (x i) :=
  ⟨fun i s => (insideFunction_alike (fun s _ => ⟨rfl, h.goes i s⟩) s (Nat.lt_succ_self _)).2,
    fun ts short proper => (h.viable ts short proper).insideFunction⟩

end Predicts

/-! The single steps of readers. -/

/-- The reader passes a token and goes on. -/
def Passes (n : Nat) (follow : TokenKind → Prop) (x : Reader α) : Prop :=
  ∃ y first, (∀ s, x s = y s.pass) ∧ Predicts n first follow fun _ : Unit => y

/-- At each token, the reader passes it and goes on, or the token is one at which it does what
another one does. -/
def Begins (n : Nat) (follow : TokenKind → Prop) (x other : Reader α) (K : Token → Prop) : Prop :=
  ∃ f : Token → Reader α, x = current >>= f ∧ ∀ t, Passes n follow (f t) ∨ K t ∧ f t = other

lemma Begins.cases {x other : Reader α} {K : Token → Prop} (h : Begins n follow x other K)
    {t : Token} {rest : List Token} (short : (t :: rest).length < n + 1)
    (proper : ∀ u ∈ t :: rest, u.kind ≠ .eof) :
    Viable first follow (fun _ : Unit => x) (t :: rest) ∨
      K t ∧ ∀ s : Reading, s.current = t → x s = other s := by
  obtain ⟨f, rfl, at_token⟩ := h
  have here (s : Reading) (h : s.current = t) : (current >>= f) s = f t s := by
    rw [bind_current, h]
  rcases at_token t with ⟨y, first, passes, behind⟩ | ⟨one, same⟩
  · refine .inl (.passing (proper t List.mem_cons_self)
      (fun _ s h => (here s h).trans (passes s)) (behind.viable rest ?_ ?_))
    · exact Nat.lt_of_succ_lt_succ short
    · exact fun u within => proper u (List.mem_cons_of_mem t within)
  · exact .inr ⟨one, fun s h => (here s h).trans (congrFun same s)⟩

/-- Readers that do not look at the tokens. -/
lemma still_predicts {x : ι → Reader α} (h : ∀ i s, ∃ a t, x i s = .ok a t ∧ Onward s t ∧
    t.rest = s.rest ∧ (s.Calm → t.Calm)) : Predicts n follow follow x := by
  refine ⟨fun i s => ?_, fun _ _ _ => .stopping fun i s calm _ => ?_⟩
  · obtain ⟨a, t, run, onward, -⟩ := h i s
    exact .of_ok run onward onward.left_le
  · obtain ⟨a, t, run, -, rest, calm'⟩ := h i s
    exact ⟨a, t, run, rest, calm' calm⟩

lemma pure_predicts (a : ι → α) : Predicts n follow follow fun i => (pure (a i) : Reader α) :=
  still_predicts fun i s => ⟨a i, s, rfl, .refl s, rfl, id⟩

lemma push_predicts (node : ι → Node) : Predicts n follow follow fun i => push (node i) :=
  still_predicts fun i s => ⟨_, s.add (node i), rfl, .add s _, rfl, id⟩

lemma note_calm {s : Reading} (calm : s.Calm) {e : SyntaxError} (slight : e.cause.isFatal = false) :
    (s.note e).Calm :=
  SyntaxError.firstFatal_push calm slight

lemma limit_predicts (count : Nat) {cause : SyntaxError.Cause} (slight : cause.isFatal = false) :
    Predicts n follow follow fun _ : ι => limit count cause := by
  refine still_predicts fun _ s => ?_
  rw [limit_eq]
  split
  · exact ⟨(), _, rfl, .note s _, rfl, fun calm => note_calm calm slight⟩
  · exact ⟨(), s, rfl, .refl s, rfl, id⟩

lemma Predicts.map {x : ι → Reader α} (h : Predicts n first follow x) (g : ι → α → β) :
    Predicts n first follow fun i => g i <$> x i := by
  have same : (fun i => g i <$> x i) = fun i => x i >>= fun a => pure (g i a) :=
    funext fun i => map_eq_pure_bind (g i) (x i)
  rw [same]
  exact h.bind (pure_predicts fun ia : ι × α => g ia.1 ia.2) fun _ => id

lemma require_predicts (what : Requirement) :
    Predicts n (· = what.kind) Any fun _ : ι => require what := by
  have proper := requirement_kind_ne_eof what
  have passes (s : Reading) (here : s.current.kind = what.kind) :
      require what s = .ok s.current s.pass := by
    rw [require_eq, if_pos here]
  refine ⟨fun _ s => (require_alike what s (Nat.lt_succ_self _)).2.mono (Nat.zero_le 1),
    fun ts _ others => ?_⟩
  by_cases seen : nextKind ts = what.kind
  · cases ts with
    | nil => exact absurd seen.symm proper
    | cons t rest =>
      have here : t.kind = what.kind := seen
      have done : Predicts (rest.length + 1) Any Any fun _ : ι => pure t := pure_predicts fun _ => t
      have behind := done.viable rest (Nat.lt_succ_self _)
        fun u within => others u (List.mem_cons_of_mem t within)
      refine .passing (here ▸ proper) (fun _ s same => ?_) behind
      rw [passes s (same ▸ here), same]
      rfl
  · refine .failing [what.kind] (.missing what) ?_ (fun _ _ => rfl) ?_
      (fun _ => rfl) fun _ s head => ?_
    · exact fun within => proper (List.mem_singleton.mp within).symm
    · intro _ s qs r' calm kinds rest _
      obtain ⟨q, rfl, kind⟩ := List.map_eq_singleton_iff.mp kinds
      have here : s.current.kind = what.kind := by
        rw [current_kind, rest]
        exact kind
      exact ⟨s.current, s.pass, passes s here, pass_rest rest (kind ▸ proper), calm⟩
    · have other : s.current.kind ≠ what.kind := by
        rw [current_kind, nextKind_eq_of_head head]
        exact seen
      rw [require_eq, if_neg other]

/-- A token of a kind decides between two ways to go on. What completes the second way does not
begin with one. -/
lemma accept_predicts {kind : TokenKind} (proper : kind ≠ .eof) {y z : ι → Reader α}
    (yes : Predicts n first' follow y) (no : Predicts (n + 1) first follow z)
    (avoids : ∀ k, first k → k ≠ kind) :
    Predicts (n + 1) first follow fun i => accept kind >>= fun b => if b then y i else z i := by
  have run (i : ι) (s : Reading) : (accept kind >>= fun b => if b then y i else z i) s =
      if s.current.kind = kind then y i s.pass else z i s := accept_bind_eq kind _ s
  refine ⟨fun i s => ?_, fun ts short others => ?_⟩
  · refine (accept_alike kind s (Nat.lt_succ_self _)).2.bind (k := 0) fun b t _ => ?_
    split
    · exact yes.goes i t
    · exact no.goes i t
  · by_cases seen : nextKind ts = kind
    · cases ts with
      | nil => exact absurd seen.symm proper
      | cons t rest =>
        have here : t.kind = kind := seen
        have behind := yes.viable rest (Nat.lt_of_succ_lt_succ short)
          fun u within => others u (List.mem_cons_of_mem t within)
        exact .passing (here ▸ proper) (fun i s same => by rw [run, if_pos (same ▸ here)]) behind
    · exact (no.viable ts short others).congr (K := (· ≠ kind)) seen avoids
        fun i s other => by rw [run, if_neg other]

/-- What is left out before a token of a kind is completed by what stands there. -/
lemma unlessAt_predicts (kind : TokenKind) {x : ι → Reader α} (otherwise : ι → α)
    (h : Predicts n first follow x) (ends : follow kind) (avoids : ∀ k, first k → k ≠ kind) :
    Predicts n Any (· = kind) fun i => unlessAt kind (otherwise i) (x i) := by
  refine ⟨fun i s => ?_, fun ts short others => ?_⟩
  · exact (unlessAt_alike kind (otherwise i) (fun s _ => ⟨rfl, h.goes i s⟩) s
      (Nat.lt_succ_self _)).2
  · by_cases seen : nextKind ts = kind
    · refine Viable.mono (.stopping fun i s calm here => ?_) (fun _ _ => trivial) fun _ => id
      have here : s.current.kind = kind := here.elim id (·.trans seen)
      exact ⟨otherwise i, s, by rw [unlessAt_eq, if_pos here], rfl, calm⟩
    · have narrow : Viable first (· = kind) x ts :=
        (h.viable ts short others).mono (fun _ => id) fun k hk => hk ▸ ends
      exact (narrow.congr (K := (· ≠ kind)) seen avoids fun i s other => by
        rw [unlessAt_eq, if_neg other]).mono (fun _ _ => trivial) fun _ => id

/-- What may be left out needs no completion, if its keyword does not follow. -/
lemma ifAt_predicts {kind : TokenKind} (proper : kind ≠ .eof) {x : ι → Reader α}
    (h : Predicts n first follow x) :
    Predicts (n + 1) (fun k => follow k ∧ k ≠ kind) (fun k => follow k ∧ k ≠ kind)
      fun i => ifAt kind (x i) :=
  accept_predicts proper ((h.map fun _ => some).mono (fun _ => id) fun _ => And.left)
    (pure_predicts fun _ => none) fun _ => And.right

end Reader

namespace Grammar

variable {ι : Type} {n : Nat}

section Expressions

variable {operation : Nat → Reader NodeRef}

lemma floorOf_predicts (h : Predicts n AtNil (Stops 0) fun _ : Unit => operation 0) (line : Nat) :
    Predicts n (· = .leftParen) Any fun _ : ι => floorOf operation line :=
  (require_predicts .floorOpen).bind ((h.comap fun _ => ()).bind
    ((require_predicts .floorClose).bind (push_predicts _) fun _ _ => trivial)
    (stops_other rfl)) fun _ _ => trivial

lemma substringOf_predicts (h : Predicts n AtNil (Stops 0) fun _ : Unit => operation 0)
    (line : Nat) : Predicts n (· = .leftParen) Any fun _ : ι => substringOf operation line :=
  (require_predicts .substringOpen).bind ((h.comap fun _ => ()).bind
    ((require_predicts .substringComma).bind ((h.comap fun _ => ()).bind
      ((require_predicts .substringComma).bind ((h.comap fun _ => ()).bind
        ((require_predicts .substringClose).bind (push_predicts _) fun _ _ => trivial)
        (stops_other rfl)) fun _ _ => trivial)
      (stops_other rfl)) fun _ _ => trivial)
    (stops_other rfl)) fun _ _ => trivial

lemma unaryOf_predicts {follow : TokenKind → Prop}
    (h : Predicts n AtNil follow fun _ : Unit => operation Continuation.unaryPower)
    (op : UnaryOp) (line : Nat) :
    Predicts n AtNil follow fun _ : ι => unaryOf operation op line :=
  (h.comap fun _ => ()).bind (push_predicts _) fun _ => id

lemma groupOf_predicts (h : Predicts n AtNil (Stops 0) fun _ : Unit => operation 0) :
    Predicts n AtNil Any fun _ : ι => groupOf operation :=
  (h.comap fun _ => ()).bind ((require_predicts .groupClose).bind (push_predicts _)
    fun _ _ => trivial) (stops_other rfl)

/-- Where no operand begins, `nil` is missing. -/
lemma operandOf_failing {ts : List Token} {follow : TokenKind → Prop}
    (fails : ∀ s : Reading, s.rest.head? = ts.head? →
      operandOf operation s = fail .noExpression s) :
    Viable AtNil follow (fun _ : Unit => operandOf operation) ts := by
  refine .failing [.kwNil] .noExpression (by decide) (fun _ _ => rfl) ?_
    (fun _ => rfl) fun _ s head => fails s head
  intro _ s qs r' calm kinds rest _
  obtain ⟨q, rfl, kind⟩ := List.map_eq_singleton_iff.mp kinds
  have here : s.current.kind = .kwNil := by
    rw [current_kind, rest]
    exact kind
  have run : operandOf operation s = push (.atom .nil s.current.line) s.pass := by
    rw [operandOf, bind_current, here]
    rfl
  exact ⟨_, _, run, pass_rest rest (by simp [kind]), calm⟩

lemma operandOf_begins (h : Predicts n AtNil (Stops 0) fun _ : Unit => operation 0)
    (hu : Predicts n AtNil (Stops Continuation.unaryPower)
      fun _ : Unit => operation Continuation.unaryPower) :
    Begins n (Stops Continuation.unaryPower) (operandOf operation) (fail .noExpression)
      fun _ => True := by
  have node (node : Node) : Passes n (Stops Continuation.unaryPower) (do
      let _ ← advance
      push node) :=
    ⟨_, _, fun _ => rfl, push_predicts fun _ => node⟩
  refine ⟨_, rfl, fun t => ?_⟩
  split
  case h_9 => exact .inl ⟨_, _, fun _ => rfl, (floorOf_predicts h _).narrow⟩
  case h_10 => exact .inl ⟨_, _, fun _ => rfl, (substringOf_predicts h _).narrow⟩
  case h_11 => exact .inl ⟨_, _, fun _ => rfl, unaryOf_predicts hu _ _⟩
  case h_12 => exact .inl ⟨_, _, fun _ => rfl, unaryOf_predicts hu _ _⟩
  case h_13 => exact .inl ⟨_, _, fun _ => rfl, (groupOf_predicts h).narrow⟩
  case h_14 => exact .inr ⟨trivial, rfl⟩
  all_goals exact .inl (node _)

lemma operandOf_predicts (goes : ∀ power s, Goes 1 (operation power) s)
    (h : Predicts n AtNil (Stops 0) fun _ : Unit => operation 0)
    (hu : Predicts n AtNil (Stops Continuation.unaryPower)
      fun _ : Unit => operation Continuation.unaryPower) :
    Predicts (n + 1) AtNil (Stops Continuation.unaryPower)
      fun _ : Unit => operandOf operation := by
  refine ⟨fun _ s => (operandOf_alike (fun power s _ => ⟨rfl, goes power s⟩) s
    (Nat.lt_succ_self _)).2.mono (Nat.zero_le 1), fun ts short others => ?_⟩
  cases ts with
  | nil =>
    refine operandOf_failing fun s head => ?_
    have none : s.rest = [] := List.head?_eq_none_iff.mp head
    have ends : s.current.kind = .eof := by
      rw [current_kind, none]
      rfl
    rw [operandOf, bind_current, ends]
  | cons t rest =>
    rcases (operandOf_begins h hu).cases short others with passes | ⟨-, fails⟩
    · exact passes
    · refine operandOf_failing fun s head => fails s ?_
      obtain ⟨r, here⟩ := List.head?_eq_some_iff.mp head
      rw [Reading.current, here]
      rfl

/-- What stops a power stops whatever the continuations of that power read on their right. -/
lemma stops_right {power : Nat} {next : Continuation} (strong : power ≤ next.leftPower) :
    ∀ k, Stops power k → Stops next.rightPower k := by
  intro k stops c hc
  have weak := stops c hc
  cases next with
  | call | binary | logical => exact Nat.lt_succ_of_lt (Nat.lt_of_lt_of_le weak strong)
  | assign =>
    have values := Unbounded.leftPower_values c
    change power ≤ 2 at strong
    omega

variable {arguments : Reader (List NodeRef)}

/-- What is done with the value of an assignment. -/
def assigning (t : Token) (lhs rhs : NodeRef) : Reader NodeRef := fun s =>
  match s.nodes[lhs]?.bind Node.target? with
  | some target => .ok s.nodes.size (s.add (.assign target rhs))
  | none => .ok lhs (s.note (SyntaxError.atToken t .badTarget))

section

variable {t : Token} {lhs rhs : NodeRef} {s : Reading}

lemma assigning_target {name : Ident} (target : s.nodes[lhs]?.bind Node.target? = some name) :
    assigning t lhs rhs s = .ok s.nodes.size (s.add (.assign name rhs)) := by
  simp only [assigning, target]

lemma assigning_other (target : s.nodes[lhs]?.bind Node.target? = none) :
    assigning t lhs rhs s = .ok lhs (s.note (SyntaxError.atToken t .badTarget)) := by
  simp only [assigning, target]

end

lemma continuedOf_assign (operation : Nat → Reader NodeRef) (arguments : Reader (List NodeRef))
    (t : Token) (lhs : NodeRef) : continuedOf operation arguments .assign t lhs =
      operation Continuation.assign.rightPower >>= assigning t lhs := by
  refine congrArg (operation _ >>= ·) (funext fun rhs => funext fun s => ?_)
  change (match s.nodes[lhs]?.bind Node.target? with
    | some target => push (.assign target rhs)
    | none => do record (SyntaxError.atToken t .badTarget); return lhs) s = assigning t lhs rhs s
  unfold assigning
  cases s.nodes[lhs]?.bind Node.target? <;> rfl

lemma continuedOf_predicts (h : ∀ power, power ≤ Continuation.unaryPower →
      Predicts n AtNil (Stops power) fun _ : Unit => operation power)
    (ha : Predicts n AtNil (· = .rightParen) fun _ : Unit => arguments) (next : Continuation)
    (t : Token) : Predicts n Any (Stops next.rightPower)
      fun lhs => continuedOf operation arguments next t lhs := by
  cases next with
  | call =>
    exact ((unlessAt_predicts .rightParen (fun _ => []) (ha.comap fun _ => ()) rfl
      (by rintro _ rfl; decide)).bind ((require_predicts .argumentsClose).bind (push_predicts _)
        fun _ _ => trivial) fun _ => id).narrow
  | binary op =>
    refine Predicts.mono (.bind ((h _ ?_).comap fun _ => ()) (push_predicts _) fun _ => id)
      (fun _ _ => trivial) fun _ => id
    cases op <;> decide
  | logical op =>
    refine Predicts.mono (.bind ((h _ ?_).comap fun _ => ()) (push_predicts _) fun _ => id)
      (fun _ _ => trivial) fun _ => id
    cases op <;> decide
  | assign =>
    rw [funext (continuedOf_assign operation arguments t)]
    refine Predicts.mono (.bind ((h _ (by decide)).comap fun _ => ()) (still_predicts ?_)
      fun _ => id) (fun _ _ => trivial) fun _ => id
    rintro ⟨lhs, rhs⟩ s
    cases target : s.nodes[lhs]?.bind Node.target? with
    | some name =>
      exact ⟨_, _, assigning_target target, .add s _, rfl, id⟩
    | none =>
      exact ⟨_, _, assigning_other target, .note s _, rfl, fun calm => note_calm calm rfl⟩

lemma argumentsOf_predicts {others : Reader (List NodeRef)}
    (h : Predicts (n + 1) AtNil (Stops 0) fun _ : Unit => operation 0)
    (ho : Predicts n AtNil (· = .rightParen) fun _ : Unit => others) (count : Nat) :
    Predicts (n + 1) AtNil (· = .rightParen)
      fun _ : Unit => argumentsOf operation others count := by
  have more : Predicts n AtNil (· = .rightParen) fun ia : (Unit × Unit) × NodeRef => do
      let others ← others
      return ia.2 :: others :=
    (ho.comap fun _ => ()).bind (pure_predicts _) fun _ => id
  refine (limit_predicts count rfl).bind ((h.comap fun _ => ()).bind
    (accept_predicts (by decide) more (pure_predicts _) ?_)
    (stops_other rfl : ∀ k, k = TokenKind.rightParen → _)) fun _ => id
  rintro _ rfl
  decide

lemma expressionOf_predicts (h : Predicts n AtNil (Stops 0) fun _ : Unit => operation 0) :
    Predicts n AtNil (Stops 0) fun _ : Unit => expressionOf operation := by
  have clear : Predicts n AtNil AtNil fun _ : Unit => (modify Reading.bare : Reader PUnit) :=
    still_predicts fun _ s => ⟨⟨⟩, s.bare, rfl, .bare s, rfl, id⟩
  refine clear.bind ((h.comap fun _ => ()).bind (still_predicts ?_) fun _ => id) fun _ => id
  exact fun ia s => ⟨⟨s.nodes, ia.2⟩, s.bare, rfl, .bare s, rfl, id⟩

end Expressions

section Statements

/-- Any token but `else`, which could belong to an `if` before it. -/
abbrev NoElse : TokenKind → Prop :=
  (· ≠ .kwElse)

variable {expression : Reader Expression} {statement declaration : Reader Statement}
  {block others : Reader (List Statement)} {parameters : Reader (List Ident)}

section

variable (he : ∀ n, Predicts n AtNil (Stops 0) fun _ : Unit => expression)

include he

lemma expressionStatement_predicts :
    Predicts n AtNil Any fun _ : ι => expressionStatement expression :=
  ((he n).comap fun _ => ()).bind ((require_predicts .expressionEnd).bind (pure_predicts _)
    fun _ _ => trivial) (stops_other rfl)

lemma printStatement_predicts : Predicts n AtNil Any fun _ : ι => printStatement expression :=
  ((he n).comap fun _ => ()).bind ((require_predicts .printEnd).bind (pure_predicts _)
    fun _ _ => trivial) (stops_other rfl)

lemma variableDeclaration_predicts :
    Predicts n (· = .identifier) Any fun _ : ι => variableDeclaration expression := by
  refine (require_predicts .variableName).bind
    (((ifAt_predicts (by decide) ((he n).comap fun _ => ())).below (Nat.le_succ n)).bind
      ((require_predicts .variableEnd).bind (pure_predicts _) fun _ _ => trivial) ?_)
    fun _ _ => trivial
  rintro _ rfl
  exact ⟨stops_of_none rfl, by decide⟩

omit he in
lemma checkInside_eq (keyword : Token) (s : Reading) : checkInside keyword s =
    if s.functionDepth = 0 then .ok () (s.note (SyntaxError.atToken keyword .returnOutside))
    else .ok () s := by
  change (if s.functionDepth = 0 then record (SyntaxError.atToken keyword .returnOutside)
    else pure ()) s = _
  split <;> rfl

lemma returnStatement_predicts (keyword : Token) :
    Predicts n Any Any fun _ : ι => returnStatement expression keyword := by
  have inside : Predicts n Any Any fun _ : ι => checkInside keyword := by
    refine still_predicts fun _ s => ?_
    rw [checkInside_eq]
    split
    · exact ⟨(), _, rfl, .note s _, rfl, fun calm => note_calm calm rfl⟩
    · exact ⟨(), s, rfl, .refl s, rfl, id⟩
  exact inside.bind ((unlessAt_predicts .semicolon (fun _ => none)
    (((he n).comap fun _ => ()).map fun _ => some) (stops_of_none rfl)
    (by rintro _ rfl; decide)).bind ((require_predicts .returnEnd).bind (pure_predicts _)
      fun _ _ => trivial) fun _ => id) fun _ => id

lemma condition_predicts (opening closing : Requirement)
    (closes : Continuation.ofKind? closing.kind = none) :
    Predicts n (· = opening.kind) Any fun _ : ι => condition expression opening closing :=
  (require_predicts opening).bind (((he n).comap fun _ => ()).bind
    ((require_predicts closing).bind (pure_predicts _) fun _ _ => trivial)
    (stops_other closes)) fun _ _ => trivial

lemma forInitializer_predicts : Predicts n AtNil Any fun _ : ι => forInitializer expression := by
  refine Predicts.below (accept_predicts (by decide) (pure_predicts _)
    (accept_predicts (by decide) ((variableDeclaration_predicts he).map fun _ => some)
      ((expressionStatement_predicts he).map fun _ => some) ?_) ?_) (Nat.le_succ n)
  · rintro _ rfl
    decide
  · rintro _ rfl
    decide

lemma forClauses_predicts :
    Predicts n (· = .leftParen) Any fun _ : ι => forClauses expression := by
  have clause (kind : TokenKind) (stops : Stops 0 kind) (other : kind ≠ .kwNil) (κ : Type) :
      Predicts n Any (· = kind) fun _ : κ => unlessAt kind none (some <$> expression) :=
    unlessAt_predicts kind (fun _ => none) (((he n).comap fun _ => ()).map fun _ => some) stops
      (by rintro _ rfl; exact other.symm)
  exact (require_predicts .forOpen).bind ((forInitializer_predicts he).bind
    ((clause .semicolon (stops_of_none rfl) (by decide) _).bind
      ((require_predicts .forConditionEnd).bind
        ((clause .rightParen (stops_of_none rfl) (by decide) _).bind
          ((require_predicts .forClose).bind (pure_predicts _) fun _ _ => trivial)
          fun _ => id) fun _ _ => trivial)
      fun _ => id) fun _ _ => trivial) fun _ _ => trivial

lemma loopHead_predicts : Predicts n (· = .leftParen) Any fun _ : ι => loopHead expression :=
  (require_predicts .loopOpen).bind ((require_predicts .loopVar).bind
    ((require_predicts .variableName).bind ((require_predicts .loopIn).bind
      (((he n).comap fun _ => ()).bind ((require_predicts .loopClose).bind (pure_predicts _)
        fun _ _ => trivial) (stops_other rfl)) fun _ _ => trivial) fun _ _ => trivial)
    fun _ _ => trivial) fun _ _ => trivial

end

lemma parametersOf_predicts
    (h : Predicts n (· = .identifier) (· = .rightParen) fun _ : Unit => parameters) (count : Nat) :
    Predicts (n + 1) (· = .identifier) (· = .rightParen)
      fun _ : Unit => parametersOf parameters count := by
  have more : Predicts n (· = .identifier) (· = .rightParen)
      fun ia : (Unit × Unit) × Token => do
        let others ← parameters
        return ident ia.2 :: others :=
    (h.comap fun _ => ()).bind (pure_predicts _) fun _ => id
  refine (limit_predicts count rfl).bind ((require_predicts .parameterName).bind
    (accept_predicts (by decide) more (pure_predicts _) ?_) fun _ _ => trivial) fun _ => id
  rintro _ rfl
  decide

lemma functionHead_predicts
    (h : Predicts n (· = .identifier) (· = .rightParen) fun _ : Unit => parameters) :
    Predicts n (· = .identifier) Any fun _ : ι => functionHead parameters :=
  (require_predicts .functionName).bind ((require_predicts .parametersOpen).bind
    ((unlessAt_predicts .rightParen (fun _ => []) (h.comap fun _ => ()) rfl
      (by rintro _ rfl; decide)).bind ((require_predicts .parametersClose).bind
        ((require_predicts .bodyOpen).bind (pure_predicts _) fun _ _ => trivial)
        fun _ _ => trivial) fun _ => id) fun _ _ => trivial) fun _ _ => trivial

/-- The keywords and the brace at which a statement is no expression. -/
def openings : List TokenKind :=
  [.kwPrint, .kwReturn, .leftBrace, .kwIf, .kwWhile, .kwFor, .kwLoop]

lemma statementOf_begins (he : ∀ n, Predicts n AtNil (Stops 0) fun _ : Unit => expression)
    (hs : Predicts n AtNil NoElse fun _ : Unit => statement)
    (hb : Predicts n NoElse Any fun _ : Unit => block) :
    Begins n NoElse (statementOf expression statement block) (expressionStatement expression)
      fun t => t.kind ∉ openings := by
  have body {ι : Type} : Predicts n AtNil NoElse fun _ : ι => statement := hs.comap fun _ => ()
  have failure {ι : Type} : Predicts n NoElse NoElse fun _ : ι => ifAt .kwElse statement :=
    ((ifAt_predicts (by decide) body).below (Nat.le_succ n)).mono (fun _ => And.left)
      fun _ other => ⟨other, other⟩
  refine ⟨_, rfl, fun t => ?_⟩
  split
  case h_1 => exact .inl ⟨_, _, fun _ => rfl, (printStatement_predicts he).narrow⟩
  case h_2 => exact .inl ⟨_, _, fun _ => rfl, (returnStatement_predicts he _).narrow⟩
  case h_3 =>
    exact .inl ⟨_, _, fun _ => rfl, (hb.bind (pure_predicts _) fun _ _ => trivial).narrow⟩
  case h_4 =>
    exact .inl ⟨_, _, fun _ => rfl, (condition_predicts he .ifOpen .ifClose rfl).bind
      (body.bind (failure.bind (pure_predicts _) fun _ => id) fun _ => id) fun _ _ => trivial⟩
  case h_5 =>
    exact .inl ⟨_, _, fun _ => rfl, (condition_predicts he .whileOpen .whileClose rfl).bind
      (body.bind (pure_predicts _) fun _ => id) fun _ _ => trivial⟩
  case h_6 =>
    exact .inl ⟨_, _, fun _ => rfl, (forClauses_predicts he).bind
      (body.bind (pure_predicts _) fun _ => id) fun _ _ => trivial⟩
  case h_7 =>
    exact .inl ⟨_, _, fun _ => rfl, (loopHead_predicts he).bind
      (body.bind (pure_predicts _) fun _ => id) fun _ _ => trivial⟩
  case h_8 =>
    refine .inr ⟨fun within => ?_, rfl⟩
    simp only [openings, List.mem_cons, List.not_mem_nil, or_false] at within
    tauto

lemma statementOf_plain {s : Reading} (h : s.current.kind ∉ openings) :
    statementOf expression statement block s = expressionStatement expression s := by
  rw [statementOf, bind_current]
  generalize s.current.kind = kind at h
  cases kind <;> first | rfl | exact absurd (by decide) h

lemma statementOf_predicts (goes : ∀ s, Goes 1 (statementOf expression statement block) s)
    (he : ∀ n, Predicts n AtNil (Stops 0) fun _ : Unit => expression)
    (hs : Predicts n AtNil NoElse fun _ : Unit => statement)
    (hb : Predicts n NoElse Any fun _ : Unit => block) :
    Predicts (n + 1) AtNil NoElse fun _ : Unit => statementOf expression statement block := by
  refine ⟨fun _ s => (goes s).mono (Nat.zero_le 1), fun ts short others => ?_⟩
  have plain (h : nextKind ts ∉ openings) : Viable AtNil NoElse
      (fun _ : Unit => statementOf expression statement block) ts := by
    refine ((expressionStatement_predicts he).narrow.viable ts short others).congr
      (K := (· ∉ openings)) h ?_ fun _ s => statementOf_plain
    rintro _ rfl
    decide
  cases ts with
  | nil => exact plain (by decide)
  | cons t rest =>
    rcases (statementOf_begins he hs hb).cases short others with passes | ⟨other, -⟩
    · exact passes
    · exact plain other

lemma declarationOf_predicts (he : ∀ n, Predicts n AtNil (Stops 0) fun _ : Unit => expression)
    (hp : Predicts n (· = .identifier) (· = .rightParen) fun _ : Unit => parameters)
    (hs : Predicts (n + 1) AtNil NoElse fun _ : Unit => statement)
    (hb : Predicts n NoElse Any fun _ : Unit => block) :
    Predicts (n + 1) AtNil NoElse
      fun _ : Unit => declarationOf expression parameters statement block := by
  have function : Predicts n (· = .identifier) NoElse fun _ : Unit => do
      let head ← functionHead parameters
      let body ← insideFunction block
      return Statement.declareFun head.1 head.2 body :=
    (functionHead_predicts hp).bind (((hb.comap fun _ => ()).insideFunction.bind
      (pure_predicts _) fun _ _ => trivial).narrow) fun _ _ => trivial
  refine accept_predicts (by decide) function (accept_predicts (by decide)
    (variableDeclaration_predicts he).narrow hs ?_) ?_
  · rintro _ rfl
    decide
  · rintro _ rfl
    decide

lemma blockOf_predicts (h : Predicts n NoElse (· = .rightBrace) fun _ : Unit => others) :
    Predicts n NoElse Any fun _ : Unit => blockOf others :=
  h.bind ((require_predicts .blockClose).bind (pure_predicts _) fun _ _ => trivial) fun _ => id

/-- What closes a list of declarations. -/
def closing (inBlock : Bool) : TokenKind :=
  if inBlock then .rightBrace else .eof

/-- Where the declarations end. -/
def Ends (inBlock : Bool) (kind : TokenKind) : Prop :=
  kind = .eof ∨ kind = closing inBlock

lemma ends_iff {inBlock : Bool} {kind : TokenKind} : Ends inBlock kind ↔
    (kind == .eof || (inBlock && kind == .rightBrace)) = true := by
  cases inBlock <;> simp [Ends, closing]

lemma declarationsOf_ends {inBlock : Bool} {s : Reading} (h : Ends inBlock s.current.kind) :
    declarationsOf declaration others inBlock s = .ok [] s := by
  rw [declarationsOf, bind_sees, bind_sees, ends_iff.mp h]
  rfl

lemma declarationsOf_goesOn {inBlock : Bool} {s : Reading} (h : ¬Ends inBlock s.current.kind) :
    declarationsOf declaration others inBlock s = (do
      let found ← recovering declaration
      (found.toList ++ ·) <$> others) s := by
  rw [declarationsOf, bind_sees, bind_sees, Bool.eq_false_iff.mpr (fun e => h (ends_iff.mpr e))]
  simp only [Bool.false_eq_true, if_false]
  refine congrFun (congrArg _ (funext fun found => ?_)) s
  cases found with
  | none => exact (id_map others).symm
  | some statement => exact bind_pure_comp _ others

lemma declarationsOf_stopping {inBlock : Bool} {ts : List Token} (h : Ends inBlock (nextKind ts)) :
    Viable NoElse (· = closing inBlock)
      (fun _ : Unit => declarationsOf declaration others inBlock) ts := by
  refine Viable.mono (.stopping fun _ s calm here =>
    ⟨[], s, declarationsOf_ends ?_, rfl, calm⟩) ?_ fun _ => id
  · exact here.elim .inr fun same => same ▸ h
  · rintro _ rfl
    cases inBlock <;> decide

/-- A list of declarations is never done before it has come to its end, and each declaration is
shorter than the tokens that are left. -/
lemma declarationsOf_predicts {inBlock : Bool} (goes : ∀ s, Goes 1 declaration s)
    (goes' : ∀ s, Goes 0 (declarationsOf declaration others inBlock) s)
    (hd : Predicts (n + 1) AtNil NoElse fun _ : Unit => declaration)
    (ho : Predicts n NoElse (· = closing inBlock) fun _ : Unit => others)
    (hnil : Predicts 1 NoElse (· = closing inBlock) fun _ : Unit => others) :
    Predicts (n + 1) NoElse (· = closing inBlock)
      fun _ : Unit => declarationsOf declaration others inBlock := by
  refine ⟨fun _ => goes', fun ts short proper => ?_⟩
  by_cases ends : Ends inBlock (nextKind ts)
  · exact declarationsOf_stopping ends
  · have behind {m : Nat} (h : Predicts m NoElse (· = closing inBlock) fun _ : Unit => others) :
        Predicts m NoElse (· = closing inBlock) fun ia : Unit × Option Statement =>
          (ia.2.toList ++ ·) <$> others :=
      (h.comap fun _ : Unit × Option Statement => ()).map fun ia ss => ia.2.toList ++ ss
    have whole : Viable AtNil (· = closing inBlock) (fun _ : Unit => do
        let found ← recovering declaration
        (found.toList ++ ·) <$> others) ts := by
      refine (hd.viable ts short proper).recovering.bind
        (fun _ s => recovering_goes (hd.goes () s)) (fun _ found => (behind ho).goes ((), found))
        (fun p r split done => (behind ho).viable r ?_ ?_) ((behind hnil).viable [] ?_ ?_) ?_
      · subst split
        refine Nat.lt_of_lt_of_le (done.shorter () fun s rest => ?_) (Nat.le_of_lt_succ short)
        have proper : s.current.kind ≠ .eof := by
          rw [current_kind, rest]
          exact fun he => ends (.inl he)
        exact (recovering_alikeAt proper ⟨rfl, goes s⟩).2
      · exact fun t within => proper t (split ▸ List.mem_append_right p within)
      · exact Nat.one_pos
      · exact List.forall_mem_nil _
      · exact fun _ => id
    refine (whole.congr (K := fun k => ¬Ends inBlock k) ends ?_
      fun _ s => declarationsOf_goesOn).mono ?_ fun _ => id
    · rintro _ rfl
      cases inBlock <;> simp [Ends, closing]
    · rintro _ rfl
      decide

end Statements

end Grammar

namespace Unbounded

open Grammar

variable {n : Nat}

lemma predicts_zero {ι α : Type} {k : Nat} {first follow : TokenKind → Prop} {x : ι → Reader α}
    (goes : ∀ i s, Goes k (x i) s) : Predicts 0 first follow x :=
  ⟨fun i s => (goes i s).mono (Nat.zero_le k), fun _ short => absurd short (Nat.not_lt_zero _)⟩

lemma operand_predicts (h : ∀ power, power ≤ Continuation.unaryPower →
      Predicts n AtNil (Stops power) fun _ : Unit => operation power) :
    Predicts (n + 1) AtNil (Stops Continuation.unaryPower) fun _ : Unit => operand := by
  rw [operand_eq]
  exact operandOf_predicts operation_goes (h 0 (Nat.zero_le _)) (h _ (Nat.le_refl _))

lemma continuations_goes (power : Nat) (lhs : NodeRef) (s : Reading) :
    Goes 0 (continuations power lhs) s :=
  (continuations_unbounded (Nat.le_refl _) power lhs s (Nat.lt_succ_self _)).2

lemma continuations_predicts {power : Nat} (h : ∀ power, power ≤ Continuation.unaryPower →
      Predicts n AtNil (Stops power) fun _ : Unit => operation power)
    (ha : Predicts n AtNil (· = .rightParen) fun _ : Unit => arguments 0)
    (hc : Predicts n (Stops power) (Stops power) (continuations power)) :
    Predicts (n + 1) (Stops power) (Stops power) (continuations power) := by
  refine ⟨fun lhs => continuations_goes power lhs, fun ts short others => ?_⟩
  by_cases stops : Stops power (nextKind ts)
  · refine .stopping fun lhs s calm here => ⟨lhs, s, continuations_stopped ?_ lhs, rfl, calm⟩
    exact here.elim id fun same => by rw [Stopped, same]; exact stops
  · simp only [Stops, not_forall, Nat.not_lt] at stops
    obtain ⟨next, found, strong⟩ := stops
    cases ts with
    | nil => cases found
    | cons t rest =>
      have larger : Predicts n Any (Stops power) fun lhs =>
          continuedOf operation (arguments 0) next t lhs >>= continuations power :=
        (continuedOf_predicts h ha next t).bind (hc.comap Prod.snd) (stops_right strong)
      have behind := larger.viable rest (Nat.lt_of_succ_lt_succ short)
        fun u within => others u (List.mem_cons_of_mem t within)
      refine .passing (others t List.mem_cons_self) (fun lhs s here => ?_) behind
      have found : Continuation.ofKind? s.current.kind = some next := here ▸ found
      rw [continuations_taken found strong, here]

/-- Readers of expressions are viable where less than `n` tokens are left. -/
structure ExpressionsPredict (n : Nat) : Prop where
  operation : ∀ power, power ≤ Continuation.unaryPower →
    Predicts n AtNil (Stops power) fun _ : Unit => operation power
  continuations : ∀ power, Predicts n (Stops power) (Stops power) (continuations power)
  arguments : ∀ count, Predicts n AtNil (· = .rightParen) fun _ : Unit => arguments count

lemma expressions_predict (n : Nat) : ExpressionsPredict n := by
  induction n with
  | zero =>
    exact ⟨fun power _ => predicts_zero fun _ => operation_goes power,
      fun power => predicts_zero (continuations_goes power),
      fun count => predicts_zero fun _ => arguments_goes count⟩
  | succ n ih =>
    have continues (power : Nat) :=
      continuations_predicts ih.operation (ih.arguments 0) (ih.continuations power)
    have operations : ∀ power, power ≤ Continuation.unaryPower →
        Predicts (n + 1) AtNil (Stops power) fun _ : Unit => Unbounded.operation power := by
      intro power bound
      rw [operation_eq]
      exact (operand_predicts ih.operation).bind ((continues power).comap Prod.snd)
        fun k stops c hc => Nat.lt_of_lt_of_le (stops c hc) bound
    refine ⟨operations, continues, fun count => ?_⟩
    rw [arguments_eq]
    exact argumentsOf_predicts (operations 0 (Nat.zero_le _)) (ih.arguments (count + 1)) count

lemma expression_predicts (n : Nat) :
    Predicts n AtNil (Stops 0) fun _ : Unit => expression :=
  expressionOf_predicts ((expressions_predict n).operation 0 (Nat.zero_le _))

lemma parameters_goes (count : Nat) (s : Reading) : Goes 1 (parameters count) s :=
  (parameters_unbounded (Nat.le_refl _) count s (Nat.lt_succ_self _)).2

lemma statement_goes (s : Reading) : Goes 1 statement s :=
  (statement_unbounded (Nat.le_refl _) s (Nat.lt_succ_self _)).2

lemma declaration_goes (s : Reading) : Goes 1 declaration s :=
  (declaration_unbounded (Nat.le_refl _) s (Nat.lt_succ_self _)).2

lemma block_goes (s : Reading) : Goes 1 block s :=
  (block_unbounded (Nat.le_refl _) s (Nat.lt_succ_self _)).2

lemma declarations_goes (inBlock : Bool) (s : Reading) : Goes 0 (declarations inBlock) s :=
  (declarations_unbounded (Nat.le_refl _) inBlock s (Nat.lt_succ_self _)).2

lemma parameters_predicts (n count : Nat) :
    Predicts n (· = .identifier) (· = .rightParen) fun _ : Unit => parameters count := by
  induction n generalizing count with
  | zero => exact predicts_zero fun _ => parameters_goes count
  | succ n ih =>
    rw [parameters_eq]
    exact parametersOf_predicts (ih (count + 1)) count

/-- Readers of statements are viable where less than `n` tokens are left. -/
structure StatementsPredict (n : Nat) : Prop where
  statement : Predicts n AtNil NoElse fun _ : Unit => statement
  block : Predicts n NoElse Any fun _ : Unit => block
  declarations : ∀ inBlock,
    Predicts n NoElse (· = closing inBlock) fun _ : Unit => declarations inBlock

lemma declarations_at_end (inBlock : Bool) :
    Predicts 1 NoElse (· = closing inBlock) fun _ : Unit => declarations inBlock := by
  refine ⟨fun _ => declarations_goes inBlock, fun ts short _ => ?_⟩
  obtain rfl := List.length_eq_zero_iff.mp (Nat.lt_one_iff.mp short)
  rw [declarations_eq]
  exact declarationsOf_stopping (.inl rfl)

lemma statements_predict (n : Nat) : StatementsPredict n := by
  induction n with
  | zero =>
    exact ⟨predicts_zero fun _ => statement_goes, predicts_zero fun _ => block_goes,
      fun inBlock => predicts_zero fun _ => declarations_goes inBlock⟩
  | succ n ih =>
    have statements : Predicts (n + 1) AtNil NoElse fun _ : Unit => Unbounded.statement := by
      have goes := statement_goes
      rw [statement_eq] at goes ⊢
      exact statementOf_predicts goes expression_predicts ih.statement ih.block
    have declares : Predicts (n + 1) AtNil NoElse fun _ : Unit => declaration := by
      rw [declaration_eq]
      exact declarationOf_predicts expression_predicts (parameters_predicts n 0) statements ih.block
    have lists (inBlock : Bool) : Predicts (n + 1) NoElse (· = closing inBlock)
        fun _ : Unit => Unbounded.declarations inBlock := by
      have goes := declarations_goes inBlock
      rw [declarations_eq] at goes ⊢
      exact declarationsOf_predicts declaration_goes goes declares (ih.declarations inBlock)
        (declarations_at_end inBlock)
    refine ⟨statements, ?_, lists⟩
    rw [block_eq]
    exact blockOf_predicts (lists true)

end Unbounded

end Lox
