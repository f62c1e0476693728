import Lox.Proofs.Derivation.ExpressionSound
import Lox.Proofs.Reading.Layers

/-!
What the grammar of expressions derives, recursive descent reads, wherever what follows does not go
on with the expression.
-/

namespace Lox

open Reading Reader Grammar

variable {s : Reading} {rest : List Token}

namespace Reading

/-- The state with other tokens left. -/
def facing (s : Reading) (ts : List Token) : Reading :=
  { s with rest := ts }

lemma facing_pass {t : Token} (h : t.kind ≠ .eof) :
    (s.facing (t :: rest)).pass = s.facing rest := by
  simp only [facing, pass, passed, h, if_false]

end Reading

namespace Reader

variable {t : Token}

lemma advance_run (h : t.kind ≠ .eof) : advance (s.facing (t :: rest)) = .ok t (s.facing rest) := by
  have run : advance (s.facing (t :: rest)) = .ok t (s.facing (t :: rest)).pass := rfl
  rwa [facing_pass h] at run

lemma accept_run {kind : TokenKind} (h : t.kind = kind) (hne : kind ≠ .eof) :
    accept kind (s.facing (t :: rest)) = .ok true (s.facing rest) := by
  have run := accept_eq kind (s.facing (t :: rest))
  have seen : (s.facing (t :: rest)).current.kind = kind := h
  rwa [if_pos seen, facing_pass (h ▸ hne)] at run

lemma require_run {what : Requirement} (h : t.kind = what.kind) :
    require what (s.facing (t :: rest)) = .ok t (s.facing rest) := by
  have run := require_eq what (s.facing (t :: rest))
  have seen : (s.facing (t :: rest)).current.kind = what.kind := h
  rwa [if_pos seen, facing_pass (h ▸ requirement_kind_ne_eof what)] at run

lemma limit_run {count : Nat} {cause : SyntaxError.Cause} (h : count < arityLimit) :
    limit count cause s = .ok () s := by
  rw [limit_eq, if_neg (Nat.not_le.mpr h)]

end Reader

namespace Descent

variable {δ : Type} {t : Token}

lemma current_facing {g : Token → Descent δ} :
    (liftM Reader.current >>= g) (s.facing (t :: rest)) = g t (s.facing (t :: rest)) :=
  rfl

lemma advance_facing {g : Token → Descent δ} (h : t.kind ≠ .eof) :
    (liftM Reader.advance >>= g) (s.facing (t :: rest)) = g t (s.facing rest) :=
  bind_ok (step_ok (Reader.advance_run h))

lemma accept_facing {kind : TokenKind} {g : Bool → Descent δ} (h : t.kind = kind)
    (hne : kind ≠ .eof) :
    (liftM (Reader.accept kind) >>= g) (s.facing (t :: rest)) = g true (s.facing rest) :=
  bind_ok (step_ok (Reader.accept_run h hne))

lemma accept_other {kind : TokenKind} {g : Bool → Descent δ} (h : t.kind ≠ kind) :
    (liftM (Reader.accept kind) >>= g) (s.facing (t :: rest)) = g false (s.facing (t :: rest)) :=
  accept_neg (s := s.facing (t :: rest)) h g

lemma require_facing {what : Requirement} {g : Token → Descent δ} (h : t.kind = what.kind) :
    (liftM (Reader.require what) >>= g) (s.facing (t :: rest)) = g t (s.facing rest) :=
  bind_ok (step_ok (Reader.require_run h))

lemma limit_below {count : Nat} {cause : SyntaxError.Cause} {g : Unit → Descent δ}
    (h : count < arityLimit) : (liftM (Reader.limit count cause) >>= g) s = g () s :=
  bind_ok (step_ok (Reader.limit_run h))

end Descent

/-- The kinds of tokens with which an expression of a level can start. -/
def Category.opens (c : Category) : TokenKind → Bool
  | .number | .string | .identifier | .kwNil | .kwTrue | .kwFalse | .kwRead | .kwRand | .kwFloor
  | .kwSubstring | .leftParen => true
  | .minus | .bang => c ≠ .call && c ≠ .primary
  | _ => false

namespace DerivesTerm

lemma opens_operand {k : Level} {kind : TokenKind} (h : k.operand.opens kind) :
    (Category.level k).opens kind := by
  cases k <;> cases kind <;> simp_all [Category.opens, Level.operand, Level.next?]

/-- An expression starts with a token that can start one. -/
lemma opens {c : Category} {ts : List Token} {t : Term} (h : DerivesTerm c ts t) :
    ∃ first us, ts = first :: us ∧ c.opens first.kind := by
  induction h with
  | loosest _ ih =>
    obtain ⟨first, us, rfl, starts⟩ := ih
    refine ⟨first, us, rfl, ?_⟩
    cases hk : first.kind <;> simp_all [Category.opens]
  | assign _ _ _ _ ih _ =>
    obtain ⟨first, us, rfl, starts⟩ := ih
    refine ⟨first, _, rfl, ?_⟩
    cases hk : first.kind <;> simp_all [Category.opens]
  | operand _ ih =>
    obtain ⟨first, us, rfl, starts⟩ := ih
    exact ⟨first, us, rfl, opens_operand starts⟩
  | join _ _ _ ih _ =>
    obtain ⟨first, us, rfl, starts⟩ := ih
    exact ⟨first, _, rfl, starts⟩
  | @unary ts rhs sign op hop _ _ =>
    refine ⟨sign, ts, rfl, ?_⟩
    cases hk : sign.kind <;> simp_all [Category.opens, UnaryOp.ofKind?]
  | called _ ih | primary _ ih =>
    obtain ⟨first, us, rfl, starts⟩ := ih
    refine ⟨first, us, rfl, ?_⟩
    cases hk : first.kind <;> simp_all [Category.opens]
  | call _ _ _ _ _ _ ih _ =>
    obtain ⟨first, us, rfl, starts⟩ := ih
    exact ⟨first, _, rfl, starts⟩
  | @atom t a ha =>
    refine ⟨t, [], rfl, ?_⟩
    cases hk : t.kind <;> simp_all [Category.opens, Token.atom?]
  | read hk | rand hk | floor hk | substring hk | group hk =>
    exact ⟨_, _, rfl, by rw [hk]; rfl⟩

end DerivesTerm

namespace Unbounded

/-- Recursive descent reads what a level derives, if enough depth is left and the tokens that follow
do not go on with it. A loop over operators or lists of arguments may go on, from the term so far.
-/
def Completes : Category → List Token → Term → Prop
  | .assignment, ts, t => ∀ (s : Reading) (rest : List Token) (d : Nat),
    (s.facing rest).Stopped 2 → 16 * (ts ++ rest).length + 16 ≤ d →
    Descent.assignment d (s.facing (ts ++ rest)) = some (.ok t, s.facing rest)
  | .level k, ts, t => ∀ (s : Reading) (rest : List Token) (d : Nat),
    (s.facing rest).Stopped (k.power + 1) → 16 * (ts ++ rest).length + (18 - k.power) ≤ d →
    ∃ e, 16 * rest.length + 1 ≤ e ∧
      Descent.level d k (s.facing (ts ++ rest)) = Descent.levelRest e k t (s.facing rest)
  | .unary, ts, t => ∀ (s : Reading) (rest : List Token) (d : Nat),
    (s.facing rest).Stopped 15 → 16 * (ts ++ rest).length + 3 ≤ d →
    Descent.unary d (s.facing (ts ++ rest)) = some (.ok t, s.facing rest)
  | .call, ts, t => ∀ (s : Reading) (rest : List Token) (d : Nat),
    16 * (ts ++ rest).length + 2 ≤ d → ∃ e, 16 * rest.length + 3 ≤ e ∧
      Descent.call d (s.facing (ts ++ rest)) = Descent.callRest e t (s.facing rest)
  | .primary, ts, t => ∀ (s : Reading) (rest : List Token) (d : Nat),
    16 * (ts ++ rest).length + 1 ≤ d →
    Descent.primary d (s.facing (ts ++ rest)) = some (.ok t, s.facing rest)

lemma levelRest_stops {k : Level} {d : Nat} (ends : (s.facing rest).Stopped k.power)
    (hd : 1 ≤ d) (t : Term) :
    Descent.levelRest d k t (s.facing rest) = some (.ok t, s.facing rest) := by
  obtain ⟨d, rfl, -⟩ := exists_succ (k := 0) hd
  refine Descent.levelRest_none ?_ t d
  cases hop : k.operator? (s.facing rest).current.kind with
  | none => rfl
  | some op =>
    have announced := operator_announced hop
    exact absurd (ends _ announced.1) (by omega)

lemma callRest_stops {d : Nat} (ends : (s.facing rest).Stopped 15) (hd : 1 ≤ d) (t : Term) :
    Descent.callRest d t (s.facing rest) = some (.ok t, s.facing rest) := by
  obtain ⟨d, rfl, -⟩ := exists_succ (k := 0) hd
  have seen : (s.facing rest).current.kind ≠ .leftParen := by
    intro hk
    exact absurd (ends .call (by rw [hk]; rfl)) (by decide)
  rw [Descent.callRest, Descent.accept_neg seen]
  rfl

/-- An operand of a level is read to its end, where an operator of the level may follow. -/
lemma tighter_completes {k : Level} {ts : List Token} {t : Term} (h : Completes k.operand ts t)
    {d : Nat} (ends : (s.facing rest).Stopped (k.power + 1))
    (hd : 16 * (ts ++ rest).length + (17 - k.power) ≤ d) :
    Descent.tighter d k (s.facing (ts ++ rest)) = some (.ok t, s.facing rest) := by
  have hp : k.power ≤ 13 := by cases k <;> decide
  obtain ⟨d, rfl, deep⟩ :=
    exists_succ (k := 16 * (ts ++ rest).length + (16 - k.power)) (d := d) (by omega)
  rw [Descent.tighter]
  cases hk : k.next? with
  | some next =>
    have power : next.power = k.power + 2 := by cases k <;> cases hk <;> rfl
    simp only [Level.operand, hk, Completes] at h
    obtain ⟨e, he, run⟩ := h s rest d (ends.mono (by omega)) (by omega)
    exact run.trans (levelRest_stops (ends.mono (by omega)) (by omega) t)
  | none =>
    have power : k.power = 13 := by cases k <;> first | rfl | cases hk
    simp only [Level.operand, hk, Completes] at h
    exact h s rest d (ends.mono (by omega)) (by omega)

/-- A token stops a reader of operations if what it announces holds less tightly. -/
lemma stopped_cons {t : Token} {power : Nat}
    (h : ∀ c, Continuation.ofKind? t.kind = some c → c.leftPower < power) :
    (s.facing (t :: rest)).Stopped power :=
  h

lemma join_completes {k : Level} {ts us : List Token} {lhs rhs : Term} {sign : Token} {op : Infix}
    (hl : Completes (.level k) ts lhs) (hop : k.operator? sign.kind = some op)
    (hr : Completes k.operand us rhs) :
    Completes (.level k) (ts ++ sign :: us) (op.join lhs rhs sign.line) := by
  intro s rest d ends hd
  have hp : 3 ≤ k.power := by cases k <;> decide
  have announced := operator_announced hop
  have stops : (s.facing (sign :: (us ++ rest))).Stopped (k.power + 1) := by
    refine stopped_cons fun c hc => ?_
    rw [announced.1] at hc
    cases hc
    omega
  simp only [List.append_assoc, List.cons_append, List.length_append, List.length_cons] at hd ⊢
  obtain ⟨e, he, run⟩ := hl s (sign :: (us ++ rest)) d stops (by simpa using hd)
  simp only [List.length_append, List.length_cons] at he
  obtain ⟨e, rfl, deep⟩ := exists_succ he
  refine ⟨e, by omega, run.trans ?_⟩
  rw [Descent.levelRest_some hop, facing_pass (Level.operator_ne_eof hop),
    Descent.bind_ok (tighter_completes hr ends (by simp only [List.length_append]; omega))]
  rfl

/-- Nothing that an expression can be followed by goes on with an assignment. -/
lemma loosest_completes {ts : List Token} {t : Term} (h : Completes (.level .or) ts t) :
    Completes .assignment ts t := by
  intro s rest d ends hd
  obtain ⟨d, rfl, deep⟩ := exists_succ hd
  have ends' : (s.facing rest).Stopped Level.or.power := ends.mono (by decide)
  obtain ⟨e, he, run⟩ := h s rest d (ends'.mono (by decide)) deep
  have seen : (s.facing rest).current.kind ≠ .equal := by
    intro hk
    exact absurd (ends .assign (by rw [hk]; rfl)) (by decide)
  rw [Descent.assignment, Descent.bind_ok (run.trans (levelRest_stops ends' (by omega) t)),
    Descent.bind_current, Descent.accept_neg seen]
  rfl

lemma assign_completes {ts us : List Token} {target value : Term} {name : Ident} {equals : Token}
    (ht : Completes (.level .or) ts target) (named : target.target? = some name)
    (hk : equals.kind = .equal) (hv : Completes .assignment us value) :
    Completes .assignment (ts ++ equals :: us) (.assign name value) := by
  intro s rest d ends hd
  obtain ⟨d, rfl, deep⟩ := exists_succ hd
  have stops : (s.facing (equals :: (us ++ rest))).Stopped Level.or.power := by
    refine stopped_cons fun c hc => ?_
    rw [hk] at hc
    cases hc
    decide
  simp only [List.append_assoc, List.cons_append, List.length_append, List.length_cons] at deep ⊢
  obtain ⟨e, he, run⟩ := ht s (equals :: (us ++ rest)) d (stops.mono (by decide))
    (by simpa [Level.power] using deep)
  have value := hv s rest d ends (by simp only [List.length_append]; omega)
  rw [Descent.assignment, Descent.bind_ok (run.trans (levelRest_stops stops (by omega) target)),
    Descent.bind_current, Descent.accept_facing hk (by decide)]
  simp only [if_true]
  rw [Descent.bind_ok value]
  simp only [named]
  rfl

lemma unary_completes {ts : List Token} {rhs : Term} {sign : Token} {op : UnaryOp}
    (hop : UnaryOp.ofKind? sign.kind = some op) (h : Completes .unary ts rhs) :
    Completes .unary (sign :: ts) (.unary op rhs sign.line) := by
  intro s rest d ends hd
  obtain ⟨d, rfl, deep⟩ := exists_succ hd
  simp only [List.cons_append, List.length_cons] at deep ⊢
  have operand := h s rest d ends (by omega)
  rw [Descent.unary, Descent.current_facing]
  cases hk : sign.kind <;> rw [hk] at hop <;> cases hop
  all_goals
    simp only
    rw [Descent.advance_facing (by simp [hk]), Descent.bind_ok operand]
    rfl

lemma called_completes {ts : List Token} {t : Term} (derived : DerivesTerm .call ts t)
    (h : Completes .call ts t) : Completes .unary ts t := by
  intro s rest d ends hd
  obtain ⟨d, rfl, deep⟩ := exists_succ hd
  obtain ⟨e, he, run⟩ := h s rest d deep
  obtain ⟨first, us, rfl, starts⟩ := derived.opens
  have minus : first.kind ≠ .minus := by
    intro hk
    rw [hk] at starts
    cases starts
  have bang : first.kind ≠ .bang := by
    intro hk
    rw [hk] at starts
    cases starts
  rw [Descent.unary_eq_call (by exact minus) (by exact bang)]
  exact run.trans (callRest_stops ends (by omega) t)

lemma callee_completes {ts : List Token} {t : Term} (derived : DerivesTerm .primary ts t)
    (h : Completes .primary ts t) : Completes .call ts t := by
  intro s rest d hd
  obtain ⟨d, rfl, deep⟩ := exists_succ hd
  have operand := h s rest d deep
  obtain ⟨first, us, rfl, -⟩ := derived.opens
  refine ⟨d, ?_, ?_⟩
  · simp only [List.cons_append, List.length_cons, List.length_append] at deep
    omega
  · rw [Descent.call, Descent.bind_ok operand]

/-- A comma and a closing parenthesis end an argument. -/
lemma stopped_of_none {t : Token} {power : Nat} (h : Continuation.ofKind? t.kind = none) :
    (s.facing (t :: rest)).Stopped power :=
  stopped_cons fun c hc => by rw [h] at hc; cases hc

lemma arguments_completes {parts : List (List Token × Term)} {ts : List Token} {closing : Token}
    (separated : Separated (parts.map Prod.fst) ts)
    (h : ∀ part ∈ parts, Completes .assignment part.1 part.2) (hne : parts ≠ [])
    (hk : closing.kind = .rightParen) (count : Nat) {d : Nat}
    (few : count + parts.length ≤ arityLimit)
    (hd : 16 * (ts ++ closing :: rest).length + 17 ≤ d) :
    Descent.arguments d count (s.facing (ts ++ closing :: rest)) =
      some (.ok (parts.map Prod.snd), s.facing (closing :: rest)) := by
  induction parts generalizing ts count d with
  | nil => exact absurd rfl hne
  | cons part parts ih =>
    obtain ⟨d, rfl, deep⟩ := exists_succ hd
    obtain ⟨us, t⟩ := part
    have first : Completes .assignment us t := h _ List.mem_cons_self
    have below : count < arityLimit := by
      simp only [List.length_cons] at few
      omega
    rw [Descent.arguments, Descent.limit_below below]
    cases parts with
    | nil =>
      cases separated
      have read := first s (closing :: rest) d (stopped_of_none (by rw [hk]; rfl)) deep
      rw [Descent.bind_ok read, Descent.accept_other (by simp [hk])]
      rfl
    | cons next parts =>
      obtain ⟨vs, comma, hcomma, others, rfl⟩ : ∃ vs comma, comma.kind = .comma ∧
          Separated (List.map Prod.fst (next :: parts)) vs ∧ ts = us ++ comma :: vs := by
        cases separated with
        | more hcomma others => exact ⟨_, _, hcomma, others, rfl⟩
      simp only [List.append_assoc, List.cons_append, List.length_append, List.length_cons]
        at deep few ⊢
      have read := first s (comma :: (vs ++ closing :: rest)) d
        (stopped_of_none (by rw [hcomma]; rfl))
        (by simp only [List.length_append, List.length_cons]; omega)
      have more := ih others (fun part hp => h part (List.mem_cons_of_mem _ hp)) (by simp)
        (count + 1) (d := d) (by simp only [List.length_cons]; omega)
        (by simp only [List.length_append, List.length_cons]; omega)
      rw [Descent.bind_ok read, Descent.accept_facing hcomma (by decide)]
      simp only [if_true]
      rw [Descent.bind_ok more]
      rfl

lemma argumentList_completes (rest : List Token) {parts : List (List Token × Term)}
    {ts : List Token} {closing : Token} (separated : Separated (parts.map Prod.fst) ts)
    (derived : ∀ part ∈ parts, DerivesTerm .assignment part.1 part.2)
    (h : ∀ part ∈ parts, Completes .assignment part.1 part.2)
    (hk : closing.kind = .rightParen) {d : Nat} (few : parts.length ≤ arityLimit)
    (hd : 16 * (ts ++ closing :: rest).length + 18 ≤ d) :
    Descent.argumentList d (s.facing (ts ++ closing :: rest)) =
      some (.ok (parts.map Prod.snd), s.facing (closing :: rest)) := by
  obtain ⟨d, rfl, deep⟩ := exists_succ hd
  rw [Descent.argumentList, Descent.bind_sees]
  cases parts with
  | nil =>
    cases separated
    have seen : (s.facing ([] ++ closing :: rest)).current.kind = .rightParen := hk
    simp only [seen, beq_self_eq_true, if_true]
    rfl
  | cons part parts =>
    obtain ⟨first, us, hfirst, starts⟩ := (derived part List.mem_cons_self).opens
    obtain ⟨vs, rfl⟩ : ∃ vs, ts = first :: vs := by
      cases parts <;> cases separated
      · exact ⟨us, hfirst⟩
      · exact ⟨_, by rw [hfirst]; rfl⟩
    have seen : (s.facing (first :: vs ++ closing :: rest)).current.kind ≠ .rightParen := by
      change first.kind ≠ .rightParen
      intro hk
      rw [hk] at starts
      cases starts
    simp only [beq_eq_false_iff_ne.mpr seen]
    exact arguments_completes separated h (List.cons_ne_nil _ _) hk 0 (by omega) deep

lemma call_completes {ts us : List Token} {callee : Term} {parts : List (List Token × Term)}
    {opening closing : Token} (hc : Completes .call ts callee) (ho : opening.kind = .leftParen)
    (derived : ∀ part ∈ parts, DerivesTerm .assignment part.1 part.2)
    (h : ∀ part ∈ parts, Completes .assignment part.1 part.2)
    (separated : Separated (parts.map Prod.fst) us) (few : parts.length ≤ arityLimit)
    (hk : closing.kind = .rightParen) :
    Completes .call (ts ++ opening :: (us ++ [closing]))
      (.call callee (parts.map Prod.snd) closing.line) := by
  intro s rest d hd
  simp only [List.append_assoc, List.cons_append, List.nil_append, List.length_append,
    List.length_cons] at hd ⊢
  obtain ⟨e, he, run⟩ := hc s (opening :: (us ++ closing :: rest)) d
    (by simp only [List.length_append, List.length_cons]; omega)
  simp only [List.length_append, List.length_cons] at he
  obtain ⟨e, rfl, deep⟩ := exists_succ he
  have list := argumentList_completes rest (s := s) separated derived h hk few (d := e)
    (by simp only [List.length_append, List.length_cons]; omega)
  refine ⟨e, by omega, run.trans ?_⟩
  rw [Descent.callRest, Descent.accept_facing ho (by decide)]
  simp only [if_true]
  rw [Descent.bind_ok list, Descent.require_facing hk]

lemma floor_completes {ts : List Token} {argument : Term} {keyword opening closing : Token}
    (hk : keyword.kind = .kwFloor) (ho : opening.kind = .leftParen)
    (h : Completes .assignment ts argument) (hc : closing.kind = .rightParen) :
    Completes .primary (keyword :: opening :: (ts ++ [closing]))
      (.floor argument keyword.line) := by
  intro s rest d hd
  obtain ⟨d, rfl, deep⟩ := exists_succ hd
  simp only [List.cons_append, List.append_assoc, List.nil_append, List.length_append,
    List.length_cons] at deep ⊢
  have read := h s (closing :: rest) d (stopped_of_none (by rw [hc]; rfl))
    (by simp only [List.length_append, List.length_cons]; omega)
  rw [Descent.primary, Descent.current_facing]
  simp only [hk]
  rw [Descent.advance_facing (by simp [hk]), Descent.require_facing ho, Descent.bind_ok read,
    Descent.require_facing hc]
  rfl

lemma substring_completes {ts us vs : List Token} {subject start stop : Term}
    {keyword opening comma comma' closing : Token} (hk : keyword.kind = .kwSubstring)
    (ho : opening.kind = .leftParen) (h : Completes .assignment ts subject)
    (hcomma : comma.kind = .comma) (h' : Completes .assignment us start)
    (hcomma' : comma'.kind = .comma) (h'' : Completes .assignment vs stop)
    (hc : closing.kind = .rightParen) :
    Completes .primary
      (keyword :: opening :: (ts ++ comma :: (us ++ comma' :: (vs ++ [closing]))))
      (.substring subject start stop keyword.line) := by
  intro s rest d hd
  obtain ⟨d, rfl, deep⟩ := exists_succ hd
  simp only [List.cons_append, List.append_assoc, List.nil_append, List.length_append,
    List.length_cons] at deep ⊢
  have read := h s (comma :: (us ++ comma' :: (vs ++ closing :: rest))) d
    (stopped_of_none (by rw [hcomma]; rfl))
    (by simp only [List.length_append, List.length_cons]; omega)
  have read' := h' s (comma' :: (vs ++ closing :: rest)) d
    (stopped_of_none (by rw [hcomma']; rfl))
    (by simp only [List.length_append, List.length_cons]; omega)
  have read'' := h'' s (closing :: rest) d (stopped_of_none (by rw [hc]; rfl))
    (by simp only [List.length_append, List.length_cons]; omega)
  rw [Descent.primary, Descent.current_facing]
  simp only [hk]
  rw [Descent.advance_facing (by simp [hk]), Descent.require_facing ho, Descent.bind_ok read,
    Descent.require_facing hcomma, Descent.bind_ok read', Descent.require_facing hcomma',
    Descent.bind_ok read'', Descent.require_facing hc]
  rfl

lemma group_completes {ts : List Token} {inner : Term} {opening closing : Token}
    (ho : opening.kind = .leftParen) (h : Completes .assignment ts inner)
    (hc : closing.kind = .rightParen) :
    Completes .primary (opening :: (ts ++ [closing])) (.group inner) := by
  intro s rest d hd
  obtain ⟨d, rfl, deep⟩ := exists_succ hd
  simp only [List.cons_append, List.append_assoc, List.nil_append, List.length_append,
    List.length_cons] at deep ⊢
  have read := h s (closing :: rest) d (stopped_of_none (by rw [hc]; rfl))
    (by simp only [List.length_append, List.length_cons]; omega)
  rw [Descent.primary, Descent.current_facing]
  simp only [ho]
  rw [Descent.advance_facing (by simp [ho]), Descent.bind_ok read, Descent.require_facing hc]
  rfl

lemma atom_completes {t : Token} {a : Atom} (h : t.atom? = some a) :
    Completes .primary [t] (.atom a t.line) := by
  intro s rest d hd
  obtain ⟨d, rfl, deep⟩ := exists_succ hd
  change Descent.primary (d + 1) (s.facing (t :: rest)) = _
  rw [Descent.primary, Descent.current_facing]
  unfold Token.atom? at h
  split at h
  case h_1 hk hl | h_2 hk hl =>
    cases h
    simp only [hk, hl]
    rw [Descent.advance_facing (by simp [hk])]
    rfl
  case h_7 => cases h
  all_goals
    next hk =>
    cases h
    simp only [hk]
    rw [Descent.advance_facing (by simp [hk])]
    rfl

lemma keyword_completes {t : Token} {term : Term}
    (h : t.kind = .kwRead ∧ term = .read t.line ∨ t.kind = .kwRand ∧ term = .rand t.line) :
    Completes .primary [t] term := by
  intro s rest d hd
  obtain ⟨d, rfl, deep⟩ := exists_succ hd
  change Descent.primary (d + 1) (s.facing (t :: rest)) = _
  rw [Descent.primary, Descent.current_facing]
  rcases h with ⟨hk, rfl⟩ | ⟨hk, rfl⟩
  all_goals
    simp only [hk]
    rw [Descent.advance_facing (by simp [hk])]
    rfl

lemma completes {c : Category} {ts : List Token} {t : Term} (h : DerivesTerm c ts t) :
    Completes c ts t := by
  induction h with
  | loosest _ ih => exact loosest_completes ih
  | assign _ named hk _ ih ih' => exact assign_completes ih named hk ih'
  | @operand k ts t _ ih =>
    intro s rest d ends hd
    have hp : 3 ≤ k.power ∧ k.power ≤ 13 := by cases k <;> decide
    obtain ⟨d, rfl, deep⟩ :=
      exists_succ (k := 16 * (ts ++ rest).length + (17 - k.power)) (d := d) (by omega)
    refine ⟨d, ?_, ?_⟩
    · simp only [List.length_append] at deep
      omega
    · rw [Descent.level, Descent.bind_ok (tighter_completes ih ends deep)]
  | join _ hop _ ih ih' => exact join_completes ih hop ih'
  | unary hop _ ih => exact unary_completes hop ih
  | called derived ih => exact called_completes derived ih
  | call _ ho derived separated few hk ih ih' =>
    exact call_completes ih ho derived ih' separated few hk
  | primary derived ih => exact callee_completes derived ih
  | atom h => exact atom_completes h
  | read hk => exact keyword_completes (.inl ⟨hk, rfl⟩)
  | rand hk => exact keyword_completes (.inr ⟨hk, rfl⟩)
  | floor hk ho _ hc ih => exact floor_completes hk ho ih hc
  | substring hk ho _ hcomma _ hcomma' _ hc ih ih' ih'' =>
    exact substring_completes hk ho ih hcomma ih' hcomma' ih'' hc
  | group ho _ hc ih => exact group_completes ho ih hc

end Unbounded

end Lox
