import Lox.Proofs.Reading.Progress

/-!
Each rule of the grammar passes at least one token where it succeeds, and depends on the readers it
is given only where they are used: inside the rule, with fewer tokens left.
-/

namespace Lox

open Reading

namespace Reader

variable {α β : Type} {s : Reading} {i j k m n : Nat}

lemma pure_alike (a : α) : Alike n 0 (pure a) (pure a) := fun s _ =>
  ⟨rfl, .of_ok rfl (.refl s) (Nat.le_refl _)⟩

lemma fail_alike (cause : TokenKind → SyntaxError.Cause) :
    Alike n k (fail (α := α) cause) (fail cause) := fun s _ =>
  ⟨rfl, .of_error rfl (.refl s)⟩

lemma current_alike : Alike n 0 current current := fun s _ =>
  ⟨rfl, .of_ok rfl (.refl s) (Nat.le_refl _)⟩

lemma current_alikeAt {f g : Token → Reader β} (h : AlikeAt s k (f s.current) (g s.current)) :
    AlikeAt s k (current >>= f) (current >>= g) :=
  h

lemma sees_alikeAt {kind : TokenKind} {f g : Bool → Reader β}
    (h : AlikeAt s k (f (s.current.kind == kind)) (g (s.current.kind == kind))) :
    AlikeAt s k (sees kind >>= f) (sees kind >>= g) :=
  h

lemma get_alike : Alike n 0 (get : Reader Reading) get := fun s _ =>
  ⟨rfl, .of_ok rfl (.refl s) (Nat.le_refl _)⟩

lemma sees_alike (kind : TokenKind) : Alike n 0 (sees kind) (sees kind) := fun s _ =>
  ⟨rfl, .of_ok rfl (.refl s) (Nat.le_refl _)⟩

lemma record_alike (e : SyntaxError) : Alike n 0 (record e) (record e) := fun s _ =>
  ⟨rfl, .of_ok rfl (.note s e) (Nat.le_refl _)⟩

lemma push_alike (node : Node) : Alike n 0 (push node) (push node) := fun s _ =>
  ⟨rfl, .of_ok rfl (.add s node) (Nat.le_refl _)⟩

lemma bind_current (f : Token → Reader β) : (current >>= f) s = f s.current s :=
  rfl

lemma bind_sees (kind : TokenKind) (f : Bool → Reader β) :
    (sees kind >>= f) s = f (s.current.kind == kind) s :=
  rfl

lemma accept_eq (kind : TokenKind) (s : Reading) :
    accept kind s = if s.current.kind = kind then .ok true s.pass else .ok false s := by
  rw [accept, bind_sees]
  by_cases h : s.current.kind = kind
  · simp only [h, beq_self_eq_true, if_true]
    rfl
  · simp only [h, beq_eq_false_iff_ne.mpr h, if_false]
    rfl

lemma accept_bind_eq (kind : TokenKind) (f : Bool → Reader β) (s : Reading) :
    (accept kind >>= f) s = if s.current.kind = kind then f true s.pass else f false s := by
  have run := accept_eq kind s
  split_ifs at run ⊢ <;> exact bind_ok run

lemma require_eq (what : Requirement) (s : Reading) :
    require what s = if s.current.kind = what.kind then .ok s.current s.pass
      else .error (SyntaxError.atToken s.current (.missing what s.current.kind)) s := by
  rw [require, bind_sees]
  by_cases h : s.current.kind = what.kind
  · simp only [h, beq_self_eq_true, if_true]
    rfl
  · simp only [h, beq_eq_false_iff_ne.mpr h, if_false]
    rfl

lemma limit_eq (count : Nat) (cause : SyntaxError.Cause) (s : Reading) :
    limit count cause s = if arityLimit ≤ count then
      .ok () (s.note (SyntaxError.atToken s.current cause)) else .ok () s := by
  by_cases h : arityLimit ≤ count
  · simp only [limit, h, if_true]
    rfl
  · simp only [limit, h, if_false]
    rfl

lemma unlessAt_eq (kind : TokenKind) (otherwise : α) (x : Reader α) (s : Reading) :
    unlessAt kind otherwise x s =
      if s.current.kind = kind then .ok otherwise s else x s := by
  rw [unlessAt, bind_sees]
  by_cases h : s.current.kind = kind
  · simp only [h, beq_self_eq_true, if_true]
    rfl
  · simp only [h, beq_eq_false_iff_ne.mpr h, if_false, Bool.false_eq_true]

lemma insideFunction_ok {x : Reader α} {a : α} {t : Reading} (h : x s.deeper = .ok a t) :
    insideFunction x s = .ok a t.shallower := by
  simp only [insideFunction, h]

lemma insideFunction_error {x : Reader α} {e : SyntaxError} {t : Reading}
    (h : x s.deeper = .error e t) : insideFunction x s = .error e t.shallower := by
  simp only [insideFunction, h]

lemma recovering_ok {x : Reader α} {a : α} {t : Reading} (h : x s = .ok a t) :
    recovering x s = .ok (some a) t := by
  simp only [recovering, h]

lemma recovering_error {x : Reader α} {e : SyntaxError} {t : Reading} (h : x s = .error e t) :
    recovering x s = .ok none (t.note e).resumed := by
  simp only [recovering, h]

lemma recovering_goes {x : Reader α} (h : Goes 0 x s) : Goes 0 (recovering x) s := by
  cases run : x s with
  | ok a t => exact .of_ok (recovering_ok run) (h.onward run) (h.ok run).2
  | error e t =>
    have onward := ((h.error run).trans (.note t e)).trans (.resumed _)
    exact .of_ok (recovering_error run) onward onward.left_le

lemma accept_alike (kind : TokenKind) : Alike n 0 (accept kind) (accept kind) := by
  intro s _
  refine ⟨rfl, ?_⟩
  have h := accept_eq kind s
  split at h
  · exact .of_ok h (.pass s) (Onward.pass s).left_le
  · exact .of_ok h (.refl s) (Nat.le_refl _)

lemma requirement_kind_ne_eof (what : Requirement) : what.kind ≠ .eof := by
  cases what <;> decide

lemma require_alike (what : Requirement) : Alike n 1 (require what) (require what) := by
  intro s _
  refine ⟨rfl, ?_⟩
  have h := require_eq what s
  split at h
  · next seen =>
    have hne : s.current.kind ≠ .eof := seen ▸ requirement_kind_ne_eof what
    exact .of_ok h (.pass s) (Nat.le_of_eq (pass_left hne))
  · exact .of_error h (.refl s)

lemma limit_alike (count : Nat) (cause : SyntaxError.Cause) :
    Alike n 0 (limit count cause) (limit count cause) :=
  Alike.ite (current_alike.bind fun _ => record_alike _) (pure_alike _)

lemma unlessAt_alike (kind : TokenKind) (otherwise : α) {x y : Reader α} (h : Alike n 0 x y) :
    Alike n 0 (unlessAt kind otherwise x) (unlessAt kind otherwise y) :=
  (sees_alike kind).bind fun _ => Alike.ite (pure_alike _) h

lemma ifAt_alike (kind : TokenKind) {x y : Reader α} (h : Alike n 0 x y) :
    Alike n 0 (ifAt kind x) (ifAt kind y) :=
  (accept_alike kind).bind fun _ => Alike.ite (h.map some) (pure_alike _)

/-- Passing a token that is not the end leaves fewer tokens to what follows. -/
lemma advance_alikeAt {f g : Token → Reader β} (h : s.current.kind ≠ .eof) (hs : s.left < n + 1)
    (hf : ∀ a, Alike n k (f a) (g a)) : AlikeAt s 1 (advance >>= f) (advance >>= g) := by
  have hl := pass_left h
  have passed : AlikeAt s 1 advance advance :=
    ⟨rfl, .of_ok rfl (.pass s) (Nat.le_of_eq hl)⟩
  exact passed.bind (fun a t ht => hf a t (by omega)) (by omega)

/-- After a token of a kind has been accepted, fewer tokens are left. -/
lemma accept_alikeAt {kind : TokenKind} {f g : Bool → Reader β} (h : kind ≠ .eof)
    (hs : s.left < n + 1) (yes : Alike n k (f true) (g true))
    (no : AlikeAt s 1 (f false) (g false)) :
    AlikeAt s 1 (accept kind >>= f) (accept kind >>= g) := by
  have runs (f : Bool → Reader β) := accept_bind_eq kind f s
  by_cases seen : s.current.kind = kind
  · simp only [if_pos seen] at runs
    have hl := pass_left (seen ▸ h)
    obtain ⟨same, goes⟩ := yes s.pass (by omega)
    refine ⟨by rw [runs, runs, same], ?_⟩
    cases hg : g true s.pass with
    | ok b t =>
      obtain ⟨onward, passed⟩ := goes.ok hg
      exact .of_ok ((runs g).trans hg) ((Onward.pass s).trans onward) (by omega)
    | error e t => exact .of_error ((runs g).trans hg) ((Onward.pass s).trans (goes.error hg))
  · simp only [if_neg seen] at runs
    obtain ⟨same, goes⟩ := no
    refine ⟨by rw [runs, runs, same], ?_⟩
    cases hg : g false s with
    | ok b t => exact .of_ok ((runs g).trans hg) (goes.ok hg).1 (goes.ok hg).2
    | error e t => exact .of_error ((runs g).trans hg) (goes.error hg)

lemma insideFunction_alike {x y : Reader α} (h : Alike n k x y) :
    Alike n k (insideFunction x) (insideFunction y) := by
  intro s hs
  obtain ⟨same, goes⟩ := h s.deeper hs
  refine ⟨by simp only [insideFunction, same], ?_⟩
  cases hy : y s.deeper with
  | ok a t =>
    exact .of_ok (insideFunction_ok hy) (goes.ok hy).1.shallower (goes.ok hy).2
  | error e t =>
    exact .of_error (insideFunction_error hy) (goes.error hy).shallower

/-- Before the end, a token is passed even by a failure and what recovers from it. -/
lemma recovering_alikeAt {x y : Reader α} (hne : s.current.kind ≠ .eof) (h : AlikeAt s 1 x y) :
    AlikeAt s 1 (recovering x) (recovering y) := by
  obtain ⟨same, goes⟩ := h
  refine ⟨by simp only [recovering, same], ?_⟩
  cases hy : y s with
  | ok a t =>
    exact .of_ok (recovering_ok hy) (goes.ok hy).1 (goes.ok hy).2
  | error e t =>
    have onward := (goes.error hy).trans (.note t e)
    exact .of_ok (recovering_error hy) (onward.trans (.resumed _)) (recovered_left_lt hne onward)

end Reader

namespace Grammar

open Reader

section Expressions

variable {operation operation' : Nat → Reader NodeRef} {n : Nat}

lemma floorOf_alike (h : ∀ power, Alike n 1 (operation power) (operation' power)) (line : Nat) :
    Alike n 1 (floorOf operation line) (floorOf operation' line) :=
  ((require_alike _).bind fun _ => (h 0).bind fun _ => (require_alike _).bind fun _ =>
    push_alike _).least (by omega)

lemma substringOf_alike (h : ∀ power, Alike n 1 (operation power) (operation' power))
    (line : Nat) : Alike n 1 (substringOf operation line) (substringOf operation' line) :=
  ((require_alike _).bind fun _ => (h 0).bind fun _ =>
    (require_alike _).bind fun _ => (h 0).bind fun _ =>
    (require_alike _).bind fun _ => (h 0).bind fun _ =>
    (require_alike _).bind fun _ => push_alike _).least (by omega)

lemma unaryOf_alike (h : ∀ power, Alike n 1 (operation power) (operation' power)) (op : UnaryOp)
    (line : Nat) : Alike n 1 (unaryOf operation op line) (unaryOf operation' op line) :=
  (h _).bind fun _ => push_alike _

lemma groupOf_alike (h : ∀ power, Alike n 1 (operation power) (operation' power)) :
    Alike n 1 (groupOf operation) (groupOf operation') :=
  ((h 0).bind fun _ => (require_alike _).bind fun _ => push_alike _).least (by omega)

/-- An operand uses the operations it is given only after a token. -/
lemma operandOf_alike (h : ∀ power, Alike n 1 (operation power) (operation' power)) :
    Alike (n + 1) 1 (operandOf operation) (operandOf operation') := by
  intro s hs
  refine current_alikeAt ?_
  split
  case h_9 hk => exact advance_alikeAt (by simp [hk]) hs fun _ => floorOf_alike h _
  case h_10 hk => exact advance_alikeAt (by simp [hk]) hs fun _ => substringOf_alike h _
  case h_11 hk => exact advance_alikeAt (by simp [hk]) hs fun _ => unaryOf_alike h _ _
  case h_12 hk => exact advance_alikeAt (by simp [hk]) hs fun _ => unaryOf_alike h _ _
  case h_13 hk => exact advance_alikeAt (by simp [hk]) hs fun _ => groupOf_alike h
  case h_14 => exact fail_alike _ s hs
  case h_1 hk _ => exact advance_alikeAt (by simp [hk]) hs fun _ => push_alike _
  case h_2 hk _ => exact advance_alikeAt (by simp [hk]) hs fun _ => push_alike _
  all_goals next hk => exact advance_alikeAt (by simp [hk]) hs fun _ => push_alike _

variable {arguments arguments' : Reader (List NodeRef)}

lemma continuedOf_alike (h : ∀ power, Alike n 1 (operation power) (operation' power))
    (ha : Alike n 1 arguments arguments') (next : Continuation) (t : Token) (lhs : NodeRef) :
    Alike n 1 (continuedOf operation arguments next t lhs)
      (continuedOf operation' arguments' next t lhs) := by
  unfold continuedOf
  split
  · exact ((unlessAt_alike _ _ ha.least_zero).bind fun _ => (require_alike _).bind fun _ =>
      push_alike _).least (by omega)
  · exact (h _).bind fun _ => push_alike _
  · exact (h _).bind fun _ => push_alike _
  · refine ((h _).bind (k := 0 + 0) fun rhs => get_alike.bind fun s => ?_).least (by omega)
    split
    · exact push_alike _
    · exact (record_alike _).bind fun _ => pure_alike _

lemma ofKind?_eof : Continuation.ofKind? .eof = none :=
  rfl

lemma continuationsOf_alike {again again' : NodeRef → Reader NodeRef}
    (h : ∀ power, Alike n 1 (operation power) (operation' power))
    (ha : Alike n 1 arguments arguments') (hg : ∀ lhs, Alike n 0 (again lhs) (again' lhs))
    (power : Nat) (lhs : NodeRef) :
    Alike (n + 1) 0 (continuationsOf operation arguments again power lhs)
      (continuationsOf operation' arguments' again' power lhs) := by
  intro s hs
  refine current_alikeAt ?_
  split
  · exact pure_alike _ s hs
  · next next found =>
    split
    · exact pure_alike _ s hs
    · have hne : s.current.kind ≠ .eof := by
        intro he
        rw [he, ofKind?_eof] at found
        cases found
      refine (advance_alikeAt (k := 1 + 0) hne hs fun _ => ?_).least (by omega)
      exact (continuedOf_alike h ha next _ lhs).bind hg

lemma argumentsOf_alike {others others' : Reader (List NodeRef)}
    (h : ∀ power, Alike (n + 1) 1 (operation power) (operation' power))
    (ho : Alike n 0 others others') (count : Nat) :
    Alike (n + 1) 1 (argumentsOf operation others count)
      (argumentsOf operation' others' count) := by
  refine Alike.least (k := 0 + (1 + 0)) ?_ (by omega)
  refine (limit_alike _ _).bind fun _ => (h 0).bind_shorter fun argument => ?_
  refine (accept_alike _).bind (k := 0) fun more => ?_
  exact Alike.ite (ho.bind fun _ => pure_alike _) (pure_alike _)

lemma expressionOf_alike (h : ∀ power, Alike n 1 (operation power) (operation' power)) :
    Alike n 1 (expressionOf operation) (expressionOf operation') := by
  have clear : Alike n 0 (modify Reading.bare : Reader Unit) (modify Reading.bare) := fun s _ =>
    ⟨rfl, .of_ok rfl (.bare s) (Nat.le_refl _)⟩
  have finish (root : NodeRef) : Alike n 0
      (modifyGet fun s => (⟨s.nodes, root⟩, s.bare) : Reader Expression)
      (modifyGet fun s => (⟨s.nodes, root⟩, s.bare)) := fun s _ =>
    ⟨rfl, .of_ok rfl (.bare s) (Nat.le_refl _)⟩
  exact (clear.bind fun _ => (h 0).bind finish).least (by omega)

end Expressions

section Statements

variable {expression expression' : Reader Expression} {statement statement' : Reader Statement}
  {block block' others others' : Reader (List Statement)}
  {parameters parameters' : Reader (List Ident)} {n : Nat}

lemma expressionStatement_alike (h : Alike n 1 expression expression') :
    Alike n 1 (expressionStatement expression) (expressionStatement expression') :=
  (h.bind fun _ => (require_alike _).bind fun _ => pure_alike _).least (by omega)

lemma printStatement_alike (h : Alike n 1 expression expression') :
    Alike n 1 (printStatement expression) (printStatement expression') :=
  (h.bind fun _ => (require_alike _).bind fun _ => pure_alike _).least (by omega)

lemma variableDeclaration_alike (h : Alike n 1 expression expression') :
    Alike n 1 (variableDeclaration expression) (variableDeclaration expression') :=
  ((require_alike _).bind fun _ => (ifAt_alike _ h.least_zero).bind fun _ =>
    (require_alike _).bind fun _ => pure_alike _).least (by omega)

lemma checkInside_alike (keyword : Token) :
    Alike n 0 (checkInside keyword) (checkInside keyword) :=
  get_alike.bind fun _ => Alike.ite (record_alike _) (pure_alike _)

lemma returnStatement_alike (h : Alike n 1 expression expression') (keyword : Token) :
    Alike n 1 (returnStatement expression keyword) (returnStatement expression' keyword) :=
  ((checkInside_alike _).bind fun _ => (unlessAt_alike _ _ (h.map some).least_zero).bind fun _ =>
    (require_alike _).bind fun _ => pure_alike _).least (by omega)

lemma condition_alike (h : Alike n 1 expression expression') (opening closing : Requirement) :
    Alike n 1 (condition expression opening closing) (condition expression' opening closing) :=
  ((require_alike _).bind fun _ => h.bind fun _ => (require_alike _).bind fun _ =>
    pure_alike _).least (by omega)

lemma forInitializer_alike (h : Alike n 1 expression expression') :
    Alike n 0 (forInitializer expression) (forInitializer expression') :=
  (accept_alike _).bind fun _ => Alike.ite (pure_alike _) <|
    (accept_alike _).bind fun _ => Alike.ite
      ((variableDeclaration_alike h).map some).least_zero
      ((expressionStatement_alike h).map some).least_zero

lemma forClauses_alike (h : Alike n 1 expression expression') :
    Alike n 1 (forClauses expression) (forClauses expression') :=
  ((require_alike _).bind fun _ => (forInitializer_alike h).bind fun _ =>
    (unlessAt_alike _ _ (h.map some).least_zero).bind fun _ => (require_alike _).bind fun _ =>
    (unlessAt_alike _ _ (h.map some).least_zero).bind fun _ => (require_alike _).bind fun _ =>
    pure_alike _).least (by omega)

lemma loopHead_alike (h : Alike n 1 expression expression') :
    Alike n 1 (loopHead expression) (loopHead expression') :=
  ((require_alike _).bind fun _ => (require_alike _).bind fun _ => (require_alike _).bind fun _ =>
    (require_alike _).bind fun _ => h.bind fun _ => (require_alike _).bind fun _ =>
    pure_alike _).least (by omega)

lemma parametersOf_alike (h : Alike n 0 parameters parameters') (count : Nat) :
    Alike (n + 1) 1 (parametersOf parameters count) (parametersOf parameters' count) := by
  refine Alike.least (k := 0 + (1 + 0)) ?_ (by omega)
  refine (limit_alike _ _).bind fun _ => (require_alike _).bind_shorter fun _ => ?_
  refine (accept_alike _).bind (k := 0) fun _ => ?_
  exact Alike.ite (h.bind fun _ => pure_alike _) (pure_alike _)

lemma functionHead_alike (h : Alike n 0 parameters parameters') :
    Alike n 1 (functionHead parameters) (functionHead parameters') :=
  ((require_alike _).bind fun _ => (require_alike _).bind fun _ =>
    (unlessAt_alike _ _ h).bind fun _ => (require_alike _).bind fun _ =>
    (require_alike _).bind fun _ => pure_alike _).least (by omega)

/-- A statement uses the statements and blocks it is given only after a token. -/
lemma statementOf_alike (he : Alike (n + 1) 1 expression expression')
    (hs : Alike n 1 statement statement') (hb : Alike n 1 block block') :
    Alike (n + 1) 1 (statementOf expression statement block)
      (statementOf expression' statement' block') := by
  have within : Alike n 1 expression expression' := he.below (Nat.le_succ n)
  intro s below
  refine current_alikeAt ?_
  split
  case h_1 hk =>
    exact advance_alikeAt (by simp [hk]) below fun _ => printStatement_alike within
  case h_2 hk =>
    exact advance_alikeAt (by simp [hk]) below fun _ => returnStatement_alike within _
  case h_3 hk =>
    exact advance_alikeAt (by simp [hk]) below fun _ => hb.bind fun _ => pure_alike _
  case h_4 hk =>
    exact advance_alikeAt (by simp [hk]) below fun _ => (condition_alike within _ _).bind fun _ =>
      hs.bind fun _ => (ifAt_alike _ hs.least_zero).bind fun _ => pure_alike _
  case h_5 hk =>
    exact advance_alikeAt (by simp [hk]) below fun _ => (condition_alike within _ _).bind fun _ =>
      hs.bind fun _ => pure_alike _
  case h_6 hk =>
    exact advance_alikeAt (by simp [hk]) below fun _ => (forClauses_alike within).bind fun _ =>
      hs.bind fun _ => pure_alike _
  case h_7 hk =>
    exact advance_alikeAt (by simp [hk]) below fun _ => (loopHead_alike within).bind fun _ =>
      hs.bind fun _ => pure_alike _
  case h_8 => exact expressionStatement_alike he s below

lemma declarationOf_alike (he : Alike n 1 expression expression')
    (hp : Alike n 0 parameters parameters') (hs : Alike (n + 1) 1 statement statement')
    (hb : Alike n 1 block block') :
    Alike (n + 1) 1 (declarationOf expression parameters statement block)
      (declarationOf expression' parameters' statement' block') := by
  intro s below
  refine accept_alikeAt (k := 1 + (1 + 0)) (by decide) below ?_ ?_
  · exact (functionHead_alike hp).bind fun _ => (insideFunction_alike hb).bind fun _ =>
      pure_alike _
  · exact accept_alikeAt (by decide) below (variableDeclaration_alike he) (hs s below)

lemma blockOf_alike (h : Alike n 0 others others') :
    Alike n 1 (blockOf others) (blockOf others') :=
  h.bind fun _ => (require_alike _).bind fun _ => pure_alike _

/-- Declarations that follow the first one are read with fewer tokens left, whether the first one is
right or not. -/
lemma declarationsOf_alike (hd : Alike (n + 1) 1 statement statement')
    (ho : Alike n 0 others others') (inBlock : Bool) :
    Alike (n + 1) 0 (declarationsOf statement others inBlock)
      (declarationsOf statement' others' inBlock) := by
  intro s below
  refine sees_alikeAt (sees_alikeAt ?_)
  split
  · exact pure_alike _ s below
  · next goesOn =>
    have hne : s.current.kind ≠ .eof := by
      intro h
      simp [h] at goesOn
    have opens := recovering_alikeAt hne (hd s below)
    refine (opens.bind (k := 0) (fun found t ht => ?_) (Nat.le_refl _)).least (Nat.zero_le _)
    cases found with
    | some statement => exact (ho.bind fun _ => pure_alike _) t (by omega)
    | none => exact ho t (by omega)

end Statements

end Grammar

end Lox
