import Lox.Proofs.Derivation.ExpressionComplete
import Lox.Proofs.Derivation.StatementSound

/-!
What the grammar of statements derives is read without a mistake, and the statement that is read
denotes the tree that is derived.
-/

namespace Lox

open Reading Reader Grammar Unbounded

variable {α β : Type} {s : Reading} {rest : List Token} {t : Token}

/-- The kinds of tokens with which a statement or declaration can start. -/
def Form.opens (form : Form) : TokenKind → Bool
  | .eof | .rightBrace | .kwElse => false
  | .kwFun | .kwVar =>
    match form with
    | .declaration _ => true
    | .statement _ _ => false
  | _ => true

namespace DerivesPhrase

lemma opens_expression {form : Form} {kind : TokenKind} (h : Category.assignment.opens kind) :
    form.opens kind := by
  cases kind <;> first | rfl | cases h

/-- A statement or declaration starts with a token that can start one. -/
lemma opens {form : Form} {ts : List Token} {p : Phrase} (h : DerivesPhrase form ts p) :
    ∃ first us, ts = first :: us ∧ form.opens first.kind := by
  induction h with
  | statement _ ih =>
    obtain ⟨first, us, rfl, starts⟩ := ih
    refine ⟨first, us, rfl, ?_⟩
    cases hk : first.kind <;> rw [hk] at starts <;> first | rfl | cases starts
  | expression derived _ =>
    obtain ⟨first, us, rfl, starts⟩ := derived.opens
    exact ⟨first, _, rfl, opens_expression starts⟩
  | declareVar hk | declareFun hk | print hk | returnFrom hk | block hk | branch hk
  | branchElse hk | whileLoop hk | forLoop hk | stringLoop hk =>
    exact ⟨_, _, rfl, by rw [hk]; rfl⟩

end DerivesPhrase

namespace Reader

lemma current_facing {f : Token → Reader β} :
    (current >>= f) (s.facing (t :: rest)) = f t (s.facing (t :: rest)) :=
  rfl

lemma advance_facing {f : Token → Reader β} (h : t.kind ≠ .eof) :
    (advance >>= f) (s.facing (t :: rest)) = f t (s.facing rest) :=
  bind_ok (advance_run h)

lemma accept_facing {kind : TokenKind} {f : Bool → Reader β} (h : t.kind = kind)
    (hne : kind ≠ .eof) :
    (accept kind >>= f) (s.facing (t :: rest)) = f true (s.facing rest) :=
  bind_ok (accept_run h hne)

lemma accept_other {kind : TokenKind} {f : Bool → Reader β} (h : s.current.kind ≠ kind) :
    (accept kind >>= f) s = f false s := by
  have run := accept_eq kind s
  rw [if_neg h] at run
  exact bind_ok run

lemma require_facing {what : Requirement} {f : Token → Reader β} (h : t.kind = what.kind) :
    (require what >>= f) (s.facing (t :: rest)) = f t (s.facing rest) :=
  bind_ok (require_run h)

lemma limit_below {count : Nat} {cause : SyntaxError.Cause} {f : Unit → Reader β}
    (h : count < arityLimit) : (limit count cause >>= f) s = f () s :=
  bind_ok (limit_run h)

lemma unlessAt_at {kind : TokenKind} {otherwise : α} {x : Reader α} (h : s.current.kind = kind) :
    unlessAt kind otherwise x s = .ok otherwise s := by
  rw [unlessAt, bind_sees]
  simp only [h, beq_self_eq_true, if_true]
  rfl

lemma unlessAt_other {kind : TokenKind} {otherwise : α} {x : Reader α}
    (h : s.current.kind ≠ kind) : unlessAt kind otherwise x s = x s := by
  rw [unlessAt, bind_sees]
  simp only [beq_eq_false_iff_ne.mpr h]
  rfl

end Reader

namespace Unbounded

/-- An expression leaves no nodes in the state. -/
lemma expression_bare {e : Expression} {u : Reading} (h : expression s = .ok e u) : u.bare = u := by
  have run : expression s = (do
      let root ← operation 0
      modifyGet fun s => (⟨s.nodes, root⟩, s.bare) : Reader Expression) s.bare := rfl
  rw [run] at h
  cases hx : operation 0 s.bare with
  | ok i v =>
    rw [Reader.bind_ok hx] at h
    cases h
    rfl
  | error e v =>
    rw [Reader.bind_error hx] at h
    cases h

lemma expression_complete {ts : List Token} {term : Term} (h : DerivesTerm .assignment ts term)
    (bare : s.nodes = #[]) (ends : (s.facing rest).Stopped 2) :
    ∃ e, expression (s.facing (ts ++ rest)) = .ok e (s.facing rest) ∧ e.Denotes term := by
  have run := completes h s rest _ ends (Nat.le_refl _)
  have same : (s.facing (ts ++ rest)).bare = s.facing (ts ++ rest) := by
    simp only [Reading.bare, facing, bare]
  have agrees := expression_agrees (s.facing (ts ++ rest)) (Nat.le_refl _)
  have run' : Descent.assignment (16 * (s.facing (ts ++ rest)).left + 16) _ = _ := run
  rw [same, run'] at agrees
  cases hx : expression (s.facing (ts ++ rest)) with
  | ok e u =>
    rw [hx] at agrees
    obtain ⟨denotes, reached⟩ := agrees
    rw [expression_bare hx] at reached
    exact ⟨e, by rw [reached], denotes⟩
  | error e u =>
    rw [hx] at agrees
    exact agrees.elim

/-- A token that announces no continuation ends an expression. -/
lemma expression_then (rest : List Token) {ts : List Token} {term : Term}
    (h : DerivesTerm .assignment ts term)
    (bare : s.nodes = #[]) (none : Continuation.ofKind? t.kind = none) : ∃ e,
      expression (s.facing (ts ++ t :: rest)) = .ok e (s.facing (t :: rest)) ∧ e.Denotes term :=
  expression_complete h bare (stopped_of_none none)

/-- An expression that may be missing, and the token that must follow it. -/
lemma maybe_complete (rest : List Token) {ts : List Token} {value : Option Term} {kind : TokenKind}
    (h : MaybeDerivesTerm ts value) (bare : s.nodes = #[]) (hk : t.kind = kind)
    (none : Continuation.ofKind? kind = none) (closes : Category.assignment.opens kind = false) :
    ∃ e, Expression.MaybeDenotes e value ∧
      unlessAt kind Option.none (some <$> expression) (s.facing (ts ++ t :: rest)) =
        .ok e (s.facing (t :: rest)) := by
  cases h with
  | none => exact ⟨Option.none, rfl, Reader.unlessAt_at hk⟩
  | some derived =>
    obtain ⟨first, us, rfl, starts⟩ := derived.opens
    have seen : (s.facing (first :: us ++ t :: rest)).current.kind ≠ kind := by
      change first.kind ≠ kind
      rintro rfl
      rw [closes] at starts
      cases starts
    obtain ⟨e, run, denotes⟩ := expression_then rest (t := t) derived bare
      (by rw [hk, none])
    exact ⟨some e, ⟨_, denotes, rfl⟩, (Reader.unlessAt_other seen).trans (Reader.map_ok run)⟩

lemma variableDeclaration_complete (rest : List Token) {ts : List Token} {p : Phrase}
    (h : DerivesVariable ts p)
    (bare : s.nodes = #[]) : ∃ st, st.Denotes p ∧
      variableDeclaration expression (s.facing (ts ++ rest)) = .ok st (s.facing rest) := by
  cases h with
  | @plain name semicolon hn hs =>
    refine ⟨.declareVar (ident name) none, ⟨none, rfl, rfl⟩, ?_⟩
    change variableDeclaration expression (s.facing (name :: semicolon :: rest)) = _
    rw [variableDeclaration, Reader.require_facing hn, ifAt, bind_assoc,
      Reader.accept_other (by change semicolon.kind ≠ _; simp [hs])]
    simp only [Bool.false_eq_true, if_false, pure_bind]
    rw [Reader.require_facing hs]
    rfl
  | @initial us term name equals semicolon hn he derived hs =>
    obtain ⟨e, run, denotes⟩ := expression_then rest (t := semicolon) derived bare
      (by rw [hs]; rfl)
    refine ⟨.declareVar (ident name) (some e), ⟨some term, ⟨term, denotes, rfl⟩, rfl⟩, ?_⟩
    simp only [List.cons_append, List.append_assoc, List.nil_append]
    rw [variableDeclaration, Reader.require_facing hn, ifAt, bind_assoc,
      Reader.accept_facing he (by decide)]
    simp only [if_true]
    rw [Reader.bind_ok (Reader.map_ok run), Reader.require_facing hs]
    rfl

lemma expressionStatement_complete (rest : List Token) {ts : List Token} {term : Term}
    (h : DerivesTerm .assignment ts term) (bare : s.nodes = #[]) (hs : t.kind = .semicolon) :
    ∃ st, st.Denotes (.expression term) ∧
      expressionStatement expression (s.facing (ts ++ t :: rest)) = .ok st (s.facing rest) := by
  obtain ⟨e, run, denotes⟩ := expression_then rest (t := t) h bare (by rw [hs]; rfl)
  refine ⟨.expression e, ⟨term, denotes, rfl⟩, ?_⟩
  rw [expressionStatement, Reader.bind_ok run, Reader.require_facing hs]
  rfl

lemma forInitializer_complete (rest : List Token) {ts : List Token} {i : Option Phrase}
    (h : DerivesInitializer ts i)
    (bare : s.nodes = #[]) : ∃ st, Statement.MaybeDenotes st i ∧
      forInitializer expression (s.facing (ts ++ rest)) = .ok st (s.facing rest) := by
  cases h with
  | @none semicolon hs =>
    refine ⟨Option.none, rfl, ?_⟩
    change forInitializer expression (s.facing (semicolon :: rest)) = _
    rw [forInitializer, Reader.accept_facing hs (by decide)]
    rfl
  | @declareVar us p keyword hk derived =>
    obtain ⟨st, denotes, run⟩ := variableDeclaration_complete rest derived bare
    refine ⟨some st, ⟨p, denotes, rfl⟩, ?_⟩
    rw [List.cons_append, forInitializer,
      Reader.accept_other (by change keyword.kind ≠ _; simp [hk])]
    simp only [Bool.false_eq_true, if_false]
    rw [Reader.accept_facing hk (by decide)]
    exact Reader.map_ok run
  | @expression us term semicolon derived hs =>
    obtain ⟨st, denotes, run⟩ := expressionStatement_complete rest derived bare hs
    obtain ⟨first, vs, rfl, starts⟩ := derived.opens
    refine ⟨some st, ⟨_, denotes, rfl⟩, ?_⟩
    have plain : first.kind ≠ .semicolon ∧ first.kind ≠ .kwVar := by
      constructor <;> intro hk <;> rw [hk] at starts <;> cases starts
    rw [List.append_assoc, List.singleton_append, forInitializer,
      Reader.accept_other (by exact plain.1)]
    simp only [Bool.false_eq_true, if_false]
    rw [Reader.accept_other (by exact plain.2)]
    exact Reader.map_ok run

lemma checkInside_complete {keyword : Token} (h : s.inside = true) :
    checkInside keyword s = .ok () s := by
  have enclosed : s.functionDepth ≠ 0 := by simpa [Reading.inside] using h
  change (if s.functionDepth = 0 then
    record (SyntaxError.atToken keyword .returnOutside) else pure () : Reader Unit) s = _
  rw [if_neg enclosed]
  rfl

lemma returnStatement_complete (rest : List Token) {ts : List Token} {value : Option Term}
    {keyword : Token}
    (h : MaybeDerivesTerm ts value) (bare : s.nodes = #[]) (inside : s.inside = true)
    (hs : t.kind = .semicolon) : ∃ st, st.Denotes (.returnFrom keyword.line value) ∧
      returnStatement expression keyword (s.facing (ts ++ t :: rest)) = .ok st (s.facing rest) := by
  obtain ⟨e, denotes, run⟩ := maybe_complete rest h bare hs rfl rfl
  refine ⟨.returnFrom keyword.line e, ⟨value, denotes, rfl⟩, ?_⟩
  have checked : checkInside keyword (s.facing (ts ++ t :: rest)) =
      .ok () (s.facing (ts ++ t :: rest)) := checkInside_complete inside
  rw [returnStatement, Reader.bind_ok checked, Reader.bind_ok run, Reader.require_facing hs]
  rfl

lemma condition_complete (rest : List Token) {ts : List Token} {term : Term}
    {opening closing : Token}
    {before after : Requirement} (h : DerivesTerm .assignment ts term) (bare : s.nodes = #[])
    (ho : opening.kind = before.kind) (hc : closing.kind = after.kind)
    (none : Continuation.ofKind? after.kind = none) : ∃ e, e.Denotes term ∧
      condition expression before after (s.facing (opening :: (ts ++ closing :: rest))) =
        .ok e (s.facing rest) := by
  obtain ⟨e, run, denotes⟩ := expression_then rest (t := closing) h bare
    (by rw [hc, none])
  refine ⟨e, denotes, ?_⟩
  rw [condition, Reader.require_facing ho, Reader.bind_ok run, Reader.require_facing hc]
  rfl

/-- What a form derives is read, from a state in a function body just if the form is for one. An
`else` may follow only where it cannot belong to the statement. -/
def CompletesForm : Form → List Token → Phrase → Prop
  | .declaration inside, ts, p => ∀ (s : Reading) (rest : List Token), s.nodes = #[] →
    s.inside = inside → (s.facing rest).current.kind ≠ .kwElse →
    ∃ st, st.Denotes p ∧ declaration (s.facing (ts ++ rest)) = .ok st (s.facing rest)
  | .statement inside dangling, ts, p => ∀ (s : Reading) (rest : List Token), s.nodes = #[] →
    s.inside = inside → (dangling = true → (s.facing rest).current.kind ≠ .kwElse) →
    ∃ st, st.Denotes p ∧ statement (s.facing (ts ++ rest)) = .ok st (s.facing rest)

lemma declarations_complete {inside : Bool} {parts : List (List Token × Phrase)} (rest : List Token)
    (derived : ∀ part ∈ parts, DerivesPhrase (.declaration inside) part.1 part.2)
    (h : ∀ part ∈ parts, CompletesForm (.declaration inside) part.1 part.2)
    (bare : s.nodes = #[]) (same : s.inside = inside) (inBlock : Bool)
    (ends : (s.facing rest).current.kind = .eof ∨
      inBlock = true ∧ (s.facing rest).current.kind = .rightBrace) :
    ∃ ss, Statement.AllDenote ss (parts.map Prod.snd) ∧
      declarations inBlock (s.facing ((parts.map Prod.fst).flatten ++ rest)) =
        .ok ss (s.facing rest) := by
  induction parts with
  | nil =>
    refine ⟨[], rfl, ?_⟩
    change declarations inBlock (s.facing rest) = _
    rw [declarations_eq, declarationsOf, Reader.bind_sees, Reader.bind_sees]
    rcases ends with ends | ⟨rfl, ends⟩ <;> rw [ends] <;> rfl
  | cons part parts ih =>
    obtain ⟨ss, denotes, run⟩ := ih (fun part hp => derived part (List.mem_cons_of_mem _ hp))
      fun part hp => h part (List.mem_cons_of_mem _ hp)
    have follows : (s.facing ((parts.map Prod.fst).flatten ++ rest)).current.kind ≠ .kwElse := by
      cases parts with
      | nil =>
        change (s.facing rest).current.kind ≠ _
        rcases ends with ends | ⟨-, ends⟩ <;> rw [ends] <;> decide
      | cons next parts =>
        obtain ⟨first, us, hfirst, starts⟩ := (derived next (by simp)).opens
        have seen :
          (s.facing (((next :: parts).map Prod.fst).flatten ++ rest)).current = first := by
          simp only [List.map_cons, List.flatten_cons, hfirst]
          rfl
        rw [seen]
        intro hk
        rw [hk] at starts
        cases starts
    obtain ⟨st, hst, first⟩ := h part List.mem_cons_self s _ bare same follows
    refine ⟨st :: ss, ⟨_, _, hst, denotes, rfl⟩, ?_⟩
    obtain ⟨ts, p⟩ := part
    obtain ⟨opening, us, rfl, starts⟩ := (derived (ts, p) List.mem_cons_self).opens
    have plain : opening.kind ≠ .eof ∧ opening.kind ≠ .rightBrace := by
      constructor <;> intro hk <;> rw [hk] at starts <;> cases starts
    have found : recovering declaration
        (s.facing (opening :: us ++ ((parts.map Prod.fst).flatten ++ rest))) =
          .ok (some st) (s.facing ((parts.map Prod.fst).flatten ++ rest)) := by
      simp only [recovering]
      rw [show declaration _ = _ from first]
    simp only [List.map_cons, List.flatten_cons, List.append_assoc]
    rw [declarations_eq, declarationsOf, Reader.bind_sees, Reader.bind_sees]
    simp only [show (s.facing (opening :: us ++ ((parts.map Prod.fst).flatten ++ rest))).current =
      opening from rfl, beq_eq_false_iff_ne.mpr plain.1, beq_eq_false_iff_ne.mpr plain.2,
      Bool.and_false, Bool.or_false, Bool.false_eq_true, if_false]
    rw [Reader.bind_ok found]
    simp only
    rw [Reader.bind_ok run]
    rfl

lemma block_complete {inside : Bool} {parts : List (List Token × Phrase)} (rest : List Token)
    (derived : ∀ part ∈ parts, DerivesPhrase (.declaration inside) part.1 part.2)
    (h : ∀ part ∈ parts, CompletesForm (.declaration inside) part.1 part.2)
    (bare : s.nodes = #[]) (same : s.inside = inside) (hk : t.kind = .rightBrace) :
    ∃ ss, Statement.AllDenote ss (parts.map Prod.snd) ∧
      block (s.facing ((parts.map Prod.fst).flatten ++ t :: rest)) = .ok ss (s.facing rest) := by
  obtain ⟨ss, denotes, run⟩ := declarations_complete (t :: rest) derived h bare same true
    (.inr ⟨rfl, hk⟩)
  refine ⟨ss, denotes, ?_⟩
  rw [block_eq, blockOf, Reader.bind_ok run, Reader.require_facing hk]
  rfl

lemma parameters_complete {tokens ts : List Token} {closing : Token} (rest : List Token)
    (separated : Separated (tokens.map fun t => [t]) ts)
    (kinds : ∀ t ∈ tokens, t.kind = .identifier) (hne : tokens ≠ [])
    (hk : closing.kind = .rightParen) (count : Nat) (few : count + tokens.length ≤ arityLimit) :
    parameters count (s.facing (ts ++ closing :: rest)) =
      .ok (tokens.map ident) (s.facing (closing :: rest)) := by
  induction tokens generalizing ts count with
  | nil => exact absurd rfl hne
  | cons name tokens ih =>
    have first : name.kind = Requirement.parameterName.kind := kinds name List.mem_cons_self
    have below : count < arityLimit := by
      simp only [List.length_cons] at few
      omega
    rw [parameters_eq, parametersOf, Reader.limit_below below]
    cases tokens with
    | nil =>
      cases separated
      change (require .parameterName >>= _) (s.facing (name :: closing :: rest)) = _
      rw [Reader.require_facing first,
        Reader.accept_other (by change closing.kind ≠ _; simp [hk])]
      rfl
    | cons next tokens =>
      obtain ⟨us, comma, hcomma, others, rfl⟩ : ∃ us comma, comma.kind = .comma ∧
          Separated ((next :: tokens).map fun t => [t]) us ∧ ts = name :: comma :: us := by
        cases separated with
        | more hcomma others => exact ⟨_, _, hcomma, others, rfl⟩
      have more := ih others (fun t ht => kinds t (List.mem_cons_of_mem _ ht))
        (List.cons_ne_nil _ _) (count + 1) (by simp only [List.length_cons] at few ⊢; omega)
      simp only [List.cons_append]
      rw [Reader.require_facing first, Reader.accept_facing hcomma (by decide)]
      simp only [if_true]
      rw [Reader.bind_ok more]
      rfl

lemma names_complete {tokens ts : List Token} {closing : Token} (rest : List Token)
    (separated : Separated (tokens.map fun t => [t]) ts)
    (kinds : ∀ t ∈ tokens, t.kind = .identifier) (hk : closing.kind = .rightParen)
    (few : tokens.length ≤ arityLimit) :
    unlessAt .rightParen [] (parameters 0) (s.facing (ts ++ closing :: rest)) =
      .ok (tokens.map ident) (s.facing (closing :: rest)) := by
  cases tokens with
  | nil =>
    cases separated
    exact Reader.unlessAt_at hk
  | cons name tokens =>
    have first : name.kind = .identifier := kinds name List.mem_cons_self
    have seen : (s.facing (ts ++ closing :: rest)).current.kind ≠ .rightParen := by
      cases tokens <;> cases separated <;> show name.kind ≠ _ <;> simp [first]
    rw [Reader.unlessAt_other seen]
    exact parameters_complete rest separated kinds (List.cons_ne_nil _ _) hk 0 (by omega)

lemma insideFunction_complete {x : Reader α} {ts : List Token} {a : α}
    (h : x (s.deeper.facing ts) = .ok a (s.deeper.facing rest)) :
    insideFunction x (s.facing ts) = .ok a (s.facing rest) := by
  simp only [insideFunction]
  rw [show x (s.facing ts).deeper = _ from h]
  rfl

section

variable {inside dangling : Bool} {ts us : List Token} {term : Term} {p q : Phrase}
  {parts : List (List Token × Phrase)} {keyword opening closing other : Token}

lemma declareVar_completes (hk : keyword.kind = .kwVar) (h : DerivesVariable ts p) :
    CompletesForm (.declaration inside) (keyword :: ts) p := by
  intro s rest bare _ _
  obtain ⟨st, denotes, run⟩ := variableDeclaration_complete rest h bare
  refine ⟨st, denotes, ?_⟩
  rw [declaration_eq, declarationOf, List.cons_append,
    Reader.accept_other (by change keyword.kind ≠ _; simp [hk])]
  simp only [Bool.false_eq_true, if_false]
  rw [Reader.accept_facing hk (by decide)]
  exact run

lemma declareFun_completes {names : List Token} {name brace last : Token}
    (hk : keyword.kind = .kwFun) (hn : name.kind = .identifier) (ho : opening.kind = .leftParen)
    (kinds : ∀ t ∈ names, t.kind = .identifier) (separated : Separated (names.map fun t => [t]) us)
    (few : names.length ≤ arityLimit) (hc : closing.kind = .rightParen)
    (hb : brace.kind = .leftBrace)
    (derived : ∀ part ∈ parts, DerivesPhrase (.declaration true) part.1 part.2)
    (h : ∀ part ∈ parts, CompletesForm (.declaration true) part.1 part.2)
    (hl : last.kind = .rightBrace) :
    CompletesForm (.declaration inside)
      (keyword :: name :: opening ::
        (us ++ closing :: brace :: ((parts.map Prod.fst).flatten ++ [last])))
      (.declareFun (ident name) (names.map ident) (parts.map Prod.snd)) := by
  intro s rest bare _ _
  have enclosed : s.deeper.inside = true := by simp [Reading.inside, Reading.deeper]
  obtain ⟨ss, denotes, run⟩ := block_complete rest derived h (s := s.deeper) bare enclosed hl
  refine ⟨.declareFun (ident name) (names.map ident) ss, ⟨_, denotes, rfl⟩, ?_⟩
  have list := names_complete (s := s)
    (brace :: ((parts.map Prod.fst).flatten ++ last :: rest)) separated kinds hc few
  simp only [List.cons_append, List.append_assoc, List.nil_append]
  rw [declaration_eq, declarationOf, Reader.accept_facing hk (by decide)]
  simp only [if_true, functionHead, bind_assoc, pure_bind]
  rw [Reader.require_facing hn, Reader.require_facing ho, Reader.bind_ok list,
    Reader.require_facing hc, Reader.require_facing hb,
    Reader.bind_ok (insideFunction_complete run)]
  rfl

lemma statement_completes (derived : DerivesPhrase (.statement inside true) ts p)
    (h : CompletesForm (.statement inside true) ts p) :
    CompletesForm (.declaration inside) ts p := by
  intro s rest bare same follows
  obtain ⟨st, denotes, run⟩ := h s rest bare same fun _ => follows
  obtain ⟨first, us, rfl, starts⟩ := derived.opens
  have plain : first.kind ≠ .kwFun ∧ first.kind ≠ .kwVar := by
    constructor <;> intro hk <;> rw [hk] at starts <;> cases starts
  refine ⟨st, denotes, ?_⟩
  rw [declaration_eq, declarationOf, Reader.accept_other (by exact plain.1)]
  simp only [Bool.false_eq_true, if_false]
  rw [Reader.accept_other (by exact plain.2)]
  exact run

lemma expressionStatement_completes (h : DerivesTerm .assignment ts term)
    (hs : t.kind = .semicolon) :
    CompletesForm (.statement inside dangling) (ts ++ [t]) (.expression term) := by
  intro s rest bare _ _
  obtain ⟨st, denotes, run⟩ := expressionStatement_complete rest h bare hs
  refine ⟨st, denotes, ?_⟩
  obtain ⟨first, us, rfl, starts⟩ := h.opens
  simp only [List.cons_append, List.append_assoc, List.nil_append] at run ⊢
  rw [statement_eq, statementOf, Reader.current_facing]
  cases hk : first.kind <;> first | exact run | (rw [hk] at starts; cases starts)

lemma print_completes (hk : keyword.kind = .kwPrint) (h : DerivesTerm .assignment ts term)
    (hs : t.kind = .semicolon) :
    CompletesForm (.statement inside dangling) (keyword :: (ts ++ [t])) (.print term) := by
  intro s rest bare _ _
  obtain ⟨e, run, denotes⟩ := expression_then rest (t := t) h bare (by rw [hs]; rfl)
  refine ⟨.print e, ⟨term, denotes, rfl⟩, ?_⟩
  simp only [List.cons_append, List.append_assoc, List.nil_append]
  rw [statement_eq, statementOf, Reader.current_facing]
  simp only [hk]
  rw [Reader.advance_facing (by simp [hk]), printStatement, Reader.bind_ok run,
    Reader.require_facing hs]
  rfl

lemma returnFrom_completes {value : Option Term} (hk : keyword.kind = .kwReturn)
    (h : MaybeDerivesTerm ts value) (hs : t.kind = .semicolon) :
    CompletesForm (.statement true dangling) (keyword :: (ts ++ [t]))
      (.returnFrom keyword.line value) := by
  intro s rest bare same _
  obtain ⟨st, denotes, run⟩ := returnStatement_complete rest h bare same hs
  refine ⟨st, denotes, ?_⟩
  simp only [List.cons_append, List.append_assoc, List.nil_append]
  rw [statement_eq, statementOf, Reader.current_facing]
  simp only [hk]
  rw [Reader.advance_facing (by simp [hk])]
  exact run

lemma block_completes {first last : Token} (hf : first.kind = .leftBrace)
    (derived : ∀ part ∈ parts, DerivesPhrase (.declaration inside) part.1 part.2)
    (h : ∀ part ∈ parts, CompletesForm (.declaration inside) part.1 part.2)
    (hl : last.kind = .rightBrace) :
    CompletesForm (.statement inside dangling)
      (first :: ((parts.map Prod.fst).flatten ++ [last])) (.block (parts.map Prod.snd)) := by
  intro s rest bare same _
  obtain ⟨ss, denotes, run⟩ := block_complete rest derived h bare same hl
  refine ⟨.block ss, ⟨_, denotes, rfl⟩, ?_⟩
  simp only [List.cons_append, List.append_assoc, List.nil_append]
  rw [statement_eq, statementOf, Reader.current_facing]
  simp only [hf]
  rw [Reader.advance_facing (by simp [hf]), Reader.bind_ok run]
  rfl

lemma branch_completes (hk : keyword.kind = .kwIf) (ho : opening.kind = .leftParen)
    (h : DerivesTerm .assignment ts term) (hc : closing.kind = .rightParen)
    (hb : CompletesForm (.statement inside true) us p) :
    CompletesForm (.statement inside true) (keyword :: opening :: (ts ++ closing :: us))
      (.branch term p none) := by
  intro s rest bare same follows
  obtain ⟨e, denotes, run⟩ := condition_complete (us ++ rest) h bare
    (show opening.kind = Requirement.ifOpen.kind from ho)
    (show closing.kind = Requirement.ifClose.kind from hc) rfl
  obtain ⟨st, denotes', run'⟩ := hb s rest bare same follows
  refine ⟨.branch e st none, ⟨term, p, none, denotes, denotes', rfl, rfl⟩, ?_⟩
  simp only [List.cons_append, List.append_assoc]
  rw [statement_eq, statementOf, Reader.current_facing]
  simp only [hk]
  rw [Reader.advance_facing (by simp [hk]), Reader.bind_ok run, Reader.bind_ok run', ifAt,
    bind_assoc, Reader.accept_other (follows rfl)]
  rfl

lemma branchElse_completes {vs : List Token} (hk : keyword.kind = .kwIf)
    (ho : opening.kind = .leftParen) (h : DerivesTerm .assignment ts term)
    (hc : closing.kind = .rightParen) (hb : CompletesForm (.statement inside false) us p)
    (hother : other.kind = .kwElse) (hb' : CompletesForm (.statement inside dangling) vs q) :
    CompletesForm (.statement inside dangling)
      (keyword :: opening :: (ts ++ closing :: (us ++ other :: vs))) (.branch term p (some q)) := by
  intro s rest bare same follows
  obtain ⟨e, denotes, run⟩ := condition_complete (us ++ other :: (vs ++ rest)) h bare
    (show opening.kind = Requirement.ifOpen.kind from ho)
    (show closing.kind = Requirement.ifClose.kind from hc) rfl
  obtain ⟨st, denotes', run'⟩ := hb s (other :: (vs ++ rest)) bare same nofun
  obtain ⟨st', denotes'', run''⟩ := hb' s rest bare same follows
  refine ⟨.branch e st (some st'), ⟨term, p, some q, denotes, denotes', ⟨q, denotes'', rfl⟩, rfl⟩,
    ?_⟩
  simp only [List.cons_append, List.append_assoc]
  rw [statement_eq, statementOf, Reader.current_facing]
  simp only [hk]
  rw [Reader.advance_facing (by simp [hk]), Reader.bind_ok run, Reader.bind_ok run', ifAt,
    bind_assoc, Reader.accept_facing hother (by decide)]
  simp only [if_true]
  rw [Reader.bind_ok (Reader.map_ok run'')]
  rfl

lemma whileLoop_completes (hk : keyword.kind = .kwWhile) (ho : opening.kind = .leftParen)
    (h : DerivesTerm .assignment ts term) (hc : closing.kind = .rightParen)
    (hb : CompletesForm (.statement inside dangling) us p) :
    CompletesForm (.statement inside dangling) (keyword :: opening :: (ts ++ closing :: us))
      (.whileLoop term p) := by
  intro s rest bare same follows
  obtain ⟨e, denotes, run⟩ := condition_complete (us ++ rest) h bare
    (show opening.kind = Requirement.whileOpen.kind from ho)
    (show closing.kind = Requirement.whileClose.kind from hc) rfl
  obtain ⟨st, denotes', run'⟩ := hb s rest bare same follows
  refine ⟨.whileLoop e st, ⟨term, p, denotes, denotes', rfl⟩, ?_⟩
  simp only [List.cons_append, List.append_assoc]
  rw [statement_eq, statementOf, Reader.current_facing]
  simp only [hk]
  rw [Reader.advance_facing (by simp [hk]), Reader.bind_ok run, Reader.bind_ok run']
  rfl

lemma forLoop_completes {vs ws : List Token} {initializer : Option Phrase}
    {condition increment : Option Term} (hk : keyword.kind = .kwFor)
    (ho : opening.kind = .leftParen) (hi : DerivesInitializer ts initializer)
    (hcondition : MaybeDerivesTerm us condition) (hs : t.kind = .semicolon)
    (hincrement : MaybeDerivesTerm vs increment) (hc : closing.kind = .rightParen)
    (hb : CompletesForm (.statement inside dangling) ws p) :
    CompletesForm (.statement inside dangling)
      (keyword :: opening :: (ts ++ (us ++ t :: (vs ++ closing :: ws))))
      (.forLoop keyword.line initializer condition increment p) := by
  intro s rest bare same follows
  obtain ⟨i, denotes, run⟩ := forInitializer_complete
    (us ++ t :: (vs ++ closing :: (ws ++ rest))) hi bare
  obtain ⟨c, denotes', run'⟩ := maybe_complete (vs ++ closing :: (ws ++ rest)) hcondition bare hs
    rfl rfl
  obtain ⟨e, denotes'', run''⟩ := maybe_complete (ws ++ rest) hincrement bare hc rfl rfl
  obtain ⟨st, hst, body⟩ := hb s rest bare same follows
  refine ⟨forStatement keyword.line ⟨i, c, e⟩ st,
    forStatement_denotes denotes denotes' denotes'' hst, ?_⟩
  simp only [List.cons_append, List.append_assoc]
  rw [statement_eq, statementOf, Reader.current_facing]
  simp only [hk, forClauses, bind_assoc, pure_bind]
  rw [Reader.advance_facing (by simp [hk]), Reader.require_facing ho, Reader.bind_ok run,
    Reader.bind_ok run', Reader.require_facing hs, Reader.bind_ok run'', Reader.require_facing hc,
    Reader.bind_ok body]
  rfl

lemma stringLoop_completes {binder name preposition : Token} (hk : keyword.kind = .kwLoop)
    (ho : opening.kind = .leftParen) (hv : binder.kind = .kwVar) (hn : name.kind = .identifier)
    (hp : preposition.kind = .kwIn) (h : DerivesTerm .assignment ts term)
    (hc : closing.kind = .rightParen) (hb : CompletesForm (.statement inside dangling) us p) :
    CompletesForm (.statement inside dangling)
      (keyword :: opening :: binder :: name :: preposition :: (ts ++ closing :: us))
      (.stringLoop (ident name) term p) := by
  intro s rest bare same follows
  obtain ⟨e, run, denotes⟩ := expression_then (us ++ rest) (t := closing) h bare (by rw [hc]; rfl)
  obtain ⟨st, denotes', run'⟩ := hb s rest bare same follows
  refine ⟨.stringLoop (ident name) e st, ⟨term, p, denotes, denotes', rfl⟩, ?_⟩
  simp only [List.cons_append, List.append_assoc]
  rw [statement_eq, statementOf, Reader.current_facing]
  simp only [hk, loopHead, bind_assoc, pure_bind]
  rw [Reader.advance_facing (by simp [hk]), Reader.require_facing ho, Reader.require_facing hv,
    Reader.require_facing hn, Reader.require_facing hp, Reader.bind_ok run,
    Reader.require_facing hc, Reader.bind_ok run']
  rfl

end

lemma completesForm {form : Form} {ts : List Token} {p : Phrase} (h : DerivesPhrase form ts p) :
    CompletesForm form ts p := by
  induction h with
  | declareVar hk h => exact declareVar_completes hk h
  | declareFun hk hn ho kinds separated few hc hb derived hl ih =>
    exact declareFun_completes hk hn ho kinds separated few hc hb derived ih hl
  | statement derived ih => exact statement_completes derived ih
  | expression h hs => exact expressionStatement_completes h hs
  | print hk h hs => exact print_completes hk h hs
  | returnFrom hk h hs => exact returnFrom_completes hk h hs
  | block hf derived hl ih => exact block_completes hf derived ih hl
  | branch hk ho h hc _ ih => exact branch_completes hk ho h hc ih
  | branchElse hk ho h hc _ hother _ ih ih' =>
    exact branchElse_completes hk ho h hc ih hother ih'
  | whileLoop hk ho h hc _ ih => exact whileLoop_completes hk ho h hc ih
  | forLoop hk ho hi hcondition hs hincrement hc _ ih =>
    exact forLoop_completes hk ho hi hcondition hs hincrement hc ih
  | stringLoop hk ho hv hn hp h hc _ ih => exact stringLoop_completes hk ho hv hn hp h hc ih

end Unbounded

end Lox
