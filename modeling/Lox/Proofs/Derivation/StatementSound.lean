import Lox.Proofs.Derivation.ExpressionSound
import Lox.Proofs.Derivation.Statement
import Lox.Proofs.Reading.Layers

/-!
What is read as a statement without a mistake is derived by the grammar of statements, and the
statement denotes the tree that is derived.
-/

namespace Lox

open Reading Reader Grammar

variable {α β γ δ : Type} {s : Reading} {n : Nat}

namespace Descent

lemma step_bind (x : Reader α) (f : α → Reader β) :
    step (x >>= f) = (do let a ← step x; step (f a)) := by
  funext s
  cases hx : x s with
  | ok a t =>
    rw [bind_ok (step_ok hx)]
    simp only [step, Reader.bind_ok hx]
  | error e t =>
    rw [bind_error (step_error hx)]
    exact step_error (Reader.bind_error hx)

lemma step_pure (a : α) : step (pure a) = pure a :=
  rfl

lemma step_map (x : Reader α) (f : α → β) : step (f <$> x) = (do let a ← step x; pure (f a)) := by
  rw [map_eq_pure_bind, step_bind]
  rfl

end Descent

namespace Reading

/-- Whether a function body encloses the current token. -/
def inside (s : Reading) : Bool :=
  s.functionDepth != 0

lemma Onward.inside {t : Reading} (h : Onward s t) : t.inside = s.inside := by
  rw [Reading.inside, Reading.inside, h.functionDepth]

end Reading

namespace Descent

lemma of_step_ok {x : Reader α} {a : α} {t : Reading} (h : step x s = some (.ok a, t)) :
    x s = .ok a t := by
  cases hx : x s with
  | ok b u =>
    rw [step_ok hx] at h
    cases h
    rfl
  | error e u =>
    rw [step_error hx] at h
    cases h

lemma onward_of_goes {x : Reader α} {k : Nat} (h : Goes k x s) {r : Except SyntaxError α}
    {u : Reading} (run : step x s = some (r, u)) : Onward s u := by
  cases hx : x s with
  | ok a t =>
    rw [step_ok hx] at run
    cases run
    exact h.onward hx
  | error e t =>
    rw [step_error hx] at run
    cases run
    exact h.error hx

end Descent

namespace Unbounded

lemma expression_goes (s : Reading) : Goes 1 expression s :=
  (expression_unbounded (Nat.le_refl _) s (Nat.lt_succ_self _)).2

lemma expression_sound (s : Reading) :
    Sound (fun ts _ e => ∃ t, DerivesTerm .assignment ts t ∧ e.Denotes t)
      (Descent.step expression) s := by
  refine ⟨Descent.onward_of_goes (expression_goes s), fun {e u} run quiet => ?_⟩
  have agrees := expression_agrees s (Nat.le_refl _)
  rw [Descent.of_step_ok run] at agrees
  rcases hd : Descent.assignment (16 * s.left + 16) s.bare with - | ⟨e' | t, v⟩ <;>
    rw [hd] at agrees
  · exact agrees.elim
  · exact agrees.elim
  · obtain ⟨denotes, rfl⟩ := agrees
    obtain ⟨ts, rest, derived⟩ := ((Descent.derives _).assignment s.bare).derives hd quiet
    exact ⟨ts, rest, t, derived, denotes⟩

end Unbounded

/-- Tokens are a phrase of a kind, which the statement that is read denotes. -/
def Reads (F : List Token → Phrase → Prop) (ts : List Token) (_ : Reading) (st : Statement) :
    Prop :=
  ∃ p, F ts p ∧ st.Denotes p

/-- Tokens are an expression or none. -/
def MaybeReads (ts : List Token) (_ : Reading) (e : Option Expression) : Prop :=
  ∃ t, MaybeDerivesTerm ts t ∧ Expression.MaybeDenotes e t

lemma maybe_sound (kind : TokenKind) (s : Reading) :
    Sound MaybeReads
      (Descent.step (unlessAt kind none (some <$> Unbounded.expression))) s := by
  simp only [unlessAt, Descent.step_bind]
  refine .sees ?_
  split
  · exact .pure ⟨none, .none, rfl⟩
  · rw [Descent.step_map]
    refine (Unbounded.expression_sound s).bind fun e t _ => .pure ?_
    rintro ts ⟨t, derived, denotes⟩
    rw [List.append_nil]
    exact ⟨some t, .some derived, t, denotes, rfl⟩

/-- Tokens are an expression between parentheses. -/
def ReadsCondition (ts : List Token) (_ : Reading) (e : Expression) : Prop :=
  ∃ (us : List Token) (t : Term) (opening closing : Token), opening.kind = .leftParen ∧
    DerivesTerm .assignment us t ∧ closing.kind = .rightParen ∧
    ts = opening :: (us ++ [closing]) ∧ e.Denotes t

lemma condition_sound {opening closing : Requirement} (ho : opening.kind = .leftParen)
    (hc : closing.kind = .rightParen) (s : Reading) :
    Sound ReadsCondition (Descent.step (condition Unbounded.expression opening closing)) s := by
  simp only [condition, Descent.step_bind, Descent.step_pure]
  refine .require fun first => (Unbounded.expression_sound _).bind fun e t _ => ?_
  refine .require fun last => .pure ?_
  rintro ts ⟨t, derived, denotes⟩
  exact ⟨ts, t, _, _, first.trans ho, derived, last.trans hc, rfl, denotes⟩

lemma variableDeclaration_sound (s : Reading) :
    Sound (Reads DerivesVariable) (Descent.step (variableDeclaration Unbounded.expression)) s := by
  simp only [variableDeclaration, ifAt, Descent.step_bind, bind_assoc]
  refine .require fun name => .accept (by decide) (fun equals => ?_) fun _ => ?_
  · simp only [if_true, Descent.step_map, bind_assoc, pure_bind]
    refine (Unbounded.expression_sound _).bind fun e t _ => .require fun semicolon => .pure ?_
    rintro ts ⟨t, derived, denotes⟩
    exact ⟨_, .initial name equals derived semicolon, some t, ⟨t, denotes, rfl⟩, rfl⟩
  · refine .require fun semicolon => .pure ?_
    exact ⟨_, .plain name semicolon, none, rfl, rfl⟩

lemma expressionStatement_sound (s : Reading) :
    Sound (Reads fun ts p => ∀ inside dangling, DerivesPhrase (.statement inside dangling) ts p)
      (Descent.step (expressionStatement Unbounded.expression)) s := by
  simp only [expressionStatement, Descent.step_bind]
  refine (Unbounded.expression_sound s).bind fun e t _ => .require fun semicolon => .pure ?_
  rintro ts ⟨t, derived, denotes⟩
  exact ⟨_, fun _ _ => .expression derived semicolon, t, denotes, rfl⟩

lemma forInitializer_sound (s : Reading) :
    Sound (fun ts _ i => ∃ p, DerivesInitializer ts p ∧ Statement.MaybeDenotes i p)
      (Descent.step (forInitializer Unbounded.expression)) s := by
  simp only [forInitializer, Descent.step_bind]
  refine .accept (by decide) (fun semicolon => ?_) fun _ => ?_
  · exact .pure ⟨none, .none semicolon, rfl⟩
  · simp only [Bool.false_eq_true, if_false, Descent.step_bind]
    refine .accept (by decide) (fun keyword => ?_) fun _ => ?_
    · simp only [if_true, Descent.step_map]
      refine (variableDeclaration_sound _).bind fun st t _ => .pure ?_
      rintro ts ⟨p, derived, denotes⟩
      rw [List.append_nil]
      exact ⟨some p, .declareVar keyword derived, p, denotes, rfl⟩
    · simp only [Bool.false_eq_true, if_false, expressionStatement, Descent.step_bind,
        Descent.step_map, bind_assoc]
      refine (Unbounded.expression_sound _).bind fun e t _ => .require fun semicolon => .pure ?_
      rintro ts ⟨t, derived, denotes⟩
      exact ⟨_, .expression derived semicolon, _, ⟨t, denotes, rfl⟩, rfl⟩

lemma checkInside_sound (keyword : Token) (s : Reading) :
    Sound (fun ts _ _ => ts = [] ∧ s.inside = true) (Descent.step (checkInside keyword)) s := by
  by_cases h : s.functionDepth = 0
  · have run : checkInside keyword s =
        .ok () (s.note (SyntaxError.atToken keyword .returnOutside)) := by
      change (if s.functionDepth = 0 then
        record (SyntaxError.atToken keyword .returnOutside) else pure () : Reader Unit) s = _
      rw [if_pos h]
      rfl
    have noted := (Sound.record (SyntaxError.atToken keyword .returnOutside)).congr
      (Descent.step_ok run)
    exact noted.mono fun _ _ _ => False.elim
  · have run : checkInside keyword s = .ok () s := by
      change (if s.functionDepth = 0 then
        record (SyntaxError.atToken keyword .returnOutside) else pure () : Reader Unit) s = _
      rw [if_neg h]
      rfl
    have enclosed : s.inside = true := by simp [Reading.inside, h]
    exact (Sound.pure (b := ()) ⟨rfl, enclosed⟩).congr (Descent.step_ok run)

/-- A statement may end in an `if` without `else` unless an `else` follows it. -/
def ReadsStatement (inside : Bool) (ts : List Token) (u : Reading) (st : Statement) : Prop :=
  ∃ p, st.Denotes p ∧ ∀ dangling, u.current.kind = .kwElse ∨ dangling = true →
    DerivesPhrase (.statement inside dangling) ts p

/-- Declarations one after another. -/
def ReadsAll (inside : Bool) (ts : List Token) (ss : List Statement) : Prop :=
  ∃ parts : List (List Token × Phrase),
    (∀ part ∈ parts, DerivesPhrase (.declaration inside) part.1 part.2) ∧
      ts = (parts.map Prod.fst).flatten ∧ Statement.AllDenote ss (parts.map Prod.snd)

/-- Declarations and the brace that closes their block. -/
def ReadsBlock (inside : Bool) (ts : List Token) (ss : List Statement) : Prop :=
  ∃ us last, ReadsAll inside us ss ∧ last.kind = .rightBrace ∧ ts = us ++ [last]

lemma printStatement_sound (keyword : Token) (hk : keyword.kind = .kwPrint) (s : Reading) :
    Sound (fun ts => ReadsStatement s.inside (keyword :: ts))
      (Descent.step (printStatement Unbounded.expression)) s := by
  simp only [printStatement, Descent.step_bind]
  refine (Unbounded.expression_sound _).bind fun e t _ => .require fun semicolon => .pure ?_
  rintro ts ⟨t, derived, denotes⟩
  exact ⟨_, ⟨t, denotes, rfl⟩, fun _ _ => .print hk derived semicolon⟩

lemma returnStatement_sound (keyword : Token) (hk : keyword.kind = .kwReturn) (s : Reading) :
    Sound (fun ts => ReadsStatement s.inside (keyword :: ts))
      (Descent.step (returnStatement Unbounded.expression keyword)) s := by
  simp only [returnStatement, Descent.step_bind]
  refine (checkInside_sound keyword s).bind fun _ t _ => ?_
  refine (maybe_sound .semicolon t).bind fun e u _ => .require fun semicolon => .pure ?_
  rintro ts ⟨value, derived, denotes⟩ us ⟨rfl, enclosed⟩
  rw [enclosed]
  exact ⟨_, ⟨value, denotes, rfl⟩, fun dangling _ => .returnFrom hk derived semicolon⟩

/-- The tree of a `for` is that of the statement it stands for. -/
lemma forStatement_denotes {line : Nat} {clauses : ForClauses} {i : Option Phrase}
    {condition increment : Option Term} {st : Statement} {p : Phrase}
    (hi : Statement.MaybeDenotes clauses.initializer i)
    (hc : Expression.MaybeDenotes clauses.condition condition)
    (hn : Expression.MaybeDenotes clauses.increment increment) (hb : st.Denotes p) :
    (forStatement line clauses st).Denotes (.forLoop line i condition increment p) := by
  obtain ⟨initializer, c, e⟩ := clauses
  simp only at hi hc hn
  have always : Expression.Denotes (c.getD (.single (.atom (.bool true) line)))
      (condition.getD (.atom (.bool true) line)) := by
    cases c with
    | none =>
      obtain rfl := hc
      simp [Expression.Denotes, Expression.single, Term.LiesAt]
    | some c =>
      obtain ⟨t, ht, rfl⟩ := hc
      exact ht
  rcases e with - | e <;> rcases initializer with - | initializer
  case none.none =>
    obtain rfl := hi
    obtain rfl := hn
    exact ⟨_, _, always, hb, rfl⟩
  case none.some =>
    obtain ⟨q, hq, rfl⟩ := hi
    obtain rfl := hn
    have loop : Statement.Denotes (.whileLoop _ st) _ := ⟨_, _, always, hb, rfl⟩
    exact ⟨_, ⟨q, _, hq, ⟨_, _, loop, rfl, rfl⟩, rfl⟩, rfl⟩
  case some.none =>
    obtain rfl := hi
    obtain ⟨t, ht, rfl⟩ := hn
    have body : Statement.Denotes (.block [st, .expression e]) _ :=
      ⟨_, ⟨p, _, hb, ⟨_, _, ⟨t, ht, rfl⟩, rfl, rfl⟩, rfl⟩, rfl⟩
    exact ⟨_, _, always, body, rfl⟩
  case some.some =>
    obtain ⟨q, hq, rfl⟩ := hi
    obtain ⟨t, ht, rfl⟩ := hn
    have body : Statement.Denotes (.block [st, .expression e]) _ :=
      ⟨_, ⟨p, _, hb, ⟨_, _, ⟨t, ht, rfl⟩, rfl, rfl⟩, rfl⟩, rfl⟩
    have loop : Statement.Denotes (.whileLoop _ _) _ := ⟨_, _, always, body, rfl⟩
    exact ⟨_, ⟨q, _, hq, ⟨_, _, loop, rfl, rfl⟩, rfl⟩, rfl⟩

/-- Statements and blocks are sound where less than `n` tokens are left. -/
structure Within (n : Nat) : Prop where
  statement : ∀ s, s.left < n →
    Sound (ReadsStatement s.inside) (Descent.step Unbounded.statement) s
  block : ∀ s, s.left < n →
    Sound (fun ts _ ss => ReadsBlock s.inside ts ss) (Descent.step Unbounded.block) s

namespace Within

section

variable (h : Within n) (hs : s.left < n + 1) (hne : s.current.kind ≠ .eof)
include h hs hne

lemma statement_after {t : Reading} (on : Onward s.pass t) :
    Sound (ReadsStatement s.inside) (Descent.step Unbounded.statement) t := by
  have hl := pass_left hne
  have left := on.left_le
  have same : t.inside = s.inside := on.inside
  rw [← same]
  exact h.statement t (by omega)

lemma block_after {t : Reading} (on : Onward s.pass t) :
    Sound (fun ts _ ss => ReadsBlock s.inside ts ss) (Descent.step Unbounded.block) t := by
  have hl := pass_left hne
  have left := on.left_le
  have same : t.inside = s.inside := on.inside
  rw [← same]
  exact h.block t (by omega)

end

section

variable (h : Within n) (hs : s.left < n + 1)
include h hs

lemma block_succ (hk : s.current.kind = .leftBrace) :
    Sound (fun ts => ReadsStatement s.inside (s.current :: ts)) (Descent.step do
      let body ← Unbounded.block
      return .block body) s.pass := by
  have hne : s.current.kind ≠ .eof := by simp [hk]
  simp only [Descent.step_bind]
  refine (h.block_after hs hne (.refl _)).bind fun ss t _ => .pure ?_
  rintro ts ⟨us, last, ⟨parts, derived, rfl, denotes⟩, closing, rfl⟩
  rw [List.append_nil]
  exact ⟨_, ⟨_, denotes, rfl⟩, fun _ _ => .block hk derived closing⟩

lemma branch_succ (hk : s.current.kind = .kwIf) :
    Sound (fun ts => ReadsStatement s.inside (s.current :: ts)) (Descent.step do
      let condition ← condition Unbounded.expression .ifOpen .ifClose
      let success ← Unbounded.statement
      let failure ← ifAt .kwElse Unbounded.statement
      return .branch condition success failure) s.pass := by
  have hne : s.current.kind ≠ .eof := by simp [hk]
  simp only [ifAt, Descent.step_bind]
  refine (condition_sound rfl rfl _).bind fun e t on => ?_
  refine (h.statement_after hs hne on).bind fun st u on' => ?_
  simp only [bind_assoc]
  refine .accept (by decide) (fun other => ?_) fun other => ?_
  · simp only [if_true, Descent.step_map, bind_assoc, pure_bind]
    have on : Onward s.pass u.pass := on.trans (on'.trans (.pass u))
    refine (h.statement_after hs hne on).bind fun st' v _ => .pure ?_
    rintro vs ⟨q, denotes'', derived''⟩ us ⟨p, denotes', derived'⟩ _
      ⟨ts, c, opening, closing, ho, derived, hc, rfl, denotes⟩
    refine ⟨_, ⟨c, p, some q, denotes, denotes', ⟨q, denotes'', rfl⟩, rfl⟩, fun d hd => ?_⟩
    have success := derived' false (.inl other)
    simpa using DerivesPhrase.branchElse hk ho derived hc success other (derived'' d hd)
  · refine .pure ?_
    rintro us ⟨p, denotes', derived'⟩ _ ⟨ts, c, opening, closing, ho, derived, hc, rfl, denotes⟩
    refine ⟨_, ⟨c, p, none, denotes, denotes', rfl, rfl⟩, fun d hd => ?_⟩
    obtain rfl : d = true := hd.resolve_left other
    simpa using DerivesPhrase.branch hk ho derived hc (derived' true (.inr rfl))

lemma whileLoop_succ (hk : s.current.kind = .kwWhile) :
    Sound (fun ts => ReadsStatement s.inside (s.current :: ts)) (Descent.step do
      let condition ← condition Unbounded.expression .whileOpen .whileClose
      let body ← Unbounded.statement
      return .whileLoop condition body) s.pass := by
  have hne : s.current.kind ≠ .eof := by simp [hk]
  simp only [Descent.step_bind]
  refine (condition_sound rfl rfl _).bind fun e t on => ?_
  refine (h.statement_after hs hne on).bind fun st u _ => .pure ?_
  rintro us ⟨p, denotes', derived'⟩ _ ⟨ts, c, opening, closing, ho, derived, hc, rfl, denotes⟩
  refine ⟨_, ⟨c, p, denotes, denotes', rfl⟩, fun d hd => ?_⟩
  simpa using DerivesPhrase.whileLoop hk ho derived hc (derived' d hd)

lemma forLoop_succ (hk : s.current.kind = .kwFor) :
    Sound (fun ts => ReadsStatement s.inside (s.current :: ts)) (Descent.step do
      let clauses ← forClauses Unbounded.expression
      let body ← Unbounded.statement
      return forStatement s.current.line clauses body) s.pass := by
  have hne : s.current.kind ≠ .eof := by simp [hk]
  simp only [forClauses, Descent.step_bind, bind_assoc, Descent.step_pure, pure_bind]
  refine .require fun opening => (forInitializer_sound _).bind fun i t on => ?_
  refine (maybe_sound .semicolon t).bind fun c u on' => .require fun semicolon => ?_
  refine (maybe_sound .rightParen u.pass).bind fun e v on'' => .require fun closing => ?_
  have on : Onward s.pass v.pass := (Onward.pass _).trans <| on.trans <| on'.trans <|
    (Onward.pass u).trans <| on''.trans (.pass v)
  refine (h.statement_after hs hne on).bind fun st w _ => .pure ?_
  rintro ws ⟨p, denotes, derived⟩ vs ⟨increment, hincrement, dincrement⟩ us
    ⟨condition, hcondition, dcondition⟩ ts ⟨initializer, hinitializer, dinitializer⟩
  refine ⟨_, forStatement_denotes dinitializer dcondition dincrement denotes, fun d hd => ?_⟩
  simpa using DerivesPhrase.forLoop hk opening hinitializer hcondition semicolon hincrement
    closing (derived d hd)

lemma stringLoop_succ (hk : s.current.kind = .kwLoop) :
    Sound (fun ts => ReadsStatement s.inside (s.current :: ts)) (Descent.step do
      let (name, iterable) ← loopHead Unbounded.expression
      let body ← Unbounded.statement
      return .stringLoop name iterable body) s.pass := by
  have hne : s.current.kind ≠ .eof := by simp [hk]
  simp only [loopHead, Descent.step_bind, bind_assoc, Descent.step_pure, pure_bind]
  refine .require fun opening => .require fun binder => .require fun name => ?_
  refine .require fun preposition => ?_
  refine (Unbounded.expression_sound _).bind fun e t on => .require fun closing => ?_
  have on : Onward s.pass t.pass := (Onward.pass _).trans <| (Onward.pass _).trans <|
    (Onward.pass _).trans <| (Onward.pass _).trans <| on.trans (.pass t)
  refine (h.statement_after hs hne on).bind fun st u _ => .pure ?_
  rintro us ⟨p, denotes', derived'⟩ ts ⟨c, derived, denotes⟩
  refine ⟨_, ⟨c, p, denotes, denotes', rfl⟩, fun d hd => ?_⟩
  simpa using DerivesPhrase.stringLoop hk opening binder name preposition derived closing
    (derived' d hd)

lemma statement_succ :
    Sound (ReadsStatement s.inside) (Descent.step Unbounded.statement) s := by
  rw [Unbounded.statement_eq, statementOf, Descent.step_bind]
  refine .current ?_
  split
  case h_1 hk =>
    rw [Descent.step_bind]
    exact .advance (by simp [hk]) (printStatement_sound _ hk s.pass)
  case h_2 hk =>
    rw [Descent.step_bind]
    exact .advance (by simp [hk]) (returnStatement_sound _ hk s.pass)
  case h_3 hk =>
    rw [Descent.step_bind]
    exact .advance (by simp [hk]) (h.block_succ hs hk)
  case h_4 hk =>
    rw [Descent.step_bind]
    exact .advance (by simp [hk]) (h.branch_succ hs hk)
  case h_5 hk =>
    rw [Descent.step_bind]
    exact .advance (by simp [hk]) (h.whileLoop_succ hs hk)
  case h_6 hk =>
    rw [Descent.step_bind]
    exact .advance (by simp [hk]) (h.forLoop_succ hs hk)
  case h_7 hk =>
    rw [Descent.step_bind]
    exact .advance (by simp [hk]) (h.stringLoop_succ hs hk)
  case h_8 =>
    refine (expressionStatement_sound s).mono ?_
    rintro ts u st ⟨p, derived, denotes⟩
    exact ⟨p, denotes, fun d _ => derived _ d⟩

end

end Within

/-- The names between the parentheses of a function, after `count` others. -/
def ReadsNames (count : Nat) (ts : List Token) (names : List Ident) : Prop :=
  ∃ tokens : List Token, (∀ t ∈ tokens, t.kind = .identifier) ∧
    Separated (tokens.map fun t => [t]) ts ∧ count + tokens.length ≤ arityLimit ∧
    names = tokens.map ident

lemma ReadsNames.one {count : Nat} {t : Token} (hc : count < arityLimit)
    (h : t.kind = .identifier) : ReadsNames count [t] [ident t] :=
  ⟨[t], by simpa using h, .one, hc, rfl⟩

lemma ReadsNames.more {count : Nat} {t comma : Token} {us : List Token} {names : List Ident}
    (h : t.kind = .identifier) (hc : comma.kind = .comma) (hn : names ≠ [])
    (k : ReadsNames (count + 1) us names) :
    ReadsNames count (t :: comma :: us) (ident t :: names) := by
  obtain ⟨tokens, kinds, separated, few, rfl⟩ := k
  refine ⟨t :: tokens, ?_, .cons hc (by simpa using hn) separated, ?_, rfl⟩
  · simpa using ⟨h, kinds⟩
  · simp only [List.length_cons]
    omega

lemma parameters_sound (count : Nat) (s : Reading) :
    Sound (fun ts _ names => names ≠ [] ∧ ReadsNames count ts names)
      (Descent.step (Unbounded.parameters count)) s := by
  induction hm : s.left using Nat.strongRecOn generalizing s count with
  | _ m ih =>
    simp only [Unbounded.parameters_eq count, parametersOf, Descent.step_bind]
    refine (Sound.limit count _).bind fun _ t on => .require fun name => ?_
    refine .accept (by decide) (fun comma => ?_) fun _ => ?_
    · simp only [if_true, Descent.step_bind]
      have fewer : t.pass.pass.left < m := by
        have hl := pass_left (show t.current.kind ≠ .eof by simp [name, Requirement.kind])
        have hp := (Onward.pass t.pass).left_le
        have left := on.left_le
        omega
      refine (ih _ fewer (count + 1) t.pass.pass rfl).bind fun others u _ => .pure ?_
      rintro us ⟨some, derived⟩ _ ⟨rfl, _⟩
      rw [List.append_nil]
      exact ⟨List.cons_ne_nil _ _, derived.more name comma some⟩
    · refine .pure ?_
      rintro _ ⟨rfl, few⟩
      exact ⟨List.cons_ne_nil _ _, .one few name⟩

lemma names_sound (s : Reading) : Sound (fun ts _ names => ReadsNames 0 ts names)
    (Descent.step (unlessAt .rightParen [] (Unbounded.parameters 0))) s := by
  simp only [unlessAt, Descent.step_bind]
  refine .sees ?_
  split
  · exact .pure ⟨[], by simp, .none, Nat.zero_le _, rfl⟩
  · exact (parameters_sound 0 s).mono fun ts _ names derived => derived.2

lemma insideFunction_sound {x : Reader α} {P : List Token → α → Prop}
    (h : Sound (fun ts _ a => P ts a) (Descent.step x) s.deeper) :
    Sound (fun ts _ a => P ts a) (Descent.step (insideFunction x)) s := by
  constructor
  · intro r u run
    cases hx : x s.deeper with
    | ok a t =>
      have run' : insideFunction x s = .ok a t.shallower := by simp only [insideFunction, hx]
      rw [Descent.step_ok run'] at run
      cases run
      exact (h.onward (Descent.step_ok hx)).shallower
    | error e t =>
      have run' : insideFunction x s = .error e t.shallower := by simp only [insideFunction, hx]
      rw [Descent.step_error run'] at run
      cases run
      exact (h.onward (Descent.step_error hx)).shallower
  · intro b u run quiet
    have run' := Descent.of_step_ok run
    simp only [insideFunction] at run'
    cases hx : x s.deeper with
    | ok a t =>
      rw [hx] at run'
      cases run'
      obtain ⟨ts, rest, derived⟩ := h.derives (Descent.step_ok hx) quiet
      exact ⟨ts, rest, derived⟩
    | error e t =>
      rw [hx] at run'
      cases run'

lemma recovering_sound {x : Reader α} {P : List Token → Reading → α → Prop}
    (h : Sound P (Descent.step x) s) :
    Sound (fun ts u o => ∃ a, o = some a ∧ P ts u a) (Descent.step (recovering x)) s := by
  cases hx : x s with
  | ok a t =>
    have run : recovering x s = .ok (some a) t := by simp only [recovering, hx]
    constructor
    · intro r u run'
      cases (Descent.step_ok run).symm.trans run'
      exact h.onward (Descent.step_ok hx)
    · intro b u run' quiet
      cases (Descent.step_ok run).symm.trans run'
      obtain ⟨ts, rest, derived⟩ := h.derives (Descent.step_ok hx) quiet
      exact ⟨ts, rest, a, rfl, derived⟩
  | error e t =>
    have run : recovering x s = .ok none (t.note e).resumed := by simp only [recovering, hx]
    have on := h.onward (Descent.step_error hx)
    constructor
    · intro r u run'
      cases (Descent.step_ok run).symm.trans run'
      exact (on.trans (.note t e)).trans (.resumed _)
    · intro b u run' quiet
      cases (Descent.step_ok run).symm.trans run'
      -- the mistake that was recovered from is recorded, so this run is not without mistakes
      have size := congrArg Array.size (on.quiet (.note t e) quiet).2
      simp [Reading.note] at size

lemma declaration_sound (h : Within n) (hs : s.left < n + 1) :
    Sound (Reads (DerivesPhrase (.declaration s.inside)))
      (Descent.step Unbounded.declaration) s := by
  rw [Unbounded.declaration_eq, declarationOf, Descent.step_bind]
  refine .accept (by decide) (fun keyword => ?_) fun _ => ?_
  · have hne : s.current.kind ≠ .eof := by simp [keyword]
    have hl := pass_left hne
    simp only [if_true, functionHead, Descent.step_bind, bind_assoc, Descent.step_pure, pure_bind]
    refine .require fun name => .require fun opening => (names_sound _).bind fun names t on => ?_
    refine .require fun closing => .require fun brace => ?_
    have left : t.pass.pass.left ≤ s.pass.left :=
      ((Onward.pass _).trans ((Onward.pass _).trans (on.trans
        ((Onward.pass t).trans (.pass _))))).left_le
    have body := h.block t.pass.pass.deeper (show t.pass.pass.left < n by omega)
    refine (insideFunction_sound body).bind fun ss u _ => .pure ?_
    rintro _ ⟨us, last, ⟨parts, derived, rfl, denotes⟩, end_brace, rfl⟩ ts
      ⟨tokens, kinds, separated, few, rfl⟩
    refine ⟨_, ?_, ⟨_, denotes, rfl⟩⟩
    simpa using DerivesPhrase.declareFun keyword name opening kinds separated (by simpa using few)
      closing brace derived end_brace
  · simp only [Bool.false_eq_true, if_false, Descent.step_bind]
    refine .accept (by decide) (fun keyword => ?_) fun _ => ?_
    · simp only [if_true]
      refine (variableDeclaration_sound _).mono ?_
      rintro ts u st ⟨p, derived, denotes⟩
      exact ⟨p, .declareVar keyword derived, denotes⟩
    · simp only [Bool.false_eq_true, if_false]
      refine (h.statement_succ hs).mono ?_
      rintro ts u st ⟨p, denotes, derived⟩
      exact ⟨p, .statement (derived true (.inr rfl)), denotes⟩

lemma ReadsAll.nil {inside : Bool} : ReadsAll inside [] [] :=
  ⟨[], by simp, rfl, rfl⟩

lemma ReadsAll.cons {inside : Bool} {ts us : List Token} {p : Phrase} {st : Statement}
    {ss : List Statement} (h : DerivesPhrase (.declaration inside) ts p) (hd : st.Denotes p)
    (k : ReadsAll inside us ss) : ReadsAll inside (ts ++ us) (st :: ss) := by
  obtain ⟨parts, derived, rfl, denotes⟩ := k
  refine ⟨(ts, p) :: parts, ?_, by simp, _, _, hd, denotes, rfl⟩
  simpa using ⟨h, fun a b hab => derived (a, b) hab⟩

lemma declarations_sound (h : Within n) (inBlock : Bool) (hs : s.left < n + 1) :
    Sound (fun ts _ ss => ReadsAll s.inside ts ss)
      (Descent.step (Unbounded.declarations inBlock)) s := by
  induction hm : s.left using Nat.strongRecOn generalizing s with
  | _ m ih =>
    rw [Unbounded.declarations_eq, declarationsOf, Descent.step_bind]
    refine .sees ?_
    rw [Descent.step_bind]
    refine .sees ?_
    split
    · exact .pure .nil
    · next goesOn =>
      have hne : s.current.kind ≠ .eof := by
        intro he
        simp [he] at goesOn
      have goes : Goes 1 (recovering Unbounded.declaration) s :=
        (recovering_alikeAt hne
          (declaration_unbounded (Nat.le_refl _) s (Nat.lt_succ_self _))).2
      rw [Descent.step_bind]
      refine (recovering_sound (declaration_sound h hs)).bind_run fun o t run => ?_
      have passed := goes.ok (Descent.of_step_ok run)
      have others := ih t.left (by omega) (show t.left < n + 1 by omega) rfl
      rw [passed.1.inside] at others
      cases o with
      | some st =>
        simp only [Descent.step_bind]
        refine others.bind fun ss u _ => .pure ?_
        rintro us rest ts ⟨_, ⟨⟩, p, derived, denotes⟩
        rw [List.append_nil]
        exact rest.cons derived denotes
      | none =>
        refine others.mono ?_
        rintro _ _ _ _ _ ⟨_, ⟨⟩, _⟩

lemma block_sound (h : Within n) (hs : s.left < n + 1) :
    Sound (fun ts _ ss => ReadsBlock s.inside ts ss) (Descent.step Unbounded.block) s := by
  rw [Unbounded.block_eq, blockOf, Descent.step_bind]
  refine (declarations_sound h true hs).bind fun ss t _ => ?_
  simp only [Descent.step_bind]
  refine .require fun closing => .pure fun ts all => ?_
  exact ⟨ts, _, all, closing, rfl⟩

lemma within (n : Nat) : Within n := by
  induction n with
  | zero => exact ⟨fun s hs => absurd hs (Nat.not_lt_zero _),
      fun s hs => absurd hs (Nat.not_lt_zero _)⟩
  | succ n h => exact ⟨fun s hs => h.statement_succ hs, fun s hs => block_sound h hs⟩

/-- Wherever reading stands, declarations that are read without a mistake are derived. -/
lemma Unbounded.declarations_sound (inBlock : Bool) (s : Reading) :
    Sound (fun ts _ ss => ReadsAll s.inside ts ss)
      (Descent.step (Unbounded.declarations inBlock)) s :=
  Lox.declarations_sound (within s.left) inBlock (Nat.lt_succ_self _)

end Lox
