import Lox.Proofs.Derivation.Concatenation
import Lox.Proofs.Reading.ArenasRules

/-!
What holds of every expression that is read without a mistake, holds of every expression that is
written in a program. Only one expression is never read: the condition that a `for` may leave out.
-/

namespace Lox

open Reading Reader

/-- A property of every expression that is written in a statement. -/
inductive Statement.Everywhere (P : Expression → Prop) : Statement → Prop
  | of {st : Statement} : (∀ e, st.subject? = some e → P e) →
    (∀ part ∈ st.parts, part.Everywhere P) → Everywhere P st

namespace Statement.Everywhere

variable {P : Expression → Prop} {st : Statement} {e : Expression}

lemma subject (h : st.Everywhere P) (found : st.subject? = some e) : P e := by
  obtain ⟨subject, -⟩ := h
  exact subject e found

lemma parts (h : st.Everywhere P) : ∀ part ∈ st.parts, part.Everywhere P := by
  obtain ⟨-, parts⟩ := h
  exact parts

/-- A statement that is made of no others. -/
lemma plain (subject : ∀ e, st.subject? = some e → P e) (alone : st.parts = []) :
    st.Everywhere P := by
  constructor
  · exact subject
  · simp [alone]

lemma block {body : List Statement} (h : ∀ st ∈ body, st.Everywhere P) :
    (Statement.block body).Everywhere P :=
  .of nofun h

lemma whileLoop {body : Statement} (he : P e) (h : body.Everywhere P) :
    (Statement.whileLoop e body).Everywhere P := by
  constructor
  · rintro _ ⟨⟩
    exact he
  · exact List.forall_mem_singleton.mpr h

lemma pair {st' : Statement} (h : st.Everywhere P) (h' : st'.Everywhere P) :
    (Statement.block [st, st']).Everywhere P := by
  refine block fun other within => ?_
  rcases List.mem_pair.mp within with rfl | rfl
  · exact h
  · exact h'

end Statement.Everywhere

namespace Reader

variable {α β : Type} {P : α → Prop} {Q : β → Prop} {p : Prop} {x : Reader α}

/-- What a reader yields, where it records no mistake, has a property, if a condition holds. -/
abbrev Ensures (p : Prop) (P : α → Prop) (x : Reader α) : Prop :=
  Builds (fun _ => p) (fun a _ => P a) x

/-- The condition under which a reader is run still holds behind it. -/
lemma Builds.carry (h : Ensures True P x) : Ensures p (fun a => p ∧ P a) x :=
  ⟨h.goes, fun run quiet before => ⟨before, h.builds run quiet trivial⟩⟩

lemma Builds.option (h : Ensures p P x) :
    Ensures p (fun found => ∀ a, found = some a → P a) (some <$> x) := by
  refine h.map fun a _ holds => ?_
  rintro _ ⟨⟩
  exact holds

/-- What may be left out. -/
lemma Builds.optional (kind : TokenKind) (h : Ensures True P x) :
    Ensures p (fun found => p ∧ ∀ a, found = some a → P a)
      (Reader.unlessAt kind none (some <$> x)) :=
  (Builds.unlessAt kind (fun _ _ => nofun) h.option).carry

/-- What may follow a token. -/
lemma Builds.following (kind : TokenKind) (h : Ensures True P x) :
    Ensures p (fun found => p ∧ ∀ a, found = some a → P a) (Reader.ifAt kind x) := by
  refine (Builds.ifAt kind (fun _ _ => nofun) (h.mono (fun _ => id) ?_)).carry
  rintro a _ holds _ ⟨⟩
  exact holds

end Reader

namespace Grammar

variable {P : Expression → Prop}

section Rules

variable {expression : Reader Expression} {statement : Reader Statement}
  {block others : Reader (List Statement)} {parameters : Reader (List Ident)}

section

variable (h : Ensures True P expression)
include h

lemma expressionStatement_ensures :
    Ensures True (Statement.Everywhere P) (expressionStatement expression) := by
  refine h.bind fun e => (Builds.require _).bind fun _ => .pure fun _ holds => ?_
  refine .plain ?_ rfl
  rintro _ ⟨⟩
  exact holds

lemma printStatement_ensures :
    Ensures True (Statement.Everywhere P) (printStatement expression) := by
  refine h.bind fun e => (Builds.require _).bind fun _ => .pure fun _ holds => ?_
  refine .plain ?_ rfl
  rintro _ ⟨⟩
  exact holds

lemma variableDeclaration_ensures :
    Ensures True (Statement.Everywhere P) (variableDeclaration expression) := by
  refine (Builds.require _).bind fun name => (Builds.following _ h).bind fun initial => ?_
  exact (Builds.require _).bind fun _ => .pure fun _ holds => .plain holds.2 rfl

/-- Outside of functions a mistake is recorded, and nothing is said. -/
lemma returnStatement_ensures (keyword : Token) :
    Ensures True (Statement.Everywhere P) (returnStatement expression keyword) := by
  have inside : Ensures True (fun _ => True) (checkInside keyword) := by
    refine Builds.get.bind fun s => ?_
    split
    · exact (Builds.record _).mono (fun _ _ => trivial) fun _ _ _ => trivial
    · exact .pure fun _ _ => trivial
  refine inside.bind fun _ => (Builds.optional _ h).bind fun value => ?_
  exact (Builds.require _).bind fun _ => .pure fun _ holds => .plain holds.2 rfl

lemma condition_ensures (opening closing : Requirement) :
    Ensures True P (condition expression opening closing) :=
  (Builds.require _).bind fun _ => h.bind fun _ => (Builds.require _).bind fun _ =>
    .pure fun _ => id

lemma forInitializer_ensures :
    Ensures True (fun found => ∀ st, found = some st → Statement.Everywhere P st)
      (forInitializer expression) := by
  refine (Builds.accept _).bind fun none => ?_
  split
  · exact .pure fun _ _ => nofun
  · refine (Builds.accept _).bind fun var => ?_
    split
    · exact (variableDeclaration_ensures h).option
    · exact (expressionStatement_ensures h).option

lemma loopHead_ensures : Ensures True (fun head => P head.2) (loopHead expression) := by
  refine (Builds.require _).bind fun _ => (Builds.require _).bind fun _ => ?_
  refine (Builds.require _).bind fun name => (Builds.require _).bind fun _ => ?_
  exact h.bind fun iterable => (Builds.require _).bind fun _ => .pure fun _ => id

/-- A property of the expressions in the clauses of a `for`. -/
structure ForClauses.Everywhere (P : Expression → Prop) (clauses : ForClauses) : Prop where
  initializer : ∀ st, clauses.initializer = some st → st.Everywhere P
  condition : ∀ e, clauses.condition = some e → P e
  increment : ∀ e, clauses.increment = some e → P e

lemma forClauses_ensures : Ensures True (ForClauses.Everywhere P) (forClauses expression) := by
  refine (Builds.require _).bind fun _ => (forInitializer_ensures h).bind fun initial => ?_
  refine (Builds.optional _ h).bind fun condition => (Builds.require _).bind fun _ => ?_
  refine (Builds.optional _ h).bind fun increment => (Builds.require _).bind fun _ => ?_
  exact .pure fun _ holds => ⟨holds.1.1, holds.1.2, holds.2⟩

end

/-- The condition of a `for` that has none. -/
def always (line : Nat) : Expression :=
  .single (.atom (.bool true) line)

lemma forStatement_everywhere {line : Nat} (hl : P (always line)) {clauses : ForClauses}
    (h : clauses.Everywhere P) {body : Statement} (hb : body.Everywhere P) :
    (forStatement line clauses body).Everywhere P := by
  obtain ⟨initializer, condition, increment⟩ := clauses
  obtain ⟨first, second, third⟩ := h
  have cond : P (condition.getD (always line)) := by
    cases condition with
    | none => exact hl
    | some e => exact second e rfl
  have loop : (forStatement line ⟨none, condition, increment⟩ body).Everywhere P := by
    cases increment with
    | none => exact .whileLoop cond hb
    | some e =>
      refine .whileLoop cond (.pair hb (.plain ?_ rfl))
      rintro _ ⟨⟩
      exact third e rfl
  cases initializer with
  | none => exact loop
  | some initial => exact .pair (first initial rfl) loop

section

variable (hl : ∀ line, P (always line)) (he : Ensures True P expression)
  (hs : Ensures True (Statement.Everywhere P) statement)
  (hb : Ensures True (fun body => ∀ st ∈ body, Statement.Everywhere P st) block)
include hl he hs hb

lemma statementOf_ensures :
    Ensures True (Statement.Everywhere P) (statementOf expression statement block) := by
  refine Builds.current.bind fun t => ?_
  split
  case h_1 => exact Builds.advance.bind fun _ => printStatement_ensures he
  case h_2 => exact Builds.advance.bind fun _ => returnStatement_ensures he t
  case h_3 => exact Builds.advance.bind fun _ => hb.bind fun body => .pure fun _ => .block
  case h_4 =>
    refine Builds.advance.bind fun _ => (condition_ensures he _ _).bind fun cond => ?_
    refine hs.carry.bind fun success => (Builds.following _ hs).bind fun failure => ?_
    refine .pure fun _ holds => ?_
    obtain ⟨⟨first, second⟩, third⟩ := holds
    constructor
    · rintro _ ⟨⟩
      exact first
    · cases failure with
      | none => exact List.forall_mem_singleton.mpr second
      | some failure =>
        exact List.forall_mem_cons.mpr
          ⟨second, List.forall_mem_singleton.mpr (third failure rfl)⟩
  case h_5 =>
    refine Builds.advance.bind fun _ => (condition_ensures he _ _).bind fun cond => ?_
    exact hs.carry.bind fun body => .pure fun _ holds => .whileLoop holds.1 holds.2
  case h_6 =>
    refine Builds.advance.bind fun _ => (forClauses_ensures he).bind fun clauses => ?_
    exact hs.carry.bind fun body => .pure fun _ holds =>
      forStatement_everywhere (hl t.line) holds.1 holds.2
  case h_7 =>
    refine Builds.advance.bind fun _ => (loopHead_ensures he).bind fun head => ?_
    refine hs.carry.bind fun body => .pure fun _ holds => ?_
    constructor
    · rintro _ ⟨⟩
      exact holds.1
    · exact List.forall_mem_singleton.mpr holds.2
  case h_8 => exact expressionStatement_ensures he

end

lemma blockOf_ensures
    (ho : Ensures True (fun body => ∀ st ∈ body, Statement.Everywhere P st) others) :
    Ensures True (fun body => ∀ st ∈ body, Statement.Everywhere P st) (blockOf others) :=
  ho.bind fun _ => (Builds.require _).bind fun _ => .pure fun _ => id

/-- Names carry no expressions. -/
lemma parametersOf_ensures {names : Reader (List Ident)} (hp : Ensures True (fun _ => True) names)
    (count : Nat) : Ensures True (fun _ => True) (parametersOf names count) := by
  refine (Builds.limit _ _).bind fun _ => (Builds.require _).bind fun parameter => ?_
  refine (Builds.accept _).bind fun comma => ?_
  split
  · exact hp.bind fun _ => .pure fun _ _ => trivial
  · exact .pure fun _ _ => trivial

lemma parameters_ensures (depth count : Nat) :
    Ensures True (fun _ => True) (Grammar.parameters depth count) := by
  induction depth generalizing count with
  | zero =>
    rw [Grammar.parameters]
    exact .fail _
  | succ depth ih =>
    rw [Grammar.parameters]
    exact parametersOf_ensures (ih (count + 1)) count

lemma functionHead_ensures (hp : Ensures True (fun _ => True) parameters) :
    Ensures True (fun _ => True) (functionHead parameters) := by
  refine (Builds.require _).bind fun name => (Builds.require _).bind fun _ => ?_
  refine (Builds.unlessAt _ (fun _ _ => trivial) hp).bind fun names => ?_
  exact (Builds.require _).bind fun _ => (Builds.require _).bind fun _ => .pure fun _ _ => trivial

lemma declarationOf_ensures (he : Ensures True P expression)
    (hp : Ensures True (fun _ => True) parameters)
    (hs : Ensures True (Statement.Everywhere P) statement)
    (hb : Ensures True (fun body => ∀ st ∈ body, Statement.Everywhere P st) block) :
    Ensures True (Statement.Everywhere P)
      (declarationOf expression parameters statement block) := by
  refine (Builds.accept _).bind fun function => ?_
  split
  · refine (functionHead_ensures hp).bind fun head => (Builds.insideFunction hb).bind fun body => ?_
    exact .pure fun _ holds => .of (fun _ => nofun) holds
  · refine (Builds.accept _).bind fun var => ?_
    split
    · exact variableDeclaration_ensures he
    · exact hs

lemma declarationsOf_ensures (hd : Ensures True (Statement.Everywhere P) statement)
    (ho : Ensures True (fun body => ∀ st ∈ body, Statement.Everywhere P st) others)
    (inBlock : Bool) :
    Ensures True (fun body => ∀ st ∈ body, Statement.Everywhere P st)
      (declarationsOf statement others inBlock) := by
  refine (Builds.sees _).bind fun atEnd => (Builds.sees _).bind fun closed => ?_
  split
  · exact .pure fun _ _ => List.forall_mem_nil _
  · have recovers : Ensures True (fun found => ∀ st, found = some st → Statement.Everywhere P st)
        (recovering statement) := by
      refine Builds.recovering (hd.mono (fun _ => id) ?_)
      rintro a _ holds _ ⟨⟩
      exact holds
    refine recovers.bind fun found => ?_
    split
    · next st =>
      refine ho.carry.bind fun others => .pure fun _ holds => ?_
      exact List.forall_mem_cons.mpr ⟨holds.1 st rfl, holds.2⟩
    · exact ho.mono (fun _ _ => trivial) fun _ _ => id

end Rules

/-- At every depth, the expressions in what is read have a property. -/
structure StatementsEnsure (P : Expression → Prop) (depth : Nat) : Prop where
  statement : Ensures True (Statement.Everywhere P) (statement depth)
  declaration : Ensures True (Statement.Everywhere P) (declaration depth)
  block : Ensures True (fun body => ∀ st ∈ body, Statement.Everywhere P st) (block depth)
  declarations : ∀ inBlock,
    Ensures True (fun body => ∀ st ∈ body, Statement.Everywhere P st) (declarations depth inBlock)

lemma statementsEnsure (hl : ∀ line, P (always line))
    (he : ∀ depth, Ensures True P (Grammar.expression depth)) (depth : Nat) :
    StatementsEnsure P depth := by
  induction depth with
  | zero =>
    constructor
    · rw [Grammar.statement]
      exact .fail _
    · rw [declaration]
      exact .fail _
    · rw [Grammar.block]
      exact .fail _
    · intro inBlock
      rw [declarations]
      exact .pure fun _ _ => List.forall_mem_nil _
  | succ depth ih =>
    constructor
    · rw [Grammar.statement]
      exact statementOf_ensures hl (he depth) ih.statement ih.block
    · rw [declaration]
      exact declarationOf_ensures (he depth) (parameters_ensures depth 0) ih.statement ih.block
    · rw [Grammar.block]
      exact blockOf_ensures (ih.declarations true)
    · intro inBlock
      rw [declarations]
      exact declarationsOf_ensures ih.declaration (ih.declarations inBlock) inBlock

end Grammar

/-- A property of all expressions that are read without a mistake, and of the condition of a `for`
that has none, is one of all expressions that are written in a program. -/
theorem Statement.Written.everywhere {P : Expression → Prop} (hl : ∀ line, P (Grammar.always line))
    (he : ∀ depth, Ensures True P (Grammar.expression depth)) {st : Statement} (h : st.Written) :
    st.Everywhere P := by
  induction h with
  | @top text ss st read within =>
    obtain ⟨ts, q, tokens, -⟩ := Scan.tokens_items text
    have run := Source.declarations_of_program read tokens
    exact ((Grammar.statementsEnsure hl he _).declarations false).builds run rfl trivial st within
  | part _ within ih => exact ih.parts _ within

end Lox
