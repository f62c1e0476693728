import Lox.Grammar.Statement
import Lox.Proofs.Reading.Rules

/-!
The rules of the grammar as ways to put readers together. What single steps have in common, and what
is kept where readers are put together, all rules keep: this is shown here once, for any relation
between two readers.
-/

namespace Lox

open Reading Reader

namespace Grammar

/-- The rules that call one another. An attempt is at a declaration, and recovers from a mistake in
it. -/
inductive Rule
  | operand
  | operation (power : Nat)
  | continuations (power : Nat) (lhs : NodeRef)
  | arguments (count : Nat)
  | expression
  | parameters (count : Nat)
  | statement
  | declaration
  | attempt
  | block
  | declarations (inBlock : Bool)

/-- What is read by a rule. -/
abbrev Rule.Result : Rule → Type
  | .operand | .operation _ | .continuations _ _ => NodeRef
  | .arguments _ => List NodeRef
  | .expression => Expression
  | .parameters _ => List Ident
  | .statement | .declaration => Statement
  | .attempt => Option Statement
  | .block | .declarations _ => List Statement

/-- A reader for each of the rules. -/
abbrev Readers :=
  (rule : Rule) → Reader rule.Result

/-- Declarations up to the end, or up to the brace that closes a block, from what attempts one. -/
def declarationsFrom (attempt : Reader (Option Statement)) (others : Reader (List Statement))
    (inBlock : Bool) : Reader (List Statement) := do
  if (← sees .eof) || (inBlock && (← sees .rightBrace)) then return []
  else
    match ← attempt with
    | some statement =>
      let others ← others
      return statement :: others
    | none => others

/-- What the rules read if they call the given readers. -/
def Readers.body (R : Readers) : Readers
  | .operand => operandOf fun power => R (.operation power)
  | .operation power => do
    let lhs ← R .operand
    R (.continuations power lhs)
  | .continuations power lhs => continuationsOf (fun power => R (.operation power))
    (R (.arguments 0)) (fun lhs => R (.continuations power lhs)) power lhs
  | .arguments count =>
    argumentsOf (fun power => R (.operation power)) (R (.arguments (count + 1))) count
  | .expression => expressionOf fun power => R (.operation power)
  | .parameters count => parametersOf (R (.parameters (count + 1))) count
  | .statement => statementOf (R .expression) (R .statement) (R .block)
  | .declaration =>
    declarationOf (R .expression) (R (.parameters 0)) (R .statement) (R .block)
  | .attempt => recovering (R .declaration)
  | .block => blockOf (R (.declarations true))
  | .declarations inBlock =>
    declarationsFrom (R .attempt) (R (.declarations inBlock)) inBlock

/-- The readers of a depth. -/
def readersAt (depth : Nat) : Readers
  | .operand => operand depth
  | .operation power => operation depth power
  | .continuations power lhs => continuations depth power lhs
  | .arguments count => arguments depth count
  | .expression => expression depth
  | .parameters count => parameters depth count
  | .statement => statement depth
  | .declaration => declaration depth
  | .attempt => recovering (declaration depth)
  | .block => block depth
  | .declarations inBlock => declarations depth inBlock

end Grammar

namespace Reader

/-- A relation between readers that holds of single steps, and is kept where readers are put
together. Of a state, readers look only at the current token, the nodes and the depth of
functions. -/
structure Composes (J : ∀ {α : Type}, Reader α → Reader α → Prop) : Prop where
  pure {α : Type} (a : α) : J (pure a) (pure a)
  bind {α β : Type} {x y : Reader α} {f g : α → Reader β} :
    J x y → (∀ a, J (f a) (g a)) → J (x >>= f) (y >>= g)
  throw {α : Type} (e : SyntaxError) : J (throw e : Reader α) (throw e)
  current : J current current
  advance : J advance advance
  record (e : SyntaxError) : J (record e) (record e)
  push (node : Node) : J (push node) (push node)
  look {α : Type} {f g : Reading → Reader α} : (∀ s, J (f s) (g s)) →
    (∀ s t : Reading, s.nodes = t.nodes → s.functionDepth = t.functionDepth →
      f s = f t ∧ g s = g t) → J (get >>= f) (get >>= g)
  bare : J (modify Reading.bare : Reader Unit) (modify Reading.bare)
  take (root : NodeRef) : J (modifyGet fun s => (⟨s.nodes, root⟩, s.bare) : Reader Expression)
    (modifyGet fun s => (⟨s.nodes, root⟩, s.bare))
  insideFunction {α : Type} {x y : Reader α} : J x y → J (insideFunction x) (insideFunction y)
  recovering {α : Type} {x y : Reader α} : J x y → J (recovering x) (recovering y)

namespace Composes

variable {J : ∀ {α : Type}, Reader α → Reader α → Prop} {α β : Type} {x y : Reader α}

section

variable (c : Composes J)
include c

lemma map (f : α → β) (h : J x y) : J (f <$> x) (f <$> y) := by
  rw [map_eq_pure_bind, map_eq_pure_bind]
  exact c.bind h fun a => c.pure (f a)

lemma fail (cause : TokenKind → SyntaxError.Cause) : J (fail (α := α) cause) (fail cause) :=
  c.bind c.current fun _ => c.throw _

lemma sees (kind : TokenKind) : J (sees kind) (sees kind) :=
  c.bind c.current fun _ => c.pure _

lemma accept (kind : TokenKind) : J (accept kind) (accept kind) := by
  refine c.bind (c.sees kind) fun seen => ?_
  split
  · exact c.bind c.advance fun _ => c.pure true
  · exact c.pure false

lemma require (what : Requirement) : J (require what) (require what) := by
  refine c.bind (c.sees what.kind) fun seen => ?_
  split
  · exact c.advance
  · exact c.fail _

lemma limit (count : Nat) (cause : SyntaxError.Cause) :
    J (limit count cause) (limit count cause) := by
  unfold Reader.limit
  split
  · exact c.bind c.current fun t => c.record _
  · exact c.pure ()

lemma unlessAt (kind : TokenKind) (otherwise : α) (h : J x y) :
    J (unlessAt kind otherwise x) (unlessAt kind otherwise y) := by
  refine c.bind (c.sees kind) fun seen => ?_
  split
  · exact c.pure otherwise
  · exact h

lemma ifAt (kind : TokenKind) (h : J x y) : J (ifAt kind x) (ifAt kind y) := by
  refine c.bind (c.accept kind) fun seen => ?_
  split
  · exact c.map some h
  · exact c.pure none

end

end Composes

end Reader

namespace Grammar

/-- Mistakes are recovered from, so reading declarations never fails. -/
lemma declarations_ok (depth : Nat) (inBlock : Bool) (s : Reading) :
    ∃ ss t, declarations depth inBlock s = .ok ss t := by
  induction depth generalizing s with
  | zero => exact ⟨[], s, rfl⟩
  | succ depth ih =>
    rw [declarations, declarationsOf, bind_sees, bind_sees]
    split
    · exact ⟨[], s, rfl⟩
    · have attempt : ∃ found t, recovering (declaration depth) s = .ok found t := by
        cases h : declaration depth s with
        | ok st t => exact ⟨_, _, recovering_ok h⟩
        | error e t => exact ⟨_, _, recovering_error h⟩
      obtain ⟨found, t, attempt⟩ := attempt
      obtain ⟨others, u, run⟩ := ih t
      rw [bind_ok attempt]
      cases found with
      | none => exact ⟨others, u, run⟩
      | some st => exact ⟨st :: others, u, bind_ok run⟩

end Grammar

namespace Grammar

variable {J : ∀ {α : Type}, Reader α → Reader α → Prop} (c : Composes J)
include c

section Expressions

variable {operation operation' : Nat → Reader NodeRef}
  (h : ∀ power, J (operation power) (operation' power))
include h

lemma operandOf_composes : J (operandOf operation) (operandOf operation') := by
  refine c.bind c.current fun t => ?_
  split
  case h_9 =>
    refine c.bind c.advance fun _ => c.bind (c.require _) fun _ => ?_
    exact c.bind (h 0) fun _ => c.bind (c.require _) fun _ => c.push _
  case h_10 =>
    refine c.bind c.advance fun _ => c.bind (c.require _) fun _ => ?_
    refine c.bind (h 0) fun _ => c.bind (c.require _) fun _ => ?_
    refine c.bind (h 0) fun _ => c.bind (c.require _) fun _ => ?_
    exact c.bind (h 0) fun _ => c.bind (c.require _) fun _ => c.push _
  case h_11 | h_12 => exact c.bind c.advance fun _ => c.bind (h _) fun _ => c.push _
  case h_13 =>
    refine c.bind c.advance fun _ => c.bind (h 0) fun _ => ?_
    exact c.bind (c.require _) fun _ => c.push _
  case h_14 => exact c.fail _
  all_goals exact c.bind c.advance fun _ => c.push _

variable {arguments arguments' : Reader (List NodeRef)} (ha : J arguments arguments')
include ha

lemma continuedOf_composes (next : Continuation) (t : Token) (lhs : NodeRef) :
    J (continuedOf operation arguments next t lhs)
      (continuedOf operation' arguments' next t lhs) := by
  cases next with
  | call => exact c.bind (c.unlessAt _ _ ha) fun _ => c.bind (c.require _) fun _ => c.push _
  | binary op | logical op => exact c.bind (h _) fun _ => c.push _
  | assign =>
    refine c.bind (h _) fun rhs => c.look (fun s => ?_) fun s t nodes _ => ?_
    · split
      · exact c.push _
      · exact c.bind (c.record _) fun _ => c.pure lhs
    · simp only [nodes, and_self]

lemma continuationsOf_composes {again again' : NodeRef → Reader NodeRef}
    (hg : ∀ lhs, J (again lhs) (again' lhs)) (power : Nat) (lhs : NodeRef) :
    J (continuationsOf operation arguments again power lhs)
      (continuationsOf operation' arguments' again' power lhs) := by
  refine c.bind c.current fun t => ?_
  split
  · exact c.pure lhs
  · split
    · exact c.pure lhs
    · exact c.bind c.advance fun _ => c.bind (continuedOf_composes c h ha _ t lhs) hg

lemma argumentsOf_composes (count : Nat) :
    J (argumentsOf operation arguments count) (argumentsOf operation' arguments' count) := by
  refine c.bind (c.limit _ _) fun _ => c.bind (h 0) fun argument => ?_
  refine c.bind (c.accept _) fun comma => ?_
  split
  · exact c.bind ha fun _ => c.pure _
  · exact c.pure _

omit ha in
lemma expressionOf_composes : J (expressionOf operation) (expressionOf operation') :=
  c.bind c.bare fun _ => c.bind (h 0) c.take

end Expressions

section Statements

variable {expression expression' : Reader Expression} {statement statement' : Reader Statement}
  {block block' others others' : Reader (List Statement)}
  {parameters parameters' : Reader (List Ident)}

section

variable (h : J expression expression')
include h

lemma expressionStatement_composes :
    J (expressionStatement expression) (expressionStatement expression') :=
  c.bind h fun _ => c.bind (c.require _) fun _ => c.pure _

lemma printStatement_composes : J (printStatement expression) (printStatement expression') :=
  c.bind h fun _ => c.bind (c.require _) fun _ => c.pure _

lemma variableDeclaration_composes :
    J (variableDeclaration expression) (variableDeclaration expression') :=
  c.bind (c.require _) fun _ => c.bind (c.ifAt _ h) fun _ => c.bind (c.require _) fun _ => c.pure _

lemma returnStatement_composes (keyword : Token) :
    J (returnStatement expression keyword) (returnStatement expression' keyword) := by
  have inside : J (checkInside keyword) (checkInside keyword) := by
    refine c.look (fun s => ?_) fun s t _ depth => ?_
    · split
      · exact c.record _
      · exact c.pure ()
    · simp only [depth, and_self]
  refine c.bind inside fun _ => c.bind (c.unlessAt _ _ (c.map some h)) fun _ => ?_
  exact c.bind (c.require _) fun _ => c.pure _

lemma condition_composes (opening closing : Requirement) :
    J (condition expression opening closing) (condition expression' opening closing) :=
  c.bind (c.require _) fun _ => c.bind h fun _ => c.bind (c.require _) fun _ => c.pure _

lemma forInitializer_composes : J (forInitializer expression) (forInitializer expression') := by
  refine c.bind (c.accept _) fun none => ?_
  split
  · exact c.pure _
  · refine c.bind (c.accept _) fun var => ?_
    split
    · exact c.map some (variableDeclaration_composes c h)
    · exact c.map some (expressionStatement_composes c h)

lemma forClauses_composes : J (forClauses expression) (forClauses expression') := by
  have clause (kind : TokenKind) : J (unlessAt kind none (some <$> expression))
      (unlessAt kind none (some <$> expression')) := c.unlessAt kind none (c.map some h)
  refine c.bind (c.require _) fun _ => c.bind (forInitializer_composes c h) fun _ => ?_
  refine c.bind (clause _) fun _ => c.bind (c.require _) fun _ => ?_
  exact c.bind (clause _) fun _ => c.bind (c.require _) fun _ => c.pure _

lemma loopHead_composes : J (loopHead expression) (loopHead expression') := by
  refine c.bind (c.require _) fun _ => c.bind (c.require _) fun _ => ?_
  refine c.bind (c.require _) fun _ => c.bind (c.require _) fun _ => ?_
  exact c.bind h fun _ => c.bind (c.require _) fun _ => c.pure _

end

lemma parametersOf_composes (h : J parameters parameters') (count : Nat) :
    J (parametersOf parameters count) (parametersOf parameters' count) := by
  refine c.bind (c.limit _ _) fun _ => c.bind (c.require _) fun parameter => ?_
  refine c.bind (c.accept _) fun comma => ?_
  split
  · exact c.bind h fun _ => c.pure _
  · exact c.pure _

lemma functionHead_composes (h : J parameters parameters') :
    J (functionHead parameters) (functionHead parameters') := by
  refine c.bind (c.require _) fun _ => c.bind (c.require _) fun _ => ?_
  refine c.bind (c.unlessAt _ _ h) fun _ => c.bind (c.require _) fun _ => ?_
  exact c.bind (c.require _) fun _ => c.pure _

section

variable (he : J expression expression') (hs : J statement statement') (hb : J block block')
include he hs hb

lemma statementOf_composes :
    J (statementOf expression statement block) (statementOf expression' statement' block') := by
  refine c.bind c.current fun t => ?_
  split
  case h_1 => exact c.bind c.advance fun _ => printStatement_composes c he
  case h_2 => exact c.bind c.advance fun _ => returnStatement_composes c he t
  case h_3 => exact c.bind c.advance fun _ => c.bind hb fun _ => c.pure _
  case h_4 =>
    refine c.bind c.advance fun _ => c.bind (condition_composes c he _ _) fun _ => ?_
    exact c.bind hs fun _ => c.bind (c.ifAt _ hs) fun _ => c.pure _
  case h_5 =>
    refine c.bind c.advance fun _ => c.bind (condition_composes c he _ _) fun _ => ?_
    exact c.bind hs fun _ => c.pure _
  case h_6 =>
    refine c.bind c.advance fun _ => c.bind (forClauses_composes c he) fun _ => ?_
    exact c.bind hs fun _ => c.pure _
  case h_7 =>
    refine c.bind c.advance fun _ => c.bind (loopHead_composes c he) fun _ => ?_
    exact c.bind hs fun _ => c.pure _
  case h_8 => exact expressionStatement_composes c he

lemma declarationOf_composes (hp : J parameters parameters') :
    J (declarationOf expression parameters statement block)
      (declarationOf expression' parameters' statement' block') := by
  refine c.bind (c.accept _) fun function => ?_
  split
  · refine c.bind (functionHead_composes c hp) fun _ => ?_
    exact c.bind (c.insideFunction hb) fun _ => c.pure _
  · refine c.bind (c.accept _) fun var => ?_
    split
    · exact variableDeclaration_composes c he
    · exact hs

end

lemma declarationsFrom_composes {attempt attempt' : Reader (Option Statement)}
    (h : J attempt attempt') (ho : J others others') (inBlock : Bool) :
    J (declarationsFrom attempt others inBlock) (declarationsFrom attempt' others' inBlock) := by
  refine c.bind (c.sees _) fun atEnd => c.bind (c.sees _) fun closed => ?_
  split
  · exact c.pure _
  · refine c.bind h fun found => ?_
    split
    · exact c.bind ho fun _ => c.pure _
    · exact ho

end Statements

/-- A rule keeps what the readers that it calls have in common. -/
theorem body_composes {R R' : Readers} (h : ∀ rule, J (R rule) (R' rule)) (rule : Rule) :
    J (R.body rule) (R'.body rule) := by
  have operations (power : Nat) := h (.operation power)
  cases rule with
  | operand => exact operandOf_composes c operations
  | operation power => exact c.bind (h .operand) fun lhs => h (.continuations power lhs)
  | continuations power lhs =>
    exact continuationsOf_composes c operations (h (.arguments 0))
      (fun lhs => h (.continuations power lhs)) power lhs
  | arguments count => exact argumentsOf_composes c operations (h (.arguments (count + 1))) count
  | expression => exact expressionOf_composes c operations
  | parameters count => exact parametersOf_composes c (h (.parameters (count + 1))) count
  | statement => exact statementOf_composes c (h .expression) (h .statement) (h .block)
  | declaration =>
    exact declarationOf_composes c (h .expression) (h .statement) (h .block) (h (.parameters 0))
  | attempt => exact c.recovering (h .declaration)
  | block => exact c.bind (h (.declarations true)) fun _ => c.bind (c.require _) fun _ => c.pure _
  | declarations inBlock =>
    exact declarationsFrom_composes c (h .attempt) (h (.declarations inBlock)) inBlock

/-- The readers of a depth have in common what single steps have. -/
theorem readersAt_composes (depth : Nat) (rule : Rule) :
    J (readersAt depth rule) (readersAt depth rule) := by
  induction depth generalizing rule with
  | zero =>
    have operations (power : Nat) : J (operation 0 power) (operation 0 power) := by
      rw [operation]
      exact c.fail _
    cases rule with
    | operand => simpa only [readersAt, operand] using c.fail _
    | operation power => exact operations power
    | continuations power lhs => simpa only [readersAt, continuations] using c.fail _
    | arguments count => simpa only [readersAt, arguments] using c.fail _
    | expression => exact expressionOf_composes c operations
    | parameters count => simpa only [readersAt, parameters] using c.fail _
    | statement => simpa only [readersAt, statement] using c.fail _
    | declaration => simpa only [readersAt, declaration] using c.fail _
    | attempt => simpa only [readersAt, declaration] using c.recovering (c.fail _)
    | block => simpa only [readersAt, block] using c.fail _
    | declarations inBlock => simpa only [readersAt, declarations] using c.pure _
  | succ depth ih =>
    have body (rule : Rule) := body_composes c ih rule
    have operations (power : Nat) :
        J (operation (depth + 1) power) (operation (depth + 1) power) := by
      rw [operation]
      exact body (.operation power)
    have declares : J (declaration (depth + 1)) (declaration (depth + 1)) := by
      rw [declaration]
      exact body .declaration
    cases rule with
    | operand =>
      rw [readersAt, operand]
      exact body .operand
    | operation power => exact operations power
    | continuations power lhs =>
      rw [readersAt, continuations]
      exact body (.continuations power lhs)
    | arguments count =>
      rw [readersAt, arguments]
      exact body (.arguments count)
    | expression => exact expressionOf_composes c operations
    | parameters count =>
      rw [readersAt, parameters]
      exact body (.parameters count)
    | statement =>
      rw [readersAt, statement]
      exact body .statement
    | declaration => exact declares
    | attempt => exact c.recovering declares
    | block =>
      rw [readersAt, block]
      exact body .block
    | declarations inBlock =>
      rw [readersAt, declarations]
      exact body (.declarations inBlock)

end Grammar

end Lox
