import Lox.Proofs.Reading.Foresight
import Lox.Proofs.Reading.Roots
import Lox.Proofs.Reading.ViableRules

/-!
Every rule of the grammar foresees what it would read with more tokens behind. An assignment finds
its target where it was before the value was read, so it is right without the last tokens if it is
right with them.
-/

namespace Lox

open Reading Reader

namespace Grammar

variable {more : Reading} {n : Nat}

section Expressions

variable {operation : Nat → Reader NodeRef}

section

variable (h : ∀ power, Foretold more n Anywhere (operation power))
  (goes : ∀ power s, Goes 1 (operation power) s)

include h

lemma floorOf_foretold (line : Nat) : Foretold more n Anywhere (floorOf operation line) :=
  (require_foretold _).bind fun _ => (h 0).bind fun _ => (require_foretold _).bind fun _ =>
    push_foretold _

lemma substringOf_foretold (line : Nat) : Foretold more n Anywhere (substringOf operation line) :=
  (require_foretold _).bind fun _ => (h 0).bind fun _ =>
    (require_foretold _).bind fun _ => (h 0).bind fun _ =>
    (require_foretold _).bind fun _ => (h 0).bind fun _ =>
    (require_foretold _).bind fun _ => push_foretold _

lemma unaryOf_foretold (op : UnaryOp) (line : Nat) :
    Foretold more n Anywhere (unaryOf operation op line) :=
  (h _).bind fun _ => push_foretold _

lemma groupOf_foretold : Foretold more n Anywhere (groupOf operation) :=
  (h 0).bind fun _ => (require_foretold _).bind fun _ => push_foretold _

include goes

lemma operandOf_foretold : Foretold more (n + 1) Anywhere (operandOf operation) := by
  refine .of_left (fun s => ?_) (fun s few _ some => ?_) fun s _ none => ?_
  · exact (operandOf_alike (fun power s _ => ⟨rfl, goes power s⟩) s
      (Nat.lt_succ_self _)).2.mono (Nat.zero_le 1)
  · refine current_foresees some ?_
    split
    case h_9 hk => exact advance_foresees (floorOf_foretold h _) (by simp [hk]) few
    case h_10 hk => exact advance_foresees (substringOf_foretold h _) (by simp [hk]) few
    case h_11 hk => exact advance_foresees (unaryOf_foretold h _ _) (by simp [hk]) few
    case h_12 hk => exact advance_foresees (unaryOf_foretold h _ _) (by simp [hk]) few
    case h_13 hk => exact advance_foresees (groupOf_foretold h) (by simp [hk]) few
    case h_14 => exact .fails rfl
    case h_1 hk _ => exact advance_foresees (push_foretold _) (by simp [hk]) few
    case h_2 hk _ => exact advance_foresees (push_foretold _) (by simp [hk]) few
    all_goals next hk => exact advance_foresees (push_foretold _) (by simp [hk]) few
  · refine (fail_ended .noExpression none).later rfl ?_
    rw [operandOf, bind_current, current_end none]

variable {arguments : Reader (List NodeRef)}

/-- The operand on the left is one of the nodes, and stays what it is. -/
lemma assign_foretold (keeps : ∀ s i t, operation Continuation.assign.rightPower s = .ok i t →
      Extends s.nodes t.nodes) (t : Token) (lhs : NodeRef) :
    Foretold more n (fun s => lhs < s.nodes.size)
      (operation Continuation.assign.rightPower >>= assigning t lhs) := by
  have values := h Continuation.assign.rightPower
  refine ⟨fun s => (values.goes s).bind (k := 0) fun rhs u _ => ?_,
    fun s few inside b u run quiet => ?_, fun s few none => ?_⟩
  · cases target : u.nodes[lhs]?.bind Node.target? with
    | some name => exact .of_ok (assigning_target target) (.add u _) (Nat.le_refl _)
    | none => exact .of_ok (assigning_other target) (.note u _) (Nat.le_refl _)
  · cases first : operation Continuation.assign.rightPower (s.before more) with
    | error e v =>
      rw [bind_error first] at run
      cases run
    | ok rhs v =>
      rw [bind_ok first] at run
      cases target : v.nodes[lhs]?.bind Node.target? with
      | none =>
        rw [assigning_other target] at run
        cases run
        have grown := ((values.goes _).onward first).errors.length_le
        have same := congrArg (fun es => es.toList.length) quiet
        simp only [Reading.note, Array.toList_push, List.length_append, List.length_cons,
          List.length_nil] at same
        change s.errors.toList.length ≤ _ at grown
        omega
      | some name =>
        rw [assigning_target target] at run
        cases run
        -- the target was there before the value was read, with or without the last tokens
        have there : s.nodes[lhs]? = some s.nodes[lhs] := Array.getElem?_eq_getElem inside
        have kept := keeps _ rhs v first lhs _ there
        rw [kept] at target
        rcases values.sees s few trivial rhs v first quiet with ⟨w, here, rfl⟩ | ended
        · have target : w.nodes[lhs]?.bind Node.target? = some name := by
            rw [keeps s rhs w here lhs _ there]
            exact target
          exact .inl ⟨w.add (.assign name rhs), (bind_ok here).trans (assigning_target target), rfl⟩
        · refine .inr (ended.bind fun rhs' w here ends => ?_)
          have target : w.nodes[lhs]?.bind Node.target? = some name := by
            rw [keeps s rhs' w here lhs _ there]
            exact target
          exact .of_ok (assigning_target target) ⟨ends, fun e he => .inl he⟩
  · refine (values.ends s few none).bind fun rhs u here _ => ?_
    have passed := ((goes _ s).ok here).2
    have nothing : s.left = 0 := congrArg List.length none
    omega

lemma continuedOf_foretold (ha : Foretold more n Anywhere arguments)
    (keeps : ∀ s i t, operation Continuation.assign.rightPower s = .ok i t →
      Extends s.nodes t.nodes) (next : Continuation) (t : Token) (lhs : NodeRef) :
    Foretold more n (fun s => lhs < s.nodes.size)
      (continuedOf operation arguments next t lhs) := by
  cases next with
  | call =>
    exact ((unlessAt_foretold (by decide) [] ha).bind fun _ => (require_foretold _).bind fun _ =>
      push_foretold _).anywhere
  | binary op => exact ((h _).bind fun _ => push_foretold _).anywhere
  | logical op => exact ((h _).bind fun _ => push_foretold _).anywhere
  | assign =>
    rw [continuedOf_assign]
    exact assign_foretold h goes keeps t lhs

end

lemma argumentsOf_foretold {others : Reader (List NodeRef)}
    (goes : ∀ s, Goes 1 (operation 0) s) (h : Foretold more (n + 1) Anywhere (operation 0))
    (ho : Foretold more n Anywhere others) (count : Nat) :
    Foretold more (n + 1) Anywhere (argumentsOf operation others count) := by
  refine (limit_foretold _ _).bind fun _ => h.bind_shorter goes fun argument => ?_
  refine (accept_bind_foretold (by decide) ?_ (pure_foretold _)).below (Nat.le_succ n)
  exact ho.bind fun _ => pure_foretold _

lemma expressionOf_foretold (h : Foretold more n Anywhere (operation 0)) :
    Foretold more n Anywhere (expressionOf operation) := by
  have clear : Foretold more n Anywhere (modify Reading.bare : Reader PUnit) :=
    quiet_foretold (fun _ => ⟨⟩) Reading.bare (fun _ => rfl) .bare (fun _ => rfl)
      (fun _ => rfl) fun _ => ⟨rfl, rfl⟩
  refine clear.bind fun _ => h.bind fun root => ?_
  exact quiet_foretold (fun s => ⟨s.nodes, root⟩) Reading.bare (fun _ => rfl) .bare
    (fun _ => rfl) (fun _ => rfl) fun _ => ⟨rfl, rfl⟩

end Expressions

section Statements

variable {expression : Reader Expression} {statement declaration : Reader Statement}
  {block others : Reader (List Statement)} {parameters : Reader (List Ident)}

lemma parametersOf_foretold (h : Foretold more n Anywhere parameters) (count : Nat) :
    Foretold more (n + 1) Anywhere (parametersOf parameters count) := by
  refine (limit_foretold _ _).bind fun _ => (require_foretold _).bind_shorter
    (fun s => (require_alike _ s (Nat.lt_succ_self _)).2) fun parameter => ?_
  refine (accept_bind_foretold (by decide) ?_ (pure_foretold _)).below (Nat.le_succ n)
  exact h.bind fun _ => pure_foretold _

lemma functionHead_foretold (h : Foretold more n Anywhere parameters) :
    Foretold more n Anywhere (functionHead parameters) :=
  (require_foretold _).bind fun _ => (require_foretold _).bind fun _ =>
    (unlessAt_foretold (by decide) [] h).bind fun _ => (require_foretold _).bind fun _ =>
    (require_foretold _).bind fun _ => pure_foretold _

section

variable (he : ∀ n, Foretold more n Anywhere expression)

include he

lemma expressionStatement_foretold :
    Foretold more n Anywhere (expressionStatement expression) :=
  (he n).bind fun _ => (require_foretold _).bind fun _ => pure_foretold _

lemma printStatement_foretold : Foretold more n Anywhere (printStatement expression) :=
  (he n).bind fun _ => (require_foretold _).bind fun _ => pure_foretold _

lemma variableDeclaration_foretold : Foretold more n Anywhere (variableDeclaration expression) :=
  (require_foretold _).bind fun _ => (ifAt_foretold (by decide) (he n)).bind fun _ =>
    (require_foretold _).bind fun _ => pure_foretold _

lemma condition_foretold (opening closing : Requirement) :
    Foretold more n Anywhere (condition expression opening closing) :=
  (require_foretold _).bind fun _ => (he n).bind fun _ => (require_foretold _).bind fun _ =>
    pure_foretold _

lemma forInitializer_foretold : Foretold more n Anywhere (forInitializer expression) :=
  (accept_bind_foretold (by decide) (pure_foretold _) <|
    accept_bind_foretold (by decide) (map_foretold (variableDeclaration_foretold he) some)
      (map_foretold (expressionStatement_foretold he) some)).below (Nat.le_succ n)

lemma forClauses_foretold : Foretold more n Anywhere (forClauses expression) :=
  (require_foretold _).bind fun _ => (forInitializer_foretold he).bind fun _ =>
    (unlessAt_foretold (by decide) none (map_foretold (he n) some)).bind fun _ =>
    (require_foretold _).bind fun _ =>
    (unlessAt_foretold (by decide) none (map_foretold (he n) some)).bind fun _ =>
    (require_foretold _).bind fun _ => pure_foretold _

lemma loopHead_foretold : Foretold more n Anywhere (loopHead expression) :=
  (require_foretold _).bind fun _ => (require_foretold _).bind fun _ =>
    (require_foretold _).bind fun _ => (require_foretold _).bind fun _ =>
    (he n).bind fun _ => (require_foretold _).bind fun _ => pure_foretold _

/-- Whether `return` stands in a function is known before what follows it. -/
lemma returnStatement_foresees (keyword : Token) {s : Reading} (few : s.left < n) :
    Foresees more (returnStatement expression keyword) s := by
  have behind (_ : Unit) : Foretold more n Anywhere (do
      let value ← unlessAt .semicolon none (some <$> expression)
      let _ ← require .returnEnd
      return Statement.returnFrom keyword.line value) :=
    (unlessAt_foretold (by decide) none (map_foretold (he n) some)).bind fun _ =>
      (require_foretold _).bind fun _ => pure_foretold _
  have checks : Foresees more (checkInside keyword) s := by
    by_cases outside : s.functionDepth = 0
    · refine .same (a := ()) (t := s.note (SyntaxError.atToken keyword .returnOutside))
        (by rw [checkInside_eq, if_pos outside]) ?_
      exact (checkInside_eq keyword (s.before more)).trans (if_pos outside)
    · refine .same (a := ()) (t := s) (by rw [checkInside_eq, if_neg outside]) ?_
      exact (checkInside_eq keyword (s.before more)).trans (if_neg outside)
  have goes (s : Reading) : Goes 0 (checkInside keyword) s :=
    (checkInside_alike keyword s (Nat.lt_succ_self _)).2
  have fewer {a : Unit} {t : Reading} (run : checkInside keyword s = .ok a t) : t.left < n :=
    Nat.lt_of_le_of_lt ((goes s).onward run).left_le few
  exact checks.bind goes (fun a => (behind a).goes)
    (fun a t run => (behind a).sees t (fewer run) trivial)
    fun a t run => (behind a).ends t (fewer run)

/-- A statement uses the statements and blocks it is given only after a token. -/
lemma statementOf_foretold (hs : Foretold more n Anywhere statement)
    (hb : Foretold more n Anywhere block)
    (goes : ∀ s, Goes 1 (statementOf expression statement block) s) :
    Foretold more (n + 1) Anywhere (statementOf expression statement block) := by
  refine .of_left (fun s => (goes s).mono (Nat.zero_le 1)) (fun s few _ some => ?_)
    fun s few none => ?_
  · refine current_foresees some ?_
    split
    case h_1 hk => exact advance_foresees (printStatement_foretold he) (by simp [hk]) few
    case h_2 hk =>
      have proper : s.current.kind ≠ .eof := by simp [hk]
      have left := pass_left proper
      have sees : Foresees more (returnStatement expression s.current) s.pass :=
        returnStatement_foresees he s.current (show s.pass.left < n by omega)
      refine sees.later rfl rfl ?_
      rw [← before_pass some]
      rfl
    case h_3 hk =>
      exact advance_foresees (hb.bind fun _ => pure_foretold _) (by simp [hk]) few
    case h_4 hk =>
      exact advance_foresees ((condition_foretold he _ _).bind fun _ => hs.bind fun _ =>
        (ifAt_foretold (by decide) hs).bind fun _ => pure_foretold _) (by simp [hk]) few
    case h_5 hk =>
      exact advance_foresees ((condition_foretold he _ _).bind fun _ => hs.bind fun _ =>
        pure_foretold _) (by simp [hk]) few
    case h_6 hk =>
      exact advance_foresees ((forClauses_foretold he).bind fun _ => hs.bind fun _ =>
        pure_foretold _) (by simp [hk]) few
    case h_7 hk =>
      exact advance_foresees ((loopHead_foretold he).bind fun _ => hs.bind fun _ =>
        pure_foretold _) (by simp [hk]) few
    case h_8 => exact (expressionStatement_foretold he).sees s few trivial
  · refine ((expressionStatement_foretold he).ends s few none).later rfl (statementOf_plain ?_)
    rw [current_end none]
    decide

lemma declarationOf_foretold (hp : Foretold more n Anywhere parameters)
    (hs : Foretold more (n + 1) Anywhere statement) (hb : Foretold more n Anywhere block) :
    Foretold more (n + 1) Anywhere (declarationOf expression parameters statement block) := by
  have function : Foretold more n Anywhere (do
      let head ← functionHead parameters
      let body ← insideFunction block
      return Statement.declareFun head.1 head.2 body) :=
    (functionHead_foretold hp).bind fun _ => (insideFunction_foretold hb).bind fun _ =>
      pure_foretold _
  exact accept_bind_foretold (by decide) function
    (accept_bind_foretold (by decide) (variableDeclaration_foretold he) hs)

end

lemma blockOf_foretold (h : Foretold more n Anywhere others) :
    Foretold more n Anywhere (blockOf others) :=
  h.bind fun _ => (require_foretold _).bind fun _ => pure_foretold _

/-- Declarations that follow the first one are read with fewer tokens left. -/
lemma declarationsOf_foretold {inBlock : Bool} (goes : ∀ s, Goes 1 declaration s)
    (goes' : ∀ s, Goes 0 (declarationsOf declaration others inBlock) s)
    (hd : Foretold more (n + 1) Anywhere declaration) (ho : Foretold more n Anywhere others) :
    Foretold more (n + 1) Anywhere (declarationsOf declaration others inBlock) := by
  refine .of_left goes' (fun s few _ some => ?_) fun s few none => ?_
  · by_cases ends : Ends inBlock s.current.kind
    · refine .same (declarationsOf_ends ends) (declarationsOf_ends ?_)
      rwa [before_current some]
    · have behind (found : Option Statement) :
          Foretold more n Anywhere ((found.toList ++ ·) <$> others) :=
        map_foretold ho _
      have recovers := recovering_foretold hd
      have passes : Goes 1 (recovering declaration) s :=
        (recovering_alikeAt (fun he => ends (.inl he)) ⟨rfl, goes s⟩).2
      have fewer {found : Option Statement} {t : Reading}
          (run : recovering declaration s = .ok found t) : t.left < n := by
        have passed := (passes.ok run).2
        omega
      have sees := Foresees.bind recovers.goes (fun found => (behind found).goes)
        (recovers.sees s few trivial)
        (fun found t run => (behind found).sees t (fewer run) trivial)
        fun found t run => (behind found).ends t (fewer run)
      refine sees.later rfl (declarationsOf_goesOn ends) (declarationsOf_goesOn ?_)
      rwa [before_current some]
  · exact .of_ok (declarationsOf_ends (.inl (current_end none))) ⟨none, fun e he => .inl he⟩

end Statements

end Grammar

namespace Unbounded

open Grammar

variable {more : Reading} {n : Nat}

lemma foretold_zero {α : Type} {k : Nat} {P : Reading → Prop} {x : Reader α}
    (goes : ∀ s, Goes k x s) : Foretold more 0 P x :=
  ⟨fun s => (goes s).mono (Nat.zero_le k), fun _ few => absurd few (Nat.not_lt_zero _),
    fun _ few => absurd few (Nat.not_lt_zero _)⟩

/-- An operation makes new nodes only. -/
lemma operation_keeps {s t : Reading} {i : NodeRef}
    (run : operation Continuation.assign.rightPower s = .ok i t) : Extends s.nodes t.nodes := by
  have whole := (layered (s.left + 1)).assignment.whole (show 1 ≤ 2 by omega)
  have run : operation 1 s = .ok i t := run
  cases whole s _ (Nat.lt_succ_self _) (Nat.le_refl _) with
  | ok hx _ keeps =>
    rw [run] at hx
    cases hx
    exact keeps
  | error hx =>
    rw [run] at hx
    cases hx

lemma operand_refers : Refers operand := fun s =>
  (findsNodes (ample s)).operand s

lemma continuedOf_refers (next : Continuation) (t : Token) {lhs : NodeRef} {s : Reading}
    (inside : lhs < s.nodes.size) : Yields (fun ref count => ref < count)
      (continuedOf operation (arguments 0) next t lhs) s :=
  refers_continuedOf (fun power s => (findsNodes (ample s)).operation power s)
    (fun s => (findsNodes (ample s)).arguments 0 s) next t inside

lemma continuations_foretold {power : Nat}
    (h : ∀ power, Foretold more n Anywhere (operation power))
    (ha : Foretold more n Anywhere (arguments 0))
    (hc : ∀ lhs, Foretold more n (fun s => lhs < s.nodes.size) (continuations power lhs))
    (lhs : NodeRef) :
    Foretold more (n + 1) (fun s => lhs < s.nodes.size) (continuations power lhs) := by
  refine .of_left (continuations_goes power lhs) (fun s few inside some => ?_) fun s _ none => ?_
  · rcases stopped_or_taken power s with stopped | ⟨next, found, strong⟩
    · refine .same (continuations_stopped stopped lhs) (continuations_stopped ?_ lhs)
      rwa [Stopped, before_current some]
    · have left := pass_left (announced_ne_eof found)
      have larger := (continuedOf_foretold h operation_goes ha
        (fun _ _ _ run => operation_keeps run) next s.current lhs).bind_if hc
        fun s a t inside run => (continuedOf_refers next _ inside a t run).2
      refine (larger.sees s.pass (by omega) inside).later rfl
        (continuations_taken found strong lhs) ?_
      have found' : Continuation.ofKind? (s.before more).current.kind = .some next := by
        rw [before_current some, found]
      rw [← before_pass some, continuations_taken found' strong lhs, before_current some]
  · have stopped : s.Stopped power := by
      rw [Stopped, current_end none]
      exact stops_of_none rfl
    exact .of_ok (continuations_stopped stopped lhs) ⟨none, fun e he => .inl he⟩

/-- Readers of expressions foresee where less than `n` tokens are left. -/
structure ExpressionsForetold (more : Reading) (n : Nat) : Prop where
  operation : ∀ power, Foretold more n Anywhere (operation power)
  continuations : ∀ power lhs,
    Foretold more n (fun s => lhs < s.nodes.size) (continuations power lhs)
  arguments : ∀ count, Foretold more n Anywhere (arguments count)

lemma expressions_foretold (n : Nat) : ExpressionsForetold more n := by
  induction n with
  | zero => exact ⟨fun power => foretold_zero (operation_goes power),
      fun power lhs => foretold_zero (continuations_goes power lhs),
      fun count => foretold_zero (arguments_goes count)⟩
  | succ n ih =>
    have operands : Foretold more (n + 1) Anywhere operand := by
      rw [operand_eq]
      exact operandOf_foretold ih.operation operation_goes
    have continues (power : Nat) :=
      continuations_foretold ih.operation (ih.arguments 0) (ih.continuations power)
    have operations (power : Nat) : Foretold more (n + 1) Anywhere (Unbounded.operation power) := by
      rw [operation_eq]
      exact operands.bind_if (continues power) fun s a t _ run => (operand_refers s a t run).2
    refine ⟨operations, continues, fun count => ?_⟩
    rw [arguments_eq]
    exact argumentsOf_foretold (operation_goes 0) (operations 0) (ih.arguments (count + 1)) count

lemma expression_foretold (n : Nat) : Foretold more n Anywhere expression :=
  expressionOf_foretold ((expressions_foretold n).operation 0)

lemma parameters_foretold (n count : Nat) : Foretold more n Anywhere (parameters count) := by
  induction n generalizing count with
  | zero => exact foretold_zero (parameters_goes count)
  | succ n ih =>
    rw [parameters_eq]
    exact parametersOf_foretold (ih (count + 1)) count

/-- Readers of statements foresee where less than `n` tokens are left. -/
structure StatementsForetold (more : Reading) (n : Nat) : Prop where
  statement : Foretold more n Anywhere statement
  block : Foretold more n Anywhere block
  declarations : ∀ inBlock, Foretold more n Anywhere (declarations inBlock)

lemma statements_foretold (n : Nat) : StatementsForetold more n := by
  induction n with
  | zero => exact ⟨foretold_zero statement_goes, foretold_zero block_goes,
      fun inBlock => foretold_zero (declarations_goes inBlock)⟩
  | succ n ih =>
    have statements : Foretold more (n + 1) Anywhere Unbounded.statement := by
      have goes := statement_goes
      rw [statement_eq] at goes ⊢
      exact statementOf_foretold expression_foretold ih.statement ih.block goes
    have declares : Foretold more (n + 1) Anywhere declaration := by
      rw [declaration_eq]
      exact declarationOf_foretold expression_foretold (parameters_foretold n 0) statements ih.block
    have lists (inBlock : Bool) :
        Foretold more (n + 1) Anywhere (Unbounded.declarations inBlock) := by
      have goes := declarations_goes inBlock
      rw [declarations_eq] at goes ⊢
      exact declarationsOf_foretold declaration_goes goes declares (ih.declarations inBlock)
    refine ⟨statements, ?_, lists⟩
    rw [block_eq]
    exact blockOf_foretold (lists true)

/-- Declarations that are read without a mistake are read the same without the last tokens, unless
they come to the end, and there all mistakes are found. -/
lemma declarations_foresee (inBlock : Bool) (s : Reading) :
    Foresees more (declarations inBlock) s :=
  ((statements_foretold (s.left + 1)).declarations inBlock).sees s (Nat.lt_succ_self _) trivial

end Unbounded

end Lox
