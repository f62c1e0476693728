import Lox.Proofs.Reading.Carried

/-!
Each rule of the grammar reads in another setting what it reads without it. Statements and
declarations are closed: the token that ends them is their own, and an `if` that could go on is not
followed by an `else`.
-/

namespace Lox

open Reading Reader
open Located (moved)

namespace Grammar

variable {c : Setting} {s : Reading}

/-- A token that is an operand by itself is passed, and its node pushed. -/
lemma advance_push_carriesAt (proper : s.current.kind ≠ .eof) (node : Node) :
    CarriesAt c false 1 (do let _ ← advance; push node)
      (do let _ ← advance; push (moved c.move node)) s :=
  advance_carriesAt proper fun _ => (push_carries node).relax

lemma target?_moved (node : Node) : (moved c.move node).target? = moved c.move node.target? := by
  cases node with
  | atom atom line => cases atom <;> rfl
  | _ => rfl

lemma moved_refs (m : Relocation) (refs : List NodeRef) : moved m refs = refs :=
  List.map_id refs

section Expressions

variable {operation : Nat → Reader NodeRef} {arguments others : Reader (List NodeRef)}
  {again : NodeRef → Reader NodeRef}
  (h : ∀ power, Carries c false 1 (operation power) (operation power))
include h

lemma floorOf_carries (line : Nat) :
    Carries c false 1 (floorOf operation line) (floorOf operation (c.move.line line)) :=
  ((require_carries _).bind_open fun _ => (h 0).bind_open fun argument =>
    (require_carries _).bind_open fun _ => (push_carries (.floor argument line)).relax).least
    (by omega)

lemma substringOf_carries (line : Nat) :
    Carries c false 1 (substringOf operation line) (substringOf operation (c.move.line line)) :=
  ((require_carries _).bind_open fun _ => (h 0).bind_open fun subject =>
    (require_carries _).bind_open fun _ => (h 0).bind_open fun start =>
    (require_carries _).bind_open fun _ => (h 0).bind_open fun stop =>
    (require_carries _).bind_open fun _ =>
      (push_carries (.substring subject start stop line)).relax).least (by omega)

lemma unaryOf_carries (op : UnaryOp) (line : Nat) :
    Carries c false 1 (unaryOf operation op line) (unaryOf operation op (c.move.line line)) :=
  ((h _).bind_open fun rhs => (push_carries (.unary op rhs line)).relax).least (by omega)

lemma groupOf_carries : Carries c false 1 (groupOf operation) (groupOf operation) :=
  ((h 0).bind_open fun inner => (require_carries _).bind_open fun _ =>
    (push_carries (.group inner)).relax).least (by omega)

lemma operandOf_carries : Carries c false 1 (operandOf operation) (operandOf operation) := by
  intro s
  refine current_carriesAt ?_ (.inl rfl)
  have kind : (moved c.move s.current).kind = s.current.kind := rfl
  have literal : (moved c.move s.current).literal = s.current.literal := rfl
  simp only [kind, literal]
  split
  case h_1 hk _ => exact advance_push_carriesAt (by simp [hk]) _
  case h_2 hk _ => exact advance_push_carriesAt (by simp [hk]) _
  case h_9 hk =>
    exact (advance_carriesAt (by simp [hk]) fun _ => floorOf_carries h _).least (by omega)
  case h_10 hk =>
    exact (advance_carriesAt (by simp [hk]) fun _ => substringOf_carries h _).least (by omega)
  case h_11 hk =>
    exact (advance_carriesAt (by simp [hk]) fun _ => unaryOf_carries h _ _).least (by omega)
  case h_12 hk =>
    exact (advance_carriesAt (by simp [hk]) fun _ => unaryOf_carries h _ _).least (by omega)
  case h_13 hk =>
    exact (advance_carriesAt (by simp [hk]) fun _ => groupOf_carries h).least (by omega)
  case h_14 => exact fail_carries _ s
  all_goals next hk => exact advance_push_carriesAt (by simp [hk]) _

lemma continuedOf_carries (ha : Carries c false 1 arguments arguments) (next : Continuation)
    (t : Token) (lhs : NodeRef) :
    Carries c false 1 (continuedOf operation arguments next t lhs)
      (continuedOf operation arguments next (moved c.move t) lhs) := by
  cases next with
  | call =>
    refine ((unlessAt_carries _ [] ha).bind_open (k := 1) fun arguments => ?_).least (by omega)
    rw [moved_refs]
    exact (require_carries _).bind_open (k := 0) fun close =>
      (push_carries (.call lhs arguments close.line)).relax
  | binary op =>
    exact ((h _).bind_open fun rhs => (push_carries (.binary op lhs rhs t.line)).relax).least
      (by omega)
  | logical op =>
    exact ((h _).bind_open fun rhs => (push_carries (.logical op lhs rhs t.line)).relax).least
      (by omega)
  | assign =>
    refine ((h _).bind_open (k := 0) fun rhs s => get_carriesAt ?_).least (by omega)
    have same : (c.on s).nodes[lhs]?.bind Node.target? =
        moved c.move (s.nodes[lhs]?.bind Node.target?) := by
      simp only [Setting.on, Array.getElem?_map]
      cases s.nodes[lhs]? with
      | none => rfl
      | some node => exact target?_moved node
    rw [same]
    cases s.nodes[lhs]?.bind Node.target? with
    | some target => exact (push_carries (.assign target rhs)).relax s
    | none =>
      exact ((record_carries _).bind (k := 0) fun _ => (pure_carries lhs).relax) s

lemma continuationsOf_carries (ha : Carries c false 1 arguments arguments)
    (hg : ∀ lhs, Carries c false 0 (again lhs) (again lhs)) (power : Nat) (lhs : NodeRef) :
    Carries c false 0 (continuationsOf operation arguments again power lhs)
      (continuationsOf operation arguments again power lhs) := by
  intro s
  refine current_carriesAt ?_ (.inl rfl)
  have kind : (moved c.move s.current).kind = s.current.kind := rfl
  simp only [kind]
  split
  · exact (pure_carries lhs).relax s
  · next next found =>
    split
    · exact (pure_carries lhs).relax s
    · have proper : s.current.kind ≠ .eof := by
        intro ends
        rw [ends, ofKind?_eof] at found
        cases found
      refine (advance_carriesAt (k := 1) proper fun _ => ?_).least (by omega)
      exact (continuedOf_carries h ha next _ lhs).bind_open hg

lemma argumentsOf_carries (ho : Carries c false 0 others others) (count : Nat) :
    Carries c false 1 (argumentsOf operation others count)
      (argumentsOf operation others count) := by
  refine ((limit_carries _ _).bind_open fun _ => (h 0).bind_open (k := 0) fun argument =>
    (accept_carries (by decide)).bind_open (k := 0) fun comma => ?_).least (by omega)
  refine .ite (ho.bind_open (k := 0) fun others => ?_) (pure_carries [argument]).relax
  exact (pure_carries (argument :: others)).relax

lemma expressionOf_carries :
    Carries c false 1 (expressionOf operation) (expressionOf operation) := by
  have clear : Carries c true 0 (modify Reading.bare : Reader Unit) (modify Reading.bare) := by
    refine fun s => ⟨.of_ok rfl (.bare s) (Nat.le_refl _), fun run _ => ?_, fun run _ => ?_⟩
    · cases run
      exact congrArg (EStateM.Result.ok ()) Setting.on_bare
    · cases run
  have finish (root : NodeRef) : Carries c true 0
      (modifyGet fun s => (⟨s.nodes, root⟩, s.bare) : Reader Expression)
      (modifyGet fun s => (⟨s.nodes, root⟩, s.bare)) := by
    refine fun s => ⟨.of_ok rfl (.bare s) (Nat.le_refl _), fun run _ => ?_, fun run _ => ?_⟩
    · cases run
      exact congrArg (EStateM.Result.ok _) Setting.on_bare
    · cases run
  exact (clear.bind_open fun _ => (h 0).bind_open fun root => (finish root).relax).least (by omega)

end Expressions

section Statements

variable {expression : Reader Expression} {parameters : Reader (List Ident)}
  {declaration : Reader Statement} {others : Reader (List Statement)}

lemma checkInside_carries (keyword : Token) :
    Carries c true 0 (checkInside keyword) (checkInside (moved c.move keyword)) :=
  fun _ => get_carriesAt (Carries.ite (record_carries _) (pure_carries ()) _)

section

variable (h : Carries c false 1 expression expression)
include h

lemma expressionStatement_carries :
    Carries c true 1 (expressionStatement expression) (expressionStatement expression) :=
  (h.bind_next (k := 0) fun value => (require_carries _).bind (k := 0) fun _ =>
    pure_carries (Statement.expression value)).least (by omega)

lemma printStatement_carries :
    Carries c true 1 (printStatement expression) (printStatement expression) :=
  (h.bind_next (k := 0) fun value => (require_carries _).bind (k := 0) fun _ =>
    pure_carries (Statement.print value)).least (by omega)

lemma variableDeclaration_carries :
    Carries c true 1 (variableDeclaration expression) (variableDeclaration expression) :=
  ((require_carries _).bind fun name =>
    (ifAt_carries (by decide) h).bind_next (k := 0) fun initial =>
    (require_carries _).bind (k := 0) fun _ =>
      pure_carries (Statement.declareVar (ident name) initial)).least (by omega)

lemma returnStatement_carries (keyword : Token) :
    Carries c true 1 (returnStatement expression keyword)
      (returnStatement expression (moved c.move keyword)) :=
  ((checkInside_carries keyword).bind fun _ =>
    (unlessAt_carries _ none (some_carries h)).bind_next (k := 0) fun value =>
    (require_carries _).bind (k := 0) fun _ =>
      pure_carries (Statement.returnFrom keyword.line value)).least (by omega)

lemma condition_carries (opening closing : Requirement) :
    Carries c true 1 (condition expression opening closing)
      (condition expression opening closing) :=
  ((require_carries _).bind fun _ => h.bind_next (k := 0) fun condition =>
    (require_carries _).bind (k := 0) fun _ => pure_carries condition).least (by omega)

lemma forInitializer_carries :
    Carries c false 0 (forInitializer expression) (forInitializer expression) :=
  (accept_carries (by decide)).bind_open (k := 0) fun _ => .ite (pure_carries none).relax <|
    (accept_carries (by decide)).bind_open (k := 0) fun _ => .ite
      (some_carries (variableDeclaration_carries h)).relax.least_zero
      (some_carries (expressionStatement_carries h)).relax.least_zero

lemma forClauses_carries : Carries c true 1 (forClauses expression) (forClauses expression) :=
  ((require_carries _).bind fun _ =>
    (forInitializer_carries h).bind_next (k := 1) fun initializer =>
    (unlessAt_carries _ none (some_carries h)).bind_next (k := 1) fun condition =>
    (require_carries _).bind (k := 1) fun _ =>
    (unlessAt_carries _ none (some_carries h)).bind_next (k := 0) fun increment =>
    (require_carries _).bind (k := 0) fun _ =>
      pure_carries (ForClauses.mk initializer condition increment)).least (by omega)

lemma loopHead_carries : Carries c true 1 (loopHead expression) (loopHead expression) :=
  ((require_carries _).bind fun _ => (require_carries _).bind fun _ =>
    (require_carries _).bind fun name => (require_carries _).bind fun _ =>
    h.bind_next (k := 0) fun iterable => (require_carries _).bind (k := 0) fun _ =>
      pure_carries (ident name, iterable)).least (by omega)

end

lemma moved_forStatement (m : Relocation) (line : Nat) (clauses : ForClauses) (body : Statement) :
    moved m (forStatement line clauses body) =
      forStatement (m.line line) (moved m clauses) (moved m body) := by
  obtain ⟨initializer, condition, increment⟩ := clauses
  have always : moved m (Expression.single (.atom (.bool true) line)) =
      .single (.atom (.bool true) (m.line line)) := by
    simp only [moved, Expression.single, List.map_toArray, List.map_cons, List.map_nil]
  cases condition with
  | some condition => cases initializer <;> cases increment <;> rfl
  | none =>
    have same : forStatement (m.line line) (moved m ⟨initializer, none, increment⟩)
        (moved m body) = forStatement (m.line line)
          (moved m ⟨initializer, some (.single (.atom (.bool true) line)), increment⟩)
          (moved m body) := by
      rw [forStatement, forStatement, ← always]
      rfl
    rw [same]
    cases initializer <;> cases increment <;> rfl

lemma parametersOf_carries (h : Carries c false 0 parameters parameters) (count : Nat) :
    Carries c false 1 (parametersOf parameters count) (parametersOf parameters count) := by
  refine ((limit_carries _ _).bind_open fun _ => (require_carries _).bind_open (k := 0) fun name =>
    (accept_carries (by decide)).bind_open (k := 0) fun _ => ?_).least (by omega)
  refine .ite (h.bind_open (k := 0) fun others => ?_) (pure_carries [ident name]).relax
  exact (pure_carries (ident name :: others)).relax

lemma functionHead_carries (h : Carries c false 0 parameters parameters) :
    Carries c true 1 (functionHead parameters) (functionHead parameters) :=
  ((require_carries _).bind fun name => (require_carries _).bind fun _ =>
    (unlessAt_carries _ [] h).bind_next (k := 1) fun names =>
    (require_carries _).bind (k := 1) fun _ => (require_carries _).bind (k := 0) fun _ =>
      pure_carries (ident name, names)).least (by omega)

section

variable {statement : Reader Statement} {block : Reader (List Statement)}
  (he : Carries c false 1 expression expression) (hs : Carries c true 1 statement statement)
  (hb : Carries c true 1 block block)
include he hs hb

lemma statementOf_carries : Carries c true 1 (statementOf expression statement block)
    (statementOf expression statement block) := by
  intro s
  refine current_carriesAt ?_ (.inr Nat.one_pos)
  have kind : (moved c.move s.current).kind = s.current.kind := rfl
  simp only [kind]
  split
  case h_1 hk =>
    exact (advance_carriesAt (by simp [hk]) fun _ => printStatement_carries he).least (by omega)
  case h_2 hk =>
    exact (advance_carriesAt (k := 1) (by simp [hk]) fun _ =>
      returnStatement_carries he s.current).least (by omega)
  case h_3 hk =>
    refine (advance_carriesAt (k := 1) (by simp [hk]) fun _ =>
      hb.bind (k := 0) fun body => ?_).least (by omega)
    have block := pure_carries (c := c) (Statement.block body)
    rwa [show moved c.move (Statement.block body) = .block (moved c.move body) from
      congrArg Statement.block (Statement.allMoved_eq _ body)] at block
  case h_4 hk =>
    refine (advance_carriesAt (k := 2) (by simp [hk]) fun _ =>
      (condition_carries he _ _).bind (k := 1) fun condition => hs.bind (k := 0) fun success =>
      (ifElse_carries hs).bind (k := 0) fun failure => ?_).least (by omega)
    have branch := pure_carries (c := c) (Statement.branch condition success failure)
    rwa [show moved c.move (Statement.branch condition success failure) =
      .branch (moved c.move condition) (moved c.move success) (moved c.move failure) from
      congrArg (Statement.branch _ _) (Statement.maybeMoved_eq _ failure)] at branch
  case h_5 hk =>
    exact (advance_carriesAt (k := 2) (by simp [hk]) fun _ =>
      (condition_carries he _ _).bind (k := 1) fun condition => hs.bind (k := 0) fun body =>
        pure_carries (Statement.whileLoop condition body)).least (by omega)
  case h_6 hk =>
    refine (advance_carriesAt (k := 2) (by simp [hk]) fun _ =>
      (forClauses_carries he).bind (k := 1) fun clauses =>
        hs.bind (k := 0) fun body => ?_).least (by omega)
    have loop := pure_carries (c := c) (forStatement s.current.line clauses body)
    rwa [moved_forStatement] at loop
  case h_7 hk =>
    exact (advance_carriesAt (k := 2) (by simp [hk]) fun _ =>
      (loopHead_carries he).bind (k := 1) fun head => hs.bind (k := 0) fun body =>
        pure_carries (Statement.stringLoop head.1 head.2 body)).least (by omega)
  case h_8 => exact expressionStatement_carries he s

lemma declarationOf_carries (hp : Carries c false 0 parameters parameters) :
    Carries c true 1 (declarationOf expression parameters statement block)
      (declarationOf expression parameters statement block) := by
  refine ((accept_carries (by decide)).bind_next (k := 0) fun _ => .ite ?_ ?_).least (by omega)
  · refine ((functionHead_carries hp).bind fun head =>
      (insideFunction_carries hb).bind (k := 0) fun body => ?_).least (by omega)
    have function := pure_carries (c := c) (Statement.declareFun head.1 head.2 body)
    rwa [show moved c.move (Statement.declareFun head.1 head.2 body) =
      .declareFun (moved c.move head.1) (moved c.move head.2) (moved c.move body) from
      congrArg (Statement.declareFun _ _) (Statement.allMoved_eq _ body)] at function
  · exact ((accept_carries (by decide)).bind_next (k := 0) fun _ =>
      .ite (variableDeclaration_carries he) hs).least (by omega)

end

lemma blockOf_carries (h : Carries c false 0 others others) :
    Carries c true 1 (blockOf others) (blockOf others) :=
  (h.bind_next (k := 0) fun body => (require_carries _).bind (k := 0) fun _ =>
    pure_carries body).least (by omega)

lemma declarationsOf_carries (hd : Carries c false 0 declaration declaration)
    (ho : Carries c false 0 others others) (inBlock : Bool) :
    Carries c false 0 (declarationsOf declaration others inBlock)
      (declarationsOf declaration others inBlock) := by
  refine fun s => sees_carriesAt (sees_carriesAt ?_ (.inl rfl)) (.inl rfl)
  split
  · exact (pure_carries []).relax s
  · refine (recovering_carries hd).bind_open (k := 0) (fun found => ?_) s
    cases found with
    | none => exact ho
    | some st => exact ho.bind_open (k := 0) fun others => (pure_carries (st :: others)).relax

end Statements

/-- At every depth, expressions are read in another setting as they are without it. -/
structure ExpressionsCarried (c : Setting) (depth : Nat) : Prop where
  operand : Carries c false 1 (operand depth) (operand depth)
  operation : ∀ power, Carries c false 1 (operation depth power) (operation depth power)
  continuations : ∀ power lhs,
    Carries c false 0 (continuations depth power lhs) (continuations depth power lhs)
  arguments : ∀ count, Carries c false 1 (arguments depth count) (arguments depth count)

lemma expressions_carried (c : Setting) (depth : Nat) : ExpressionsCarried c depth := by
  induction depth with
  | zero =>
    constructor
    · rw [operand]
      exact fail_carries _
    · intro power
      rw [operation]
      exact fail_carries _
    · intro power lhs
      rw [continuations]
      exact fail_carries _
    · intro count
      rw [arguments]
      exact fail_carries _
  | succ depth ih =>
    constructor
    · rw [operand]
      exact operandOf_carries ih.operation
    · intro power
      rw [operation]
      exact ih.operand.bind_open (k := 0) fun lhs => ih.continuations power lhs
    · intro power lhs
      rw [continuations]
      exact continuationsOf_carries ih.operation (ih.arguments 0) (ih.continuations power) power lhs
    · intro count
      rw [arguments]
      exact argumentsOf_carries ih.operation (ih.arguments (count + 1)).least_zero count

lemma expression_carried (c : Setting) (depth : Nat) :
    Carries c false 1 (expression depth) (expression depth) :=
  expressionOf_carries (expressions_carried c depth).operation

lemma parameters_carried (c : Setting) (depth count : Nat) :
    Carries c false 1 (parameters depth count) (parameters depth count) := by
  induction depth generalizing count with
  | zero =>
    rw [parameters]
    exact fail_carries _
  | succ depth ih =>
    rw [parameters]
    exact parametersOf_carries (ih (count + 1)).least_zero count

/-- The same for statements. -/
structure StatementsCarried (c : Setting) (depth : Nat) : Prop where
  statement : Carries c true 1 (statement depth) (statement depth)
  declaration : Carries c true 1 (declaration depth) (declaration depth)
  block : Carries c true 1 (block depth) (block depth)
  declarations : ∀ inBlock,
    Carries c false 0 (declarations depth inBlock) (declarations depth inBlock)

lemma statements_carried (c : Setting) (depth : Nat) : StatementsCarried c depth := by
  induction depth with
  | zero =>
    constructor
    · rw [statement]
      exact fail_carries _
    · rw [declaration]
      exact fail_carries _
    · rw [block]
      exact fail_carries _
    · intro inBlock
      rw [declarations]
      exact (pure_carries []).relax
  | succ depth ih =>
    have expressions := expression_carried c depth
    constructor
    · rw [statement]
      exact statementOf_carries expressions ih.statement ih.block
    · rw [declaration]
      exact declarationOf_carries expressions ih.statement ih.block
        (parameters_carried c depth 0).least_zero
    · rw [block]
      exact blockOf_carries (ih.declarations true)
    · intro inBlock
      rw [declarations]
      exact declarationsOf_carries ih.declaration.relax.least_zero (ih.declarations inBlock)
        inBlock

end Grammar

end Lox
