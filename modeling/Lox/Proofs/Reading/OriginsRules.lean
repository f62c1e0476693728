import Lox.Proofs.Reading.Origins

/-!
Each rule of the grammar draws names and lines from the tokens that it reads, and so does the
reading of a program.
-/

namespace Lox

open Reader Reading

variable {W : Token → Prop}

namespace Grammar

/-- The target of an assignment is the name in the node that is assigned to. -/
lemma target?_mem {node : Node} {name : Ident} (found : node.target? = some name) :
    name ∈ node.idents := by
  unfold Node.target? at found
  split at found
  · cases found
    exact List.mem_singleton_self _
  · cases found

section Expressions

variable {operation : Nat → Reader NodeRef} (h : ∀ power, Draws W (fun _ => True) (operation power))
include h

lemma operandOf_draws : Draws W (fun _ => True) (operandOf operation) := by
  refine Draws.current.bind fun t here => ?_
  have line (proper : t.kind ≠ .eof) : DrawnLine W t.line := ⟨t, here proper, rfl⟩
  have alone (node : Node) (drawn : node.Drawn W) :
      Draws W (fun _ => True) (do let _ ← advance; push node) :=
    Draws.advance.bind fun _ _ => .push drawn
  have unary (op : UnaryOp) (proper : t.kind ≠ .eof) :
      Draws W (fun _ => True) (do let _ ← advance; unaryOf operation op t.line) :=
    Draws.advance.bind fun _ _ => (h _).bind fun _ _ =>
      .push (Node.drawn_plain (line proper) rfl rfl)
  split
  case h_1 hk _ | h_2 hk _ | h_4 hk | h_5 hk | h_6 hk | h_7 hk | h_8 hk =>
    exact alone _ (Node.drawn_plain (line (by simp [hk])) rfl rfl)
  case h_3 hk =>
    have there := here (by simp [hk])
    refine alone _ ⟨?_, ?_⟩
    · exact List.forall_mem_singleton.mpr ⟨t, there, hk, rfl⟩
    · exact List.forall_mem_singleton.mpr ⟨t, there, rfl⟩
  case h_9 hk =>
    have drawn : DrawnLine W t.line := line (by simp [hk])
    refine Draws.advance.bind fun _ _ => (Draws.require _).bind fun _ _ => ?_
    refine (h 0).bind fun _ _ => (Draws.require _).bind fun _ _ => ?_
    exact .push (Node.drawn_plain drawn rfl rfl)
  case h_10 hk =>
    have drawn : DrawnLine W t.line := line (by simp [hk])
    refine Draws.advance.bind fun _ _ => (Draws.require _).bind fun _ _ => ?_
    refine (h 0).bind fun _ _ => (Draws.require _).bind fun _ _ => ?_
    refine (h 0).bind fun _ _ => (Draws.require _).bind fun _ _ => ?_
    refine (h 0).bind fun _ _ => (Draws.require _).bind fun _ _ => ?_
    exact .push (Node.drawn_plain drawn rfl rfl)
  case h_11 hk => exact unary .negate (by simp [hk])
  case h_12 hk => exact unary .not (by simp [hk])
  case h_13 =>
    refine Draws.advance.bind fun _ _ => (h 0).bind fun _ _ => (Draws.require _).bind fun _ _ => ?_
    exact .push ⟨List.forall_mem_nil _, List.forall_mem_nil _⟩
  case h_14 => exact .fail _

lemma continuedOf_draws {arguments : Reader (List NodeRef)}
    (ha : Draws W (fun _ => True) arguments) (next : Continuation) {t : Token} (here : W t)
    (lhs : NodeRef) :
    Draws W (fun _ => True) (continuedOf operation arguments next t lhs) := by
  have line : DrawnLine W t.line := ⟨t, here, rfl⟩
  cases next with
  | call =>
    refine (Draws.unlessAt _ trivial ha).bind fun _ _ => ?_
    refine (Draws.require _).bind fun close found => ?_
    exact .push (Node.drawn_plain ⟨close, found.1, rfl⟩ rfl rfl)
  | binary op => exact (h _).bind fun _ _ => .push (Node.drawn_plain line rfl rfl)
  | logical op => exact (h _).bind fun _ _ => .push (Node.drawn_plain line rfl rfl)
  | assign =>
    refine (h _).bind fun rhs _ => Draws.get.bind fun s drawn => ?_
    split
    · next target found =>
      obtain ⟨node, there, found⟩ := Option.bind_eq_some_iff.mp found
      have inside := drawn.nodes node (Array.mem_of_getElem? there)
      refine .push ⟨List.forall_mem_singleton.mpr ?_, List.forall_mem_nil _⟩
      exact inside.idents target (target?_mem found)
    · exact (Draws.record _).bind fun _ _ => .pure trivial

lemma continuationsOf_draws {arguments : Reader (List NodeRef)}
    (ha : Draws W (fun _ => True) arguments) {again : NodeRef → Reader NodeRef}
    (hg : ∀ lhs, Draws W (fun _ => True) (again lhs)) (power : Nat) (lhs : NodeRef) :
    Draws W (fun _ => True) (continuationsOf operation arguments again power lhs) := by
  refine Draws.current.bind fun t here => ?_
  split
  · exact .pure trivial
  · next announced =>
    have proper : t.kind ≠ .eof := by
      intro ends
      rw [ends, ofKind?_eof] at announced
      cases announced
    split
    · exact .pure trivial
    · refine Draws.advance.bind fun _ _ => ?_
      exact (continuedOf_draws h ha _ (here proper) lhs).bind fun larger _ => hg larger

lemma argumentsOf_draws {others : Reader (List NodeRef)} (ho : Draws W (fun _ => True) others)
    (count : Nat) : Draws W (fun _ => True) (argumentsOf operation others count) := by
  refine (Draws.limit _ _).bind fun _ _ => (h 0).bind fun first _ => ?_
  refine (Draws.accept _).bind fun comma _ => ?_
  split
  · exact ho.bind fun _ _ => .pure trivial
  · exact .pure trivial

/-- The nodes of an expression are those that were drawn for it. -/
lemma expressionOf_draws : Draws W (fun e => e.Drawn W) (expressionOf operation) := by
  have bare : Draws W (fun _ => True) (modify Reading.bare) := fun s drawn =>
    ⟨⟨drawn.tokens, fun _ none => absurd none (Array.not_mem_empty _)⟩, trivial⟩
  refine bare.bind fun _ _ => (h 0).bind fun root _ => fun s drawn => ?_
  exact ⟨⟨drawn.tokens, fun _ none => absurd none (Array.not_mem_empty _)⟩, drawn.nodes⟩

end Expressions

/-- At every depth, the readers of expressions draw from the tokens. -/
structure ExpressionsDraw (W : Token → Prop) (depth : Nat) : Prop where
  operand : Draws W (fun _ => True) (operand depth)
  operation : ∀ power, Draws W (fun _ => True) (operation depth power)
  continuations : ∀ power lhs, Draws W (fun _ => True) (continuations depth power lhs)
  arguments : ∀ count, Draws W (fun _ => True) (arguments depth count)

lemma expressionsDraw (W : Token → Prop) (depth : Nat) : ExpressionsDraw W depth := by
  induction depth with
  | zero =>
    constructor
    · rw [operand]
      exact .fail _
    · intro power
      rw [operation]
      exact .fail _
    · intro power lhs
      rw [continuations]
      exact .fail _
    · intro count
      rw [arguments]
      exact .fail _
  | succ depth ih =>
    constructor
    · rw [operand]
      exact operandOf_draws ih.operation
    · intro power
      rw [operation]
      exact ih.operand.bind fun lhs _ => ih.continuations power lhs
    · intro power lhs
      rw [continuations]
      exact continuationsOf_draws ih.operation (ih.arguments 0) (ih.continuations power) power lhs
    · intro count
      rw [arguments]
      exact argumentsOf_draws ih.operation (ih.arguments (count + 1)) count

lemma expression_draws (depth : Nat) : Draws W (fun e => e.Drawn W) (expression depth) :=
  expressionOf_draws (expressionsDraw W depth).operation

section Statements

variable {expression : Reader Expression} {statement : Reader Statement}
  {block others : Reader (List Statement)} {parameters : Reader (List Ident)}

lemma ident_drawn {t : Token} {what : Requirement} (h : W t ∧ t.kind = what.kind)
    (names : what.kind = .identifier) : (ident t).Drawn W :=
  ⟨t, h.1, h.2.trans names, rfl⟩

/-- A statement without parts that introduces no names is drawn with its expression. -/
lemma drawn_of_subject {st : Statement} (names : st.names = []) (parts : st.parts = [])
    (keyword : ∀ line value, st ≠ .returnFrom line value)
    (subject : ∀ e, st.subject? = some e → e.Drawn W) : st.Drawn W := by
  refine .of ?_ subject ?_ fun line value same => absurd same (keyword line value)
  · rw [names]
    exact List.forall_mem_nil _
  · rw [parts]
    exact List.forall_mem_nil _

lemma forall_some {P : Expression → Prop} {e : Expression} (h : P e) :
    ∀ e', some e = some e' → P e' := by
  rintro _ ⟨⟩
  exact h

section

variable (h : Draws W (fun e => e.Drawn W) expression)
include h

lemma expressionStatement_draws :
    Draws W (fun st => st.Drawn W) (expressionStatement expression) := by
  refine h.bind fun e drawn => (Draws.require _).bind fun _ _ => .pure ?_
  exact drawn_of_subject rfl rfl nofun (forall_some drawn)

lemma printStatement_draws : Draws W (fun st => st.Drawn W) (printStatement expression) := by
  refine h.bind fun e drawn => (Draws.require _).bind fun _ _ => .pure ?_
  exact drawn_of_subject rfl rfl nofun (forall_some drawn)

/-- An expression that may be left out. -/
lemma optional_draws (kind : TokenKind) :
    Draws W (fun found => ∀ e, found = some e → e.Drawn W)
      (unlessAt kind none (some <$> expression)) :=
  .unlessAt _ nofun (h.map fun _ drawn => forall_some drawn)

lemma variableDeclaration_draws :
    Draws W (fun st => st.Drawn W) (variableDeclaration expression) := by
  have value : Draws W (fun found => ∀ e, found = some e → e.Drawn W) (ifAt .equal expression) :=
    .ifAt _ nofun h fun _ drawn => forall_some drawn
  refine (Draws.require _).bind fun name found => value.bind fun initial drawn => ?_
  refine (Draws.require _).bind fun _ _ => .pure (.of ?_ drawn (List.forall_mem_nil _) nofun)
  exact List.forall_mem_singleton.mpr (ident_drawn found rfl)

lemma returnStatement_draws {keyword : Token} (here : W keyword) :
    Draws W (fun st => st.Drawn W) (returnStatement expression keyword) := by
  have inside : Draws W (fun _ => True) (checkInside keyword) := by
    refine Draws.get.bind fun s _ => ?_
    split
    · exact .record _
    · exact .pure trivial
  refine inside.bind fun _ _ => (optional_draws h _).bind fun value drawn => ?_
  refine (Draws.require _).bind fun _ _ => .pure (.of (List.forall_mem_nil _) drawn
    (List.forall_mem_nil _) ?_)
  rintro _ _ ⟨⟩
  exact ⟨keyword, here, rfl⟩

lemma condition_draws (opening closing : Requirement) :
    Draws W (fun e => e.Drawn W) (condition expression opening closing) :=
  (Draws.require _).bind fun _ _ => h.bind fun _ drawn => (Draws.require _).bind fun _ _ =>
    .pure drawn

lemma forInitializer_draws :
    Draws W (fun found => ∀ st, found = some st → Statement.Drawn W st)
      (forInitializer expression) := by
  have initial {x : Reader Statement} (hx : Draws W (fun st => st.Drawn W) x) :
      Draws W (fun found => ∀ st, found = some st → Statement.Drawn W st) (some <$> x) := by
    refine hx.map fun st drawn => ?_
    rintro _ ⟨⟩
    exact drawn
  refine (Draws.accept _).bind fun none _ => ?_
  split
  · exact .pure nofun
  · refine (Draws.accept _).bind fun var _ => ?_
    split
    · exact initial (variableDeclaration_draws h)
    · exact initial (expressionStatement_draws h)

lemma loopHead_draws :
    Draws W (fun head => head.1.Drawn W ∧ head.2.Drawn W) (loopHead expression) := by
  refine (Draws.require _).bind fun _ _ => (Draws.require _).bind fun _ _ => ?_
  refine (Draws.require _).bind fun name found => (Draws.require _).bind fun _ _ => ?_
  refine h.bind fun iterable drawn => (Draws.require _).bind fun _ _ => .pure ⟨?_, drawn⟩
  exact ident_drawn found rfl

/-- The clauses of a `for` are drawn from the tokens. -/
structure ForClauses.Drawn (W : Token → Prop) (clauses : ForClauses) : Prop where
  initializer : ∀ st, clauses.initializer = some st → st.Drawn W
  condition : ∀ e, clauses.condition = some e → e.Drawn W
  increment : ∀ e, clauses.increment = some e → e.Drawn W

lemma forClauses_draws : Draws W (fun clauses => clauses.Drawn W) (forClauses expression) := by
  refine (Draws.require _).bind fun _ _ => (forInitializer_draws h).bind fun initial first => ?_
  refine (optional_draws h _).bind fun condition second => (Draws.require _).bind fun _ _ => ?_
  refine (optional_draws h _).bind fun increment third => (Draws.require _).bind fun _ _ => ?_
  exact .pure ⟨first, second, third⟩

end

lemma block_drawn {body : List Statement} (h : ∀ st ∈ body, Statement.Drawn W st) :
    (Statement.block body).Drawn W :=
  .of (List.forall_mem_nil _) nofun h nofun

/-- The condition that stands for a missing one has the line of the keyword. -/
lemma forStatement_drawn {line : Nat} (here : DrawnLine W line) {clauses : ForClauses}
    (drawn : clauses.Drawn W) {body : Statement} (hb : body.Drawn W) :
    (forStatement line clauses body).Drawn W := by
  have always : (Expression.single (.atom (.bool true) line)).Drawn W := by
    intro node within
    obtain rfl := List.mem_singleton.mp (Array.mem_def.mp within)
    exact Node.drawn_plain here rfl rfl
  obtain ⟨initializer, condition, increment⟩ := clauses
  obtain ⟨first, second, third⟩ := drawn
  have cond : (condition.getD (Expression.single (.atom (.bool true) line))).Drawn W := by
    cases condition with
    | none => exact always
    | some e => exact second e rfl
  have loop {st : Statement} (hs : st.Drawn W) : (Statement.whileLoop (condition.getD
      (Expression.single (.atom (.bool true) line))) st).Drawn W :=
    .of (List.forall_mem_nil _) (forall_some cond) (List.forall_mem_singleton.mpr hs) nofun
  have both {st st' : Statement} (hs : st.Drawn W) (hs' : st'.Drawn W) :
      (Statement.block [st, st']).Drawn W := by
    refine block_drawn fun other within => ?_
    simp only [List.mem_cons, List.not_mem_nil, or_false] at within
    rcases within with rfl | rfl
    · exact hs
    · exact hs'
  have repeated : ∃ st, Statement.Drawn W st ∧
      forStatement line ⟨none, condition, increment⟩ body = .whileLoop (condition.getD
        (Expression.single (.atom (.bool true) line))) st := by
    cases increment with
    | none => exact ⟨body, hb, rfl⟩
    | some e =>
      have last : (Statement.expression e).Drawn W :=
        drawn_of_subject rfl rfl nofun (forall_some (third e rfl))
      exact ⟨_, both hb last, rfl⟩
  obtain ⟨st, hs, same⟩ := repeated
  cases initializer with
  | none =>
    rw [same]
    exact loop hs
  | some initial =>
    have block : forStatement line ⟨some initial, condition, increment⟩ body =
        .block [initial, forStatement line ⟨none, condition, increment⟩ body] := rfl
    rw [block, same]
    exact both (first initial rfl) (loop hs)

lemma parametersOf_draws {others : Reader (List Ident)}
    (ho : Draws W (fun names => ∀ i ∈ names, i.Drawn W) others) (count : Nat) :
    Draws W (fun names => ∀ i ∈ names, i.Drawn W) (parametersOf others count) := by
  refine (Draws.limit _ _).bind fun _ _ => (Draws.require _).bind fun parameter found => ?_
  have first : (ident parameter).Drawn W := ident_drawn found rfl
  refine (Draws.accept _).bind fun comma _ => ?_
  split
  · refine ho.bind fun names drawn => .pure ?_
    simpa only [List.mem_cons, forall_eq_or_imp] using ⟨first, drawn⟩
  · exact .pure (List.forall_mem_singleton.mpr first)

lemma parameters_draw (depth count : Nat) :
    Draws W (fun names => ∀ i ∈ names, i.Drawn W) (Grammar.parameters depth count) := by
  induction depth generalizing count with
  | zero =>
    rw [Grammar.parameters]
    exact .fail _
  | succ depth ih =>
    rw [Grammar.parameters]
    exact parametersOf_draws (ih (count + 1)) count

lemma functionHead_draws (hp : Draws W (fun names => ∀ i ∈ names, i.Drawn W) parameters) :
    Draws W (fun head => head.1.Drawn W ∧ ∀ i ∈ head.2, i.Drawn W) (functionHead parameters) := by
  refine (Draws.require _).bind fun name found => (Draws.require _).bind fun _ _ => ?_
  refine (Draws.unlessAt _ (List.forall_mem_nil _) hp).bind fun names drawn => ?_
  refine (Draws.require _).bind fun _ _ => (Draws.require _).bind fun _ _ => ?_
  exact .pure ⟨ident_drawn found rfl, drawn⟩

section

variable (he : Draws W (fun e => e.Drawn W) expression)
  (hs : Draws W (fun st => st.Drawn W) statement)
  (hb : Draws W (fun body => ∀ st ∈ body, Statement.Drawn W st) block)
include he hs hb

lemma statementOf_draws :
    Draws W (fun st => st.Drawn W) (statementOf expression statement block) := by
  refine Draws.current.bind fun t here => ?_
  split
  case h_1 => exact Draws.advance.bind fun _ _ => printStatement_draws he
  case h_2 hk =>
    exact Draws.advance.bind fun _ _ => returnStatement_draws he (here (by simp [hk]))
  case h_3 =>
    exact Draws.advance.bind fun _ _ => hb.bind fun body drawn => .pure (block_drawn drawn)
  case h_4 =>
    refine Draws.advance.bind fun _ _ => (condition_draws he _ _).bind fun cond drawn => ?_
    have otherwise : Draws W (fun found => ∀ st, found = some st → Statement.Drawn W st)
        (ifAt .kwElse statement) := by
      refine .ifAt _ nofun hs fun st drawn => ?_
      rintro _ ⟨⟩
      exact drawn
    refine hs.bind fun success first => otherwise.bind fun failure second => .pure ?_
    refine .of (List.forall_mem_nil _) (forall_some drawn) ?_ nofun
    cases failure with
    | none => exact List.forall_mem_singleton.mpr first
    | some failure =>
      simp only [Statement.parts, List.mem_cons, List.not_mem_nil, or_false, forall_eq_or_imp,
        forall_eq]
      exact ⟨first, second failure rfl⟩
  case h_5 =>
    refine Draws.advance.bind fun _ _ => (condition_draws he _ _).bind fun cond drawn => ?_
    refine hs.bind fun body first => .pure ?_
    exact .of (List.forall_mem_nil _) (forall_some drawn) (List.forall_mem_singleton.mpr first)
      nofun
  case h_6 hk =>
    refine Draws.advance.bind fun _ _ => (forClauses_draws he).bind fun clauses drawn => ?_
    refine hs.bind fun body first => .pure ?_
    exact forStatement_drawn ⟨t, here (by simp [hk]), rfl⟩ drawn first
  case h_7 =>
    refine Draws.advance.bind fun _ _ => (loopHead_draws he).bind fun head drawn => ?_
    refine hs.bind fun body first => .pure ?_
    exact .of (List.forall_mem_singleton.mpr drawn.1) (forall_some drawn.2)
      (List.forall_mem_singleton.mpr first) nofun
  case h_8 => exact expressionStatement_draws he

lemma declarationOf_draws (hp : Draws W (fun names => ∀ i ∈ names, i.Drawn W) parameters) :
    Draws W (fun st => st.Drawn W) (declarationOf expression parameters statement block) := by
  refine (Draws.accept _).bind fun function _ => ?_
  split
  · refine (functionHead_draws hp).bind fun head drawn => ?_
    refine (Draws.insideFunction hb).bind fun body inside => .pure ?_
    refine .of ?_ nofun inside nofun
    simpa only [Statement.names, List.mem_cons, forall_eq_or_imp] using drawn
  · refine (Draws.accept _).bind fun var _ => ?_
    split
    · exact variableDeclaration_draws he
    · exact hs

end

lemma blockOf_draws (ho : Draws W (fun body => ∀ st ∈ body, Statement.Drawn W st) others) :
    Draws W (fun body => ∀ st ∈ body, Statement.Drawn W st) (blockOf others) :=
  ho.bind fun _ drawn => (Draws.require _).bind fun _ _ => .pure drawn

lemma declarationsOf_draws (hd : Draws W (fun st => st.Drawn W) statement)
    (ho : Draws W (fun body => ∀ st ∈ body, Statement.Drawn W st) others) (inBlock : Bool) :
    Draws W (fun body => ∀ st ∈ body, Statement.Drawn W st)
      (declarationsOf statement others inBlock) := by
  refine (Draws.sees _).bind fun atEnd _ => (Draws.sees _).bind fun closed _ => ?_
  split
  · exact .pure (List.forall_mem_nil _)
  · refine (Draws.recovering hd).bind fun found drawn => ?_
    split
    · next st =>
      refine ho.bind fun others rest => .pure ?_
      simpa only [List.mem_cons, forall_eq_or_imp] using ⟨drawn st rfl, rest⟩
    · exact ho

end Statements

/-- At every depth, the readers of statements draw from the tokens. -/
structure StatementsDraw (W : Token → Prop) (depth : Nat) : Prop where
  statement : Draws W (fun st => st.Drawn W) (statement depth)
  declaration : Draws W (fun st => st.Drawn W) (declaration depth)
  block : Draws W (fun body => ∀ st ∈ body, Statement.Drawn W st) (block depth)
  declarations : ∀ inBlock,
    Draws W (fun body => ∀ st ∈ body, Statement.Drawn W st) (declarations depth inBlock)

lemma statementsDraw (W : Token → Prop) (depth : Nat) : StatementsDraw W depth := by
  induction depth with
  | zero =>
    constructor
    · rw [statement]
      exact .fail _
    · rw [declaration]
      exact .fail _
    · rw [block]
      exact .fail _
    · intro inBlock
      rw [declarations]
      exact .pure (List.forall_mem_nil _)
  | succ depth ih =>
    have expressions : Draws W (fun e => e.Drawn W) (expression depth) := expression_draws depth
    constructor
    · rw [statement]
      exact statementOf_draws expressions ih.statement ih.block
    · rw [declaration]
      exact declarationOf_draws expressions ih.statement ih.block (parameters_draw depth 0)
    · rw [block]
      exact blockOf_draws (ih.declarations true)
    · intro inBlock
      rw [declarations]
      exact declarationsOf_draws ih.declaration (ih.declarations inBlock) inBlock

/-- What is read as a program is drawn from its tokens. -/
theorem program_drawn {s : Reading} (tokens : ∀ t ∈ s.rest, W t) (none : s.nodes = #[])
    {ss : List Statement} (h : program s = .ok ss) : ∀ st ∈ ss, st.Drawn W := by
  have start : s.Drawn W := ⟨tokens, by simp [none]⟩
  have drawn := (statementsDraw W (ample s)).declarations false s start
  unfold program at h
  cases run : declarations (ample s) false s with
  | ok body t =>
    simp only [run] at h drawn
    split at h <;> cases h
    exact drawn.2
  | error e t =>
    simp only [run] at h
    cases h

end Grammar

end Lox
