import Lox.Proofs.Reading.Reports

/-!
Each rule of the grammar records its mistakes in the order of the text, and so does the reading of a
program.
-/

namespace Lox

open Reader Reading

variable {W : Token → Prop} {low : Nat}

namespace Grammar

section Expressions

variable {operation : Nat → Reader NodeRef} (h : ∀ power low, Reports W low (operation power))
include h

lemma floorOf_reports (line : Nat) : Reports W low (floorOf operation line) :=
  (Reports.require _).bind fun _ _ _ => (h _ _).bind fun _ _ _ =>
    (Reports.require _).bind fun _ _ _ => .push _

lemma substringOf_reports (line : Nat) : Reports W low (substringOf operation line) := by
  refine (Reports.require _).bind fun _ _ _ => (h _ _).bind fun _ _ _ => ?_
  refine (Reports.require _).bind fun _ _ _ => (h _ _).bind fun _ _ _ => ?_
  refine (Reports.require _).bind fun _ _ _ => (h _ _).bind fun _ _ _ => ?_
  exact (Reports.require _).bind fun _ _ _ => .push _

lemma unaryOf_reports (op : UnaryOp) (line : Nat) : Reports W low (unaryOf operation op line) :=
  (h _ _).bind fun _ _ _ => .push _

lemma groupOf_reports : Reports W low (groupOf operation) :=
  (h _ _).bind fun _ _ _ => (Reports.require _).bind fun _ _ _ => .push _

lemma operandOf_reports : Reports W low (operandOf operation) := by
  refine .current_bind fun t _ => ?_
  split
  case h_1 | h_2 | h_3 | h_4 | h_5 | h_6 | h_7 | h_8 => exact .advance_bind fun _ => .push _
  case h_9 => exact .advance_bind fun _ => floorOf_reports h _
  case h_10 => exact .advance_bind fun _ => substringOf_reports h _
  case h_11 | h_12 => exact .advance_bind fun _ => unaryOf_reports h _ _
  case h_13 => exact .advance_bind fun _ => groupOf_reports h
  case h_14 => exact .fail _

/-- An assignment without a target is recorded at its `=`, behind what is found in its value. -/
lemma continuedOf_reports {arguments : Reader (List NodeRef)}
    (ha : ∀ low, Reports W low arguments) (next : Continuation) {t : Token} (here : W t)
    (lhs : NodeRef) :
    Reports W t.span.start (continuedOf operation arguments next t lhs) := by
  cases next with
  | call =>
    exact (Reports.unlessAt _ _ ha).bind fun _ _ _ => (Reports.require _).bind fun _ _ _ => .push _
  | binary op | logical op => exact (h _ _).bind fun _ _ _ => .push _
  | assign =>
    refine (h _ _).bind fun rhs _ behind => .get_bind fun s => ?_
    split
    · exact .push _
    · exact (Reports.record here (.inr rfl) behind).bind fun _ _ _ => .pure lhs

lemma continuationsOf_reports {arguments : Reader (List NodeRef)}
    (ha : ∀ low, Reports W low arguments) {again : NodeRef → Reader NodeRef}
    (hg : ∀ lhs low, Reports W low (again lhs)) (power : Nat) (lhs : NodeRef) :
    Reports W low (continuationsOf operation arguments again power lhs) := by
  refine .current_bind fun t here => ?_
  split
  · exact .pure lhs
  · split
    · exact .pure lhs
    · refine .advance_bind fun _ => ?_
      exact (continuedOf_reports h ha _ here lhs).bind fun larger _ _ => hg larger _

lemma argumentsOf_reports {others : Reader (List NodeRef)} (ho : ∀ low, Reports W low others)
    (count : Nat) : Reports W low (argumentsOf operation others count) := by
  refine (Reports.limit _ _).bind fun _ _ _ => (h _ _).bind fun first _ _ => ?_
  refine (Reports.accept _).bind fun comma _ _ => ?_
  split
  · exact (ho _).bind fun _ _ _ => .pure _
  · exact .pure _

lemma expressionOf_reports : Reports W low (expressionOf operation) := by
  have bare (low : Nat) : Reports W low (modify Reading.bare) :=
    .of_quiet fun s => ⟨(), _, rfl, .bare s, rfl⟩
  refine (bare low).bind fun _ _ _ => (h _ _).bind fun root _ _ => ?_
  exact .of_quiet fun s => ⟨⟨s.nodes, root⟩, s.bare, rfl, .bare s, rfl⟩

end Expressions

/-- At every depth, the readers of expressions record their mistakes in order. -/
structure ExpressionsReport (W : Token → Prop) (depth : Nat) : Prop where
  operand : ∀ low, Reports W low (operand depth)
  operation : ∀ power low, Reports W low (operation depth power)
  continuations : ∀ power lhs low, Reports W low (continuations depth power lhs)
  arguments : ∀ count low, Reports W low (arguments depth count)

lemma expressionsReport (W : Token → Prop) (depth : Nat) : ExpressionsReport W depth := by
  induction depth with
  | zero =>
    constructor
    · intro low
      rw [operand]
      exact .fail _
    · intro power low
      rw [operation]
      exact .fail _
    · intro power lhs low
      rw [continuations]
      exact .fail _
    · intro count low
      rw [arguments]
      exact .fail _
  | succ depth ih =>
    constructor
    · intro low
      rw [operand]
      exact operandOf_reports ih.operation
    · intro power low
      rw [operation]
      exact (ih.operand low).bind fun lhs _ _ => ih.continuations power lhs _
    · intro power lhs low
      rw [continuations]
      exact continuationsOf_reports ih.operation (ih.arguments 0) (ih.continuations power) power lhs
    · intro count low
      rw [arguments]
      exact argumentsOf_reports ih.operation (ih.arguments (count + 1)) count

lemma expression_reports (depth low : Nat) : Reports W low (expression depth) :=
  expressionOf_reports (expressionsReport W depth).operation

section Statements

variable {expression : Reader Expression} {statement : Reader Statement}
  {block others : Reader (List Statement)} {parameters : Reader (List Ident)}

section

variable (h : ∀ low, Reports W low expression)
include h

lemma expressionStatement_reports : Reports W low (expressionStatement expression) :=
  (h _).bind fun _ _ _ => (Reports.require _).bind fun _ _ _ => .pure _

lemma printStatement_reports : Reports W low (printStatement expression) :=
  (h _).bind fun _ _ _ => (Reports.require _).bind fun _ _ _ => .pure _

/-- An expression that may be left out. -/
lemma optional_reports (kind : TokenKind) :
    Reports W low (unlessAt kind none (some <$> expression)) :=
  .unlessAt _ _ fun low => (h low).map

lemma variableDeclaration_reports : Reports W low (variableDeclaration expression) := by
  refine (Reports.require _).bind fun name _ _ => (Reports.ifAt _ h).bind fun initial _ _ => ?_
  exact (Reports.require _).bind fun _ _ _ => .pure _

/-- A `return` outside of functions is recorded at its keyword, before what is found behind it. -/
lemma returnStatement_reports {keyword : Token} (here : W keyword) :
    Reports W keyword.span.start (returnStatement expression keyword) := by
  have inside : Reports W keyword.span.start (checkInside keyword) := by
    refine .get_bind fun s => ?_
    split
    · exact .record here (.inl (Nat.le_refl _)) (Nat.le_refl _)
    · exact .pure _
  refine inside.bind fun _ _ _ => (optional_reports h _).bind fun value _ _ => ?_
  exact (Reports.require _).bind fun _ _ _ => .pure _

lemma condition_reports (opening closing : Requirement) :
    Reports W low (condition expression opening closing) :=
  (Reports.require _).bind fun _ _ _ => (h _).bind fun _ _ _ =>
    (Reports.require _).bind fun _ _ _ => .pure _

lemma forInitializer_reports : Reports W low (forInitializer expression) := by
  refine (Reports.accept _).bind fun none _ _ => ?_
  split
  · exact .pure _
  · refine (Reports.accept _).bind fun var _ _ => ?_
    split
    · exact (variableDeclaration_reports h).map
    · exact (expressionStatement_reports h).map

lemma loopHead_reports : Reports W low (loopHead expression) := by
  refine (Reports.require _).bind fun _ _ _ => (Reports.require _).bind fun _ _ _ => ?_
  refine (Reports.require _).bind fun name _ _ => (Reports.require _).bind fun _ _ _ => ?_
  exact (h _).bind fun iterable _ _ => (Reports.require _).bind fun _ _ _ => .pure _

lemma forClauses_reports : Reports W low (forClauses expression) := by
  refine (Reports.require _).bind fun _ _ _ => (forInitializer_reports h).bind fun _ _ _ => ?_
  refine (optional_reports h _).bind fun _ _ _ => (Reports.require _).bind fun _ _ _ => ?_
  refine (optional_reports h _).bind fun _ _ _ => (Reports.require _).bind fun _ _ _ => ?_
  exact .pure _

end

lemma parametersOf_reports {others : Reader (List Ident)} (ho : ∀ low, Reports W low others)
    (count : Nat) : Reports W low (parametersOf others count) := by
  refine (Reports.limit _ _).bind fun _ _ _ => (Reports.require _).bind fun parameter _ _ => ?_
  refine (Reports.accept _).bind fun comma _ _ => ?_
  split
  · exact (ho _).bind fun _ _ _ => .pure _
  · exact .pure _

lemma parameters_report (depth count low : Nat) :
    Reports W low (Grammar.parameters depth count) := by
  induction depth generalizing count low with
  | zero =>
    rw [Grammar.parameters]
    exact .fail _
  | succ depth ih =>
    rw [Grammar.parameters]
    exact parametersOf_reports (ih (count + 1)) count

lemma functionHead_reports (hp : ∀ low, Reports W low parameters) :
    Reports W low (functionHead parameters) := by
  refine (Reports.require _).bind fun name _ _ => (Reports.require _).bind fun _ _ _ => ?_
  refine (Reports.unlessAt _ _ hp).bind fun names _ _ => (Reports.require _).bind fun _ _ _ => ?_
  exact (Reports.require _).bind fun _ _ _ => .pure _

section

variable (he : ∀ low, Reports W low expression) (hs : ∀ low, Reports W low statement)
  (hb : ∀ low, Reports W low block)
include he hs hb

lemma statementOf_reports : Reports W low (statementOf expression statement block) := by
  refine .current_bind fun t here => ?_
  split
  case h_1 => exact .advance_bind fun _ => printStatement_reports he
  case h_2 => exact .advance_bind fun _ => returnStatement_reports he here
  case h_3 => exact .advance_bind fun _ => (hb _).bind fun body _ _ => .pure _
  case h_4 =>
    refine .advance_bind fun _ => (condition_reports he _ _).bind fun _ _ _ => ?_
    exact (hs _).bind fun _ _ _ => (Reports.ifAt _ hs).bind fun _ _ _ => .pure _
  case h_5 =>
    refine .advance_bind fun _ => (condition_reports he _ _).bind fun _ _ _ => ?_
    exact (hs _).bind fun _ _ _ => .pure _
  case h_6 =>
    refine .advance_bind fun _ => (forClauses_reports he).bind fun _ _ _ => ?_
    exact (hs _).bind fun _ _ _ => .pure _
  case h_7 =>
    refine .advance_bind fun _ => (loopHead_reports he).bind fun head _ _ => ?_
    exact (hs _).bind fun _ _ _ => .pure _
  case h_8 => exact expressionStatement_reports he

lemma declarationOf_reports (hp : ∀ low, Reports W low parameters) :
    Reports W low (declarationOf expression parameters statement block) := by
  refine (Reports.accept _).bind fun function _ _ => ?_
  split
  · refine (functionHead_reports hp).bind fun head _ _ => ?_
    exact (hb _).insideFunction.bind fun body _ _ => .pure _
  · refine (Reports.accept _).bind fun var _ _ => ?_
    split
    · exact variableDeclaration_reports he
    · exact hs _

end

lemma blockOf_reports (ho : Reports W low others) : Reports W low (blockOf others) :=
  ho.bind fun _ _ _ => (Reports.require _).bind fun _ _ _ => .pure _

lemma declarationsOf_reports (hd : ∀ low, Reports W low statement)
    (ho : ∀ low, Reports W low others) (inBlock : Bool) :
    Reports W low (declarationsOf statement others inBlock) := by
  refine (Reports.sees _).bind fun atEnd _ _ => (Reports.sees _).bind fun closed _ _ => ?_
  split
  · exact .pure _
  · refine (hd _).recovering.bind fun found _ _ => ?_
    split
    · exact (ho _).bind fun _ _ _ => .pure _
    · exact ho _

end Statements

/-- At every depth, the readers of statements record their mistakes in order. -/
structure StatementsReport (W : Token → Prop) (depth : Nat) : Prop where
  statement : ∀ low, Reports W low (statement depth)
  declaration : ∀ low, Reports W low (declaration depth)
  block : ∀ low, Reports W low (block depth)
  declarations : ∀ inBlock low, Reports W low (declarations depth inBlock)

lemma statementsReport (W : Token → Prop) (depth : Nat) : StatementsReport W depth := by
  induction depth with
  | zero =>
    constructor
    · intro low
      rw [statement]
      exact .fail _
    · intro low
      rw [declaration]
      exact .fail _
    · intro low
      rw [block]
      exact .fail _
    · intro inBlock low
      rw [declarations]
      exact .pure _
  | succ depth ih =>
    have expressions (low : Nat) : Reports W low (expression depth) := expression_reports depth low
    constructor
    · intro low
      rw [statement]
      exact statementOf_reports expressions ih.statement ih.block
    · intro low
      rw [declaration]
      exact declarationOf_reports expressions ih.statement ih.block (parameters_report depth 0)
    · intro low
      rw [block]
      exact blockOf_reports (ih.declarations true low)
    · intro inBlock low
      rw [declarations]
      exact declarationsOf_reports ih.declaration (ih.declarations inBlock) inBlock

/-- The mistakes of a program are found at its tokens, and recorded in the order of the text, those
apart that are recorded late. -/
theorem program_reported {s : Reading} (ordered : s.Ordered W) (none : s.errors = #[])
    {es : List SyntaxError} (h : program s = .error es) :
    es.Pairwise SyntaxError.Follows ∧ ∀ e ∈ es, ∃ t cause, W t ∧ e = .atToken t cause := by
  have whole {t : Reading} (reported : Reported W 0 s t) :
      t.errors.toList.Pairwise SyntaxError.Follows ∧
        ∀ e ∈ t.errors.toList, ∃ u cause, W u ∧ e = .atToken u cause := by
    obtain ⟨-, es, split, order, found⟩ := reported
    rw [none] at split
    obtain rfl : t.errors.toList = es := split
    refine ⟨order, fun e within => ?_⟩
    obtain ⟨u, cause, here, same, -⟩ := found e within
    exact ⟨u, cause, here, same⟩
  have reports := (statementsReport W (ample s)).declarations false 0 s ordered (Nat.zero_le _)
  unfold program at h
  cases run : declarations (ample s) false s with
  | ok body t =>
    simp only [run] at h reports
    split at h <;> cases h
    exact whole reports
  | error e t =>
    simp only [run] at h reports
    cases h
    obtain ⟨reported, cause, rfl⟩ := reports
    have stopped := (ordered.onward reported.onward).foundIn cause
    exact whole (reported.trans ordered (Nat.zero_le _) (.note stopped))

end Grammar

end Lox
