import Lox.Proofs.Reading.Rules

/-!
The depth of the readers bounds nothing: two depths that are both enough for the tokens left give
the same results. `Unbounded` holds the readers without a depth, which satisfy the rules of the
grammar as equations.
-/

namespace Lox

open Reading Reader

namespace Grammar

variable {n : Nat}

lemma alike_zero {α : Type} {k : Nat} {x y : Reader α} : Alike 0 k x y := fun s hs =>
  absurd hs (Nat.not_lt_zero s.left)

lemma exists_succ {k d : Nat} (h : k + 1 ≤ d) : ∃ c, d = c + 1 ∧ k ≤ c :=
  ⟨d - 1, by omega, by omega⟩

/-- For less than `n` tokens left, each reader of expressions has the same results at all depths
from a bound on. -/
structure ExpressionsSettle (n : Nat) : Prop where
  operand : ∀ d e, 2 * n - 1 ≤ d → 2 * n - 1 ≤ e → Alike n 1 (operand d) (operand e)
  operation : ∀ d e power, 2 * n ≤ d → 2 * n ≤ e →
    Alike n 1 (operation d power) (operation e power)
  continuations : ∀ d e power lhs, 2 * n ≤ d → 2 * n ≤ e →
    Alike n 0 (continuations d power lhs) (continuations e power lhs)
  arguments : ∀ d e count, 2 * n + 1 ≤ d → 2 * n + 1 ≤ e →
    Alike n 1 (arguments d count) (arguments e count)

lemma expressions_settle (n : Nat) : ExpressionsSettle n := by
  induction n with
  | zero => exact ⟨fun _ _ _ _ => alike_zero, fun _ _ _ _ _ => alike_zero,
      fun _ _ _ _ _ _ => alike_zero, fun _ _ _ _ _ => alike_zero⟩
  | succ n ih =>
    have operands : ∀ d e, 2 * n + 1 ≤ d → 2 * n + 1 ≤ e →
        Alike (n + 1) 1 (operand d) (operand e) := by
      intro d e hd he
      obtain ⟨d, rfl, hd⟩ := exists_succ hd
      obtain ⟨e, rfl, he⟩ := exists_succ he
      simp only [operand]
      exact operandOf_alike fun power => ih.operation d e power (by omega) (by omega)
    have operations : ∀ d e power, 2 * n + 2 ≤ d → 2 * n + 2 ≤ e →
        Alike (n + 1) 1 (operation d power) (operation e power) := by
      intro d e power hd he
      obtain ⟨d, rfl, hd⟩ := exists_succ hd
      obtain ⟨e, rfl, he⟩ := exists_succ he
      simp only [operation]
      exact (operands d e (by omega) (by omega)).bind_shorter fun lhs =>
        ih.continuations d e power lhs (by omega) (by omega)
    refine ⟨operands, operations, ?_, ?_⟩
    · intro d e power lhs hd he
      obtain ⟨d, rfl, hd⟩ := exists_succ hd
      obtain ⟨e, rfl, he⟩ := exists_succ he
      simp only [continuations]
      exact continuationsOf_alike (fun power => ih.operation d e power (by omega) (by omega))
        (ih.arguments d e 0 (by omega) (by omega))
        (fun lhs => ih.continuations d e power lhs (by omega) (by omega)) power lhs
    · intro d e count hd he
      obtain ⟨d, rfl, hd⟩ := exists_succ hd
      obtain ⟨e, rfl, he⟩ := exists_succ he
      simp only [arguments]
      exact argumentsOf_alike (fun power => operations d e power (by omega) (by omega))
        (ih.arguments d e (count + 1) (by omega) (by omega)).least_zero count

lemma expression_settles {d e : Nat} (hd : 2 * n ≤ d) (he : 2 * n ≤ e) :
    Alike n 1 (expression d) (expression e) :=
  expressionOf_alike fun power => (expressions_settle n).operation d e power hd he

lemma parameters_settle (n : Nat) : ∀ d e count, n ≤ d → n ≤ e →
    Alike n 1 (parameters d count) (parameters e count) := by
  induction n with
  | zero => exact fun _ _ _ _ _ => alike_zero
  | succ n ih =>
    intro d e count hd he
    obtain ⟨d, rfl, hd⟩ := exists_succ hd
    obtain ⟨e, rfl, he⟩ := exists_succ he
    simp only [parameters]
    exact parametersOf_alike (ih _ _ (count + 1) (by omega) (by omega)).least_zero count

/-- The same for the readers of statements. -/
structure StatementsSettle (n : Nat) : Prop where
  statement : ∀ d e, 4 * n - 1 ≤ d → 4 * n - 1 ≤ e → Alike n 1 (statement d) (statement e)
  declaration : ∀ d e, 4 * n ≤ d → 4 * n ≤ e → Alike n 1 (declaration d) (declaration e)
  declarations : ∀ d e inBlock, 4 * n + 1 ≤ d → 4 * n + 1 ≤ e →
    Alike n 0 (declarations d inBlock) (declarations e inBlock)
  block : ∀ d e, 4 * n + 2 ≤ d → 4 * n + 2 ≤ e → Alike n 1 (block d) (block e)

lemma statements_settle (n : Nat) : StatementsSettle n := by
  induction n with
  | zero => exact ⟨fun _ _ _ _ => alike_zero, fun _ _ _ _ => alike_zero,
      fun _ _ _ _ _ => alike_zero, fun _ _ _ _ => alike_zero⟩
  | succ n ih =>
    have statements : ∀ d e, 4 * n + 3 ≤ d → 4 * n + 3 ≤ e →
        Alike (n + 1) 1 (statement d) (statement e) := by
      intro d e hd he
      obtain ⟨d, rfl, hd⟩ := exists_succ hd
      obtain ⟨e, rfl, he⟩ := exists_succ he
      simp only [statement]
      exact statementOf_alike (expression_settles (by omega) (by omega))
        (ih.statement d e (by omega) (by omega)) (ih.block d e (by omega) (by omega))
    have declares : ∀ d e, 4 * n + 4 ≤ d → 4 * n + 4 ≤ e →
        Alike (n + 1) 1 (declaration d) (declaration e) := by
      intro d e hd he
      obtain ⟨d, rfl, hd⟩ := exists_succ hd
      obtain ⟨e, rfl, he⟩ := exists_succ he
      simp only [declaration]
      exact declarationOf_alike (expression_settles (by omega) (by omega))
        (parameters_settle n d e 0 (by omega) (by omega)).least_zero
        (statements d e (by omega) (by omega)) (ih.block d e (by omega) (by omega))
    have lists : ∀ d e inBlock, 4 * n + 5 ≤ d → 4 * n + 5 ≤ e →
        Alike (n + 1) 0 (declarations d inBlock) (declarations e inBlock) := by
      intro d e inBlock hd he
      obtain ⟨d, rfl, hd⟩ := exists_succ hd
      obtain ⟨e, rfl, he⟩ := exists_succ he
      simp only [declarations]
      exact declarationsOf_alike (declares d e (by omega) (by omega))
        (ih.declarations d e inBlock (by omega) (by omega)) inBlock
    refine ⟨statements, declares, lists, ?_⟩
    intro d e hd he
    obtain ⟨d, rfl, hd⟩ := exists_succ hd
    obtain ⟨e, rfl, he⟩ := exists_succ he
    simp only [block]
    exact blockOf_alike (lists d e true (by omega) (by omega))

end Grammar

/-! The readers without a depth. -/

namespace Unbounded

def operand : Reader NodeRef := fun s =>
  Grammar.operand (Grammar.ample s) s

def operation (power : Nat) : Reader NodeRef := fun s =>
  Grammar.operation (Grammar.ample s) power s

def continuations (power : Nat) (lhs : NodeRef) : Reader NodeRef := fun s =>
  Grammar.continuations (Grammar.ample s) power lhs s

def arguments (count : Nat) : Reader (List NodeRef) := fun s =>
  Grammar.arguments (Grammar.ample s) count s

def expression : Reader Expression :=
  Grammar.expressionOf operation

def parameters (count : Nat) : Reader (List Ident) := fun s =>
  Grammar.parameters (Grammar.ample s) count s

def statement : Reader Statement := fun s =>
  Grammar.statement (Grammar.ample s) s

def declaration : Reader Statement := fun s =>
  Grammar.declaration (Grammar.ample s) s

def block : Reader (List Statement) := fun s =>
  Grammar.block (Grammar.ample s) s

def declarations (inBlock : Bool) : Reader (List Statement) := fun s =>
  Grammar.declarations (Grammar.ample s) inBlock s

end Unbounded

namespace Grammar

variable {n d : Nat}

/-- Readers that settle from a bound on agree with their member at an ample depth. -/
lemma settled {α : Type} {k : Nat} {x : Nat → Reader α} {bound : Nat → Nat}
    (settle : ∀ n d e, bound n ≤ d → bound n ≤ e → Alike n k (x d) (x e))
    (hample : ∀ n, bound (n + 1) ≤ 4 * (n + 2)) (hd : ∀ m, m ≤ n → bound m ≤ d) :
    Alike n k (x d) fun s => x (ample s) s := fun s hs =>
  settle (s.left + 1) d (ample s) (hd _ hs) (hample s.left) s (Nat.lt_succ_self _)

lemma operand_unbounded (h : 2 * n - 1 ≤ d) : Alike n 1 (operand d) Unbounded.operand :=
  settled (fun n => (expressions_settle n).operand) (fun n => by omega) fun m hm => by omega

lemma operation_unbounded (h : 2 * n ≤ d) (power : Nat) :
    Alike n 1 (operation d power) (Unbounded.operation power) :=
  settled (x := fun d => operation d power)
    (fun n d e => (expressions_settle n).operation d e power) (fun n => by omega)
    fun m hm => by omega

lemma continuations_unbounded (h : 2 * n ≤ d) (power : Nat) (lhs : NodeRef) :
    Alike n 0 (continuations d power lhs) (Unbounded.continuations power lhs) :=
  settled (x := fun d => continuations d power lhs)
    (fun n d e => (expressions_settle n).continuations d e power lhs) (fun n => by omega)
    fun m hm => by omega

lemma arguments_unbounded (h : 2 * n + 1 ≤ d) (count : Nat) :
    Alike n 1 (arguments d count) (Unbounded.arguments count) :=
  settled (x := fun d => arguments d count)
    (fun n d e => (expressions_settle n).arguments d e count) (fun n => by omega)
    fun m hm => by omega

lemma expression_unbounded (h : 2 * n ≤ d) : Alike n 1 (expression d) Unbounded.expression :=
  expressionOf_alike (operation_unbounded h)

lemma parameters_unbounded (h : n ≤ d) (count : Nat) :
    Alike n 1 (parameters d count) (Unbounded.parameters count) :=
  settled (x := fun d => parameters d count)
    (fun n d e => parameters_settle n d e count) (fun n => by omega) fun m hm => by omega

lemma statement_unbounded (h : 4 * n - 1 ≤ d) : Alike n 1 (statement d) Unbounded.statement :=
  settled (fun n => (statements_settle n).statement) (fun n => by omega) fun m hm => by omega

lemma declaration_unbounded (h : 4 * n ≤ d) : Alike n 1 (declaration d) Unbounded.declaration :=
  settled (fun n => (statements_settle n).declaration) (fun n => by omega) fun m hm => by omega

lemma block_unbounded (h : 4 * n + 2 ≤ d) : Alike n 1 (block d) Unbounded.block :=
  settled (fun n => (statements_settle n).block) (fun n => by omega) fun m hm => by omega

lemma declarations_unbounded (h : 4 * n + 1 ≤ d) (inBlock : Bool) :
    Alike n 0 (declarations d inBlock) (Unbounded.declarations inBlock) :=
  settled (x := fun d => declarations d inBlock)
    (fun n d e => (statements_settle n).declarations d e inBlock) (fun n => by omega)
    fun m hm => by omega

end Grammar

namespace Unbounded

open Grammar

lemma eq_of_alike {α : Type} {y z : Reader α}
    (h : ∀ n, ∃ x, Alike n 0 x y ∧ Alike n 0 x z) : y = z := by
  funext s
  obtain ⟨x, hy, hz⟩ := h (s.left + 1)
  exact (hy s (Nat.lt_succ_self _)).1.symm.trans (hz s (Nat.lt_succ_self _)).1

lemma operand_eq : operand = operandOf operation := by
  refine eq_of_alike fun n => ⟨operandOf (Grammar.operation (2 * n)), ?_, ?_⟩
  · have h := @operand_unbounded (n + 1) (2 * n + 1) (by omega)
    simp only [Grammar.operand] at h
    exact h.weaker
  · exact (operandOf_alike (operation_unbounded (Nat.le_refl _))).weaker

lemma operation_eq (power : Nat) :
    operation power = (do let lhs ← operand; continuations power lhs) := by
  refine eq_of_alike fun n => ⟨Grammar.operation (2 * n + 1) power,
    (operation_unbounded (by omega) power).least_zero, ?_⟩
  rw [Grammar.operation]
  exact ((operand_unbounded (by omega)).bind fun lhs =>
    continuations_unbounded (Nat.le_refl _) power lhs).least_zero

lemma continuations_eq (power : Nat) (lhs : NodeRef) : continuations power lhs =
    continuationsOf operation (arguments 0) (continuations power) power lhs := by
  refine eq_of_alike fun n => ⟨Grammar.continuations (2 * n + 2) power lhs,
    continuations_unbounded (by omega) power lhs, ?_⟩
  rw [Grammar.continuations]
  have operations := @operation_unbounded n (2 * n + 1) (by omega)
  have more := @continuations_unbounded n (2 * n + 1) (by omega) power
  exact (continuationsOf_alike operations (arguments_unbounded (Nat.le_refl _) 0) more power
    lhs).weaker

lemma arguments_eq (count : Nat) :
    arguments count = argumentsOf operation (arguments (count + 1)) count := by
  refine eq_of_alike fun n => ⟨Grammar.arguments (2 * n + 3) count,
    (arguments_unbounded (by omega) count).least_zero, ?_⟩
  rw [Grammar.arguments]
  have others := @arguments_unbounded n (2 * n + 2) (by omega) (count + 1)
  have operations := @operation_unbounded (n + 1) (2 * n + 2) (by omega)
  exact (argumentsOf_alike operations others.least_zero count).weaker

lemma parameters_eq (count : Nat) :
    parameters count = parametersOf (parameters (count + 1)) count := by
  refine eq_of_alike fun n => ⟨Grammar.parameters (n + 1) count,
    (parameters_unbounded (by omega) count).least_zero, ?_⟩
  rw [Grammar.parameters]
  have others := parameters_unbounded (Nat.le_refl n) (count + 1)
  exact (parametersOf_alike others.least_zero count).weaker

lemma statement_eq : statement = statementOf expression statement block := by
  refine eq_of_alike fun n => ⟨Grammar.statement (4 * n + 3),
    (statement_unbounded (by omega)).least_zero, ?_⟩
  rw [Grammar.statement]
  have expressions := @expression_unbounded (n + 1) (4 * n + 2) (by omega)
  have statements := @statement_unbounded n (4 * n + 2) (by omega)
  exact (statementOf_alike expressions statements (block_unbounded (Nat.le_refl _))).weaker

lemma declaration_eq :
    declaration = declarationOf expression (parameters 0) statement block := by
  refine eq_of_alike fun n => ⟨Grammar.declaration (4 * n + 4),
    (declaration_unbounded (by omega)).least_zero, ?_⟩
  rw [Grammar.declaration]
  have expressions := @expression_unbounded n (4 * n + 3) (by omega)
  have names := @parameters_unbounded n (4 * n + 3) (by omega) 0
  have statements := @statement_unbounded (n + 1) (4 * n + 3) (by omega)
  have blocks := @block_unbounded n (4 * n + 3) (by omega)
  exact (declarationOf_alike expressions names.least_zero statements blocks).weaker

lemma block_eq : block = blockOf (declarations true) := by
  refine eq_of_alike fun n => ⟨Grammar.block (4 * n + 2),
    (block_unbounded (Nat.le_refl _)).least_zero, ?_⟩
  rw [Grammar.block]
  exact (blockOf_alike (declarations_unbounded (Nat.le_refl _) true)).least_zero

lemma declarations_eq (inBlock : Bool) : declarations inBlock =
    declarationsOf declaration (declarations inBlock) inBlock := by
  refine eq_of_alike fun n => ⟨Grammar.declarations (4 * n + 5) inBlock,
    declarations_unbounded (by omega) inBlock, ?_⟩
  rw [Grammar.declarations]
  have first := @declaration_unbounded (n + 1) (4 * n + 4) (by omega)
  have others := @declarations_unbounded n (4 * n + 4) (by omega) inBlock
  exact (declarationsOf_alike first others inBlock).weaker

end Unbounded

end Lox
