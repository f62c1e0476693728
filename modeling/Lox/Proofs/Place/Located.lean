import Lox.Evaluation.State
import Lox.Program.Source
import Mathlib.Tactic.Common

/-!
Changes of place. What is read from a text tells where it stands: its spans and its lines. A change
of place is made in all of them alike, and in nothing else.
-/

namespace Lox

/-- A change of the places in a text. -/
structure Relocation where
  span : Span → Span
  line : Nat → Nat

namespace Relocation

/-- Places stay what they are. -/
def still : Relocation :=
  ⟨id, id⟩

/-- A text is moved behind so many bytes, which end so many lines. -/
def behind (bytes lines : Nat) : Relocation :=
  ⟨fun span => ⟨span.start + bytes, span.length⟩, (· + lines)⟩

/-- Places are forgotten. -/
def nowhere : Relocation :=
  ⟨fun _ => ⟨0, 0⟩, fun _ => 0⟩

end Relocation

/-- What may tell places in a text. -/
class Located (α : Type) where
  moved : Relocation → α → α

open Located (moved)

section

variable {α β : Type} [Located α] [Located β] (m : Relocation)

/-- The number of a node is no place in the text. -/
instance : Located Nat := ⟨fun _ i => i⟩

instance : Located Bool := ⟨fun _ b => b⟩

instance : Located Unit := ⟨fun _ u => u⟩

instance : Located (List α) := ⟨fun m => List.map (moved m)⟩

instance : Located (Option α) := ⟨fun m => Option.map (moved m)⟩

lemma moved_none : moved m (none : Option α) = none :=
  rfl

lemma moved_some (a : α) : moved m (some a) = some (moved m a) :=
  rfl

instance : Located (Except α β) where
  moved m
    | .error a => .error (moved m a)
    | .ok b => .ok (moved m b)

instance : Located (α × β) := ⟨fun m pair => (moved m pair.1, moved m pair.2)⟩

instance : Located Ident := ⟨fun m name => ⟨name.name, m.span name.span, m.line name.line⟩⟩

instance : Located Token :=
  ⟨fun m t => ⟨t.kind, m.span t.span, m.line t.line, t.lexeme, t.literal⟩⟩

instance : Located LexicalError := ⟨fun m e => ⟨e.cause, m.span e.span, m.line e.line⟩⟩

instance : Located SyntaxError := ⟨fun m e => ⟨e.cause, e.site, m.span e.span, m.line e.line⟩⟩

instance : Located Diagnostic where
  moved m
    | .lexical e => .lexical (moved m e)
    | .grammatical e => .grammatical (moved m e)

instance : Located Atom where
  moved m
    | .identifier name => .identifier (moved m name)
    | .number x => .number x
    | .bool b => .bool b
    | .nil => .nil
    | .string s => .string s

instance : Located Node where
  moved m
    | .atom atom line => .atom (moved m atom) (m.line line)
    | .group inner => .group inner
    | .unary op rhs line => .unary op rhs (m.line line)
    | .binary op lhs rhs line => .binary op lhs rhs (m.line line)
    | .assign target rhs => .assign (moved m target) rhs
    | .logical op lhs rhs line => .logical op lhs rhs (m.line line)
    | .call callee arguments line => .call callee arguments (m.line line)
    | .read line => .read (m.line line)
    | .rand line => .rand (m.line line)
    | .floor argument line => .floor argument (m.line line)
    | .substring subject start stop line => .substring subject start stop (m.line line)
    | .value value line => .value value (m.line line)

instance : Located Expression := ⟨fun m e => ⟨e.nodes.map (moved m), e.root⟩⟩

namespace Statement

mutual

def moved (m : Relocation) : Statement → Statement
  | .declareVar name initial => .declareVar (Located.moved m name) (Located.moved m initial)
  | .declareFun name parameters body =>
    .declareFun (Located.moved m name) (Located.moved m parameters) (allMoved m body)
  | .expression e => .expression (Located.moved m e)
  | .print e => .print (Located.moved m e)
  | .block body => .block (allMoved m body)
  | .branch condition success failure =>
    .branch (Located.moved m condition) (moved m success) (maybeMoved m failure)
  | .whileLoop condition body => .whileLoop (Located.moved m condition) (moved m body)
  | .returnFrom line value => .returnFrom (m.line line) (Located.moved m value)
  | .stringLoop name iterable body =>
    .stringLoop (Located.moved m name) (Located.moved m iterable) (moved m body)

/-- The same where there may be no statement. -/
def maybeMoved (m : Relocation) : Option Statement → Option Statement
  | none => none
  | some st => some (moved m st)

def allMoved (m : Relocation) : List Statement → List Statement
  | [] => []
  | st :: ss => moved m st :: allMoved m ss

end

end Statement

instance : Located Statement := ⟨Statement.moved⟩

lemma Statement.moved_eq (st : Statement) : Located.moved m st = st.moved m :=
  rfl

lemma Statement.allMoved_eq (ss : List Statement) : allMoved m ss = Located.moved m ss := by
  induction ss with
  | nil => rfl
  | cons st ss ih => exact congrArg (List.cons _) ih

lemma Statement.maybeMoved_eq (st : Option Statement) :
    maybeMoved m st = Located.moved m st := by
  cases st <;> rfl

instance : Located Grammar.ForClauses :=
  ⟨fun m c => ⟨moved m c.initializer, moved m c.condition, moved m c.increment⟩⟩

instance : Located (Code (List Statement)) :=
  ⟨fun m c => ⟨moved m c.name, moved m c.parameters, moved m c.body⟩⟩

instance : Located RuntimeError := ⟨fun m e => ⟨e.fault, m.line e.line⟩⟩

instance : Located Stop where
  moved m
    | .error e => .error (moved m e)
    | .outOfFuel => .outOfFuel
    | .defect d => .defect d

/-- In a state, only the functions tell where they were written. -/
instance : Located State := ⟨fun m s => { s with codes := s.codes.map (moved m) }⟩

end

/-! Where places stay what they are, nothing changes. -/

section

lemma moved_still_node (node : Node) : moved .still node = node := by
  cases node with
  | atom atom line => cases atom <;> rfl
  | _ => rfl

lemma moved_still_expression (e : Expression) : moved .still e = e := by
  have same : moved Relocation.still = (id : Node → Node) := funext moved_still_node
  obtain ⟨nodes, root⟩ := e
  change Expression.mk (nodes.map (moved .still)) root = _
  rw [same, Array.map_id]

lemma moved_still_list {α : Type} [Located α] (h : ∀ a : α, moved .still a = a) (as : List α) :
    moved .still as = as := by
  have same : moved Relocation.still = (id : α → α) := funext h
  change as.map (moved .still) = as
  rw [same, List.map_id]

lemma moved_still_option {α : Type} [Located α] (h : ∀ a : α, moved .still a = a)
    (a : Option α) : moved .still a = a := by
  cases a with
  | none => rfl
  | some a => exact congrArg some (h a)

mutual

lemma Statement.moved_still : ∀ st : Statement, st.moved .still = st
  | .declareVar name initial => by
    rw [Statement.moved, moved_still_option moved_still_expression]
    rfl
  | .declareFun name parameters body => by
    rw [Statement.moved, Statement.allMoved_still body, moved_still_list fun _ => rfl]
    rfl
  | .expression e | .print e => by rw [Statement.moved, moved_still_expression]
  | .block body => by rw [Statement.moved, Statement.allMoved_still body]
  | .branch condition success failure => by
    rw [Statement.moved, moved_still_expression, Statement.moved_still success,
      Statement.maybeMoved_still failure]
  | .whileLoop condition body => by
    rw [Statement.moved, moved_still_expression, Statement.moved_still body]
  | .returnFrom line value => by
    rw [Statement.moved, moved_still_option moved_still_expression]
    rfl
  | .stringLoop name iterable body => by
    rw [Statement.moved, moved_still_expression, Statement.moved_still body]
    rfl

lemma Statement.maybeMoved_still : ∀ st : Option Statement, Statement.maybeMoved .still st = st
  | none => rfl
  | some st => congrArg some (Statement.moved_still st)

lemma Statement.allMoved_still : ∀ ss : List Statement, Statement.allMoved .still ss = ss
  | [] => rfl
  | st :: ss => by
    rw [Statement.allMoved, Statement.moved_still st, Statement.allMoved_still ss]

end

end

end Lox
