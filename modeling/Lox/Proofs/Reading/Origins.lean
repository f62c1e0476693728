import Lox.Proofs.Evaluation.Parts
import Lox.Proofs.Reading.Rules

/-!
Where names and lines come from. Whatever readers are given to read, each identifier in what they
make of it is that of a token, and each line that they keep is the line of a token.
-/

namespace Lox

namespace Node

/-- The identifiers in a node. -/
def idents : Node → List Ident
  | .atom (.identifier name) _ | .assign name _ => [name]
  | _ => []

/-- The line that a node keeps, apart from those of identifiers in it. -/
def lines : Node → List Nat
  | .group _ | .assign _ _ => []
  | .atom _ line | .unary _ _ line | .binary _ _ _ line | .logical _ _ _ line | .call _ _ line
  | .read line | .rand line | .floor _ line | .substring _ _ _ line | .value _ line => [line]

end Node

namespace Statement

/-- The names that a statement itself introduces. -/
def names : Statement → List Ident
  | .declareVar name _ | .stringLoop name _ _ => [name]
  | .declareFun name parameters _ => name :: parameters
  | .expression _ | .print _ | .block _ | .branch _ _ _ | .whileLoop _ _ | .returnFrom _ _ => []

/-- An identifier occurs in a statement, in its expressions or in its parts. -/
inductive Mentions : Statement → Ident → Prop
  | name {st : Statement} {i : Ident} : i ∈ st.names → Mentions st i
  | node {st : Statement} {e : Expression} {node : Node} {i : Ident} :
    st.subject? = some e → node ∈ e.nodes → i ∈ node.idents → Mentions st i
  | part {st part : Statement} {i : Ident} : part ∈ st.parts → Mentions part i → Mentions st i

/-- A line is kept in a statement, in its expressions or in its parts. -/
inductive Stores : Statement → Nat → Prop
  | ident {st : Statement} {i : Ident} : Mentions st i → Stores st i.line
  | node {st : Statement} {e : Expression} {node : Node} {line : Nat} :
    st.subject? = some e → node ∈ e.nodes → line ∈ node.lines → Stores st line
  | keyword {line : Nat} {value : Option Expression} : Stores (.returnFrom line value) line
  | part {st part : Statement} {line : Nat} :
    part ∈ st.parts → Stores part line → Stores st line

end Statement

open Reader Reading

section

-- The tokens from which names and lines are drawn.
variable (W : Token → Prop)

/-- An identifier is that of one of the tokens. -/
def Ident.Drawn (i : Ident) : Prop :=
  ∃ t, W t ∧ t.kind = .identifier ∧ i = ident t

/-- A line is that of one of the tokens. -/
def DrawnLine (line : Nat) : Prop :=
  ∃ t, W t ∧ t.line = line

/-- What is kept in a node is drawn from the tokens. -/
structure Node.Drawn (node : Node) : Prop where
  idents : ∀ i ∈ node.idents, i.Drawn W
  lines : ∀ line ∈ node.lines, DrawnLine W line

/-- The same for all nodes of an expression, whether they belong to its tree or not. -/
def Expression.Drawn (e : Expression) : Prop :=
  ∀ node ∈ e.nodes, node.Drawn W

structure Statement.Drawn (st : Statement) : Prop where
  idents : ∀ i, st.Mentions i → i.Drawn W
  lines : ∀ line, st.Stores line → DrawnLine W line

/-- The tokens that are left are among those, and what is under construction is drawn from them. -/
structure Reading.Drawn (s : Reading) : Prop where
  tokens : ∀ t ∈ s.rest, W t
  nodes : ∀ node ∈ s.nodes, node.Drawn W

/-- What a reader yields is as said, and all that is under construction is drawn from the tokens. -/
def Reader.Draws {α : Type} (P : α → Prop) (x : Reader α) : Prop :=
  ∀ s : Reading, s.Drawn W → match x s with
    | .ok a t => t.Drawn W ∧ P a
    | .error _ t => t.Drawn W

end

variable {W : Token → Prop} {α β : Type}

lemma Node.drawn_plain {node : Node} {line : Nat} (h : DrawnLine W line) (idents : node.idents = [])
    (lines : node.lines = [line]) : node.Drawn W := by
  constructor
  · rw [idents]
    exact List.forall_mem_nil _
  · rw [lines]
    exact List.forall_mem_singleton.mpr h

lemma Ident.Drawn.line {i : Ident} (h : i.Drawn W) : DrawnLine W i.line := by
  obtain ⟨t, here, -, rfl⟩ := h
  exact ⟨t, here, rfl⟩

namespace Statement

lemma Drawn.of {st : Statement} (names : ∀ i ∈ st.names, i.Drawn W)
    (subject : ∀ e, st.subject? = some e → e.Drawn W) (parts : ∀ part ∈ st.parts, part.Drawn W)
    (keyword : ∀ line value, st = .returnFrom line value → DrawnLine W line) : st.Drawn W := by
  have idents : ∀ i, st.Mentions i → i.Drawn W := by
    intro i mentions
    cases mentions with
    | name within => exact names i within
    | node here within inside => exact (subject _ here _ within).idents i inside
    | part within inside => exact (parts _ within).idents i inside
  refine ⟨idents, fun line stores => ?_⟩
  cases stores with
  | ident mentions => exact (idents _ mentions).line
  | node here within inside => exact (subject _ here _ within).lines line inside
  | keyword => exact keyword _ _ rfl
  | part within inside => exact (parts _ within).lines line inside

lemma Drawn.part {st part : Statement} (h : st.Drawn W) (within : part ∈ st.parts) :
    part.Drawn W :=
  ⟨fun i inside => h.idents i (.part within inside),
    fun line inside => h.lines line (.part within inside)⟩

lemma Drawn.subject {st : Statement} {e : Expression} (h : st.Drawn W)
    (here : st.subject? = some e) : e.Drawn W := fun _ within =>
  ⟨fun i inside => h.idents i (.node here within inside),
    fun line inside => h.lines line (.node here within inside)⟩

end Statement

namespace Reading

variable {s t : Reading}

lemma Drawn.onward (h : s.Drawn W) (onward : Onward s t) (nodes : t.nodes = s.nodes) :
    t.Drawn W :=
  ⟨fun u within => h.tokens u (onward.rest.subset within), nodes ▸ h.nodes⟩

/-- The current token is one of those, unless it is that at the end. -/
lemma Drawn.current (h : s.Drawn W) (proper : s.current.kind ≠ .eof) : W s.current :=
  h.tokens s.current (by rw [rest_eq proper]; exact List.mem_cons_self)

end Reading

namespace Reader.Draws

variable {P : α → Prop} {Q : β → Prop} {x : Reader α}

lemma bind {f : α → Reader β} (h : Draws W P x) (hf : ∀ a, P a → Draws W Q (f a)) :
    Draws W Q (x >>= f) := by
  intro s drawn
  have here := h s drawn
  cases hx : x s with
  | ok a t =>
    simp only [hx] at here
    rw [bind_ok hx]
    exact hf a here.2 t here.1
  | error e t =>
    simp only [hx] at here
    rw [bind_error hx]
    exact here

lemma pure {a : α} (h : P a) : Draws W P (pure a) :=
  fun _ drawn => ⟨drawn, h⟩

lemma map {f : α → β} (h : Draws W P x) (hf : ∀ a, P a → Q (f a)) : Draws W Q (f <$> x) := by
  intro s drawn
  have here := h s drawn
  cases hx : x s with
  | ok a t =>
    simp only [hx] at here
    rw [map_ok hx]
    exact ⟨here.1, hf a here.2⟩
  | error e t =>
    simp only [hx] at here
    rw [map_error hx]
    exact here

lemma fail (cause : TokenKind → SyntaxError.Cause) : Draws W P (fail cause) :=
  fun _ drawn => drawn

lemma current : Draws W (fun t => t.kind ≠ .eof → W t) current :=
  fun _ drawn => ⟨drawn, drawn.current⟩

lemma get : Draws W (fun s : Reading => s.Drawn W) get :=
  fun _ drawn => ⟨drawn, drawn⟩

lemma sees (kind : TokenKind) : Draws W (fun _ => True) (sees kind) :=
  fun _ drawn => ⟨drawn, trivial⟩

lemma advance : Draws W (fun _ => True) advance :=
  fun s drawn => ⟨drawn.onward (.pass s) rfl, trivial⟩

lemma record (e : SyntaxError) : Draws W (fun _ => True) (record e) :=
  fun s drawn => ⟨drawn.onward (.note s e) rfl, trivial⟩

lemma accept (kind : TokenKind) : Draws W (fun _ => True) (accept kind) := by
  intro s drawn
  rw [accept_eq]
  split_ifs
  · exact ⟨drawn.onward (.pass s) rfl, trivial⟩
  · exact ⟨drawn, trivial⟩

lemma require (what : Requirement) :
    Draws W (fun t => W t ∧ t.kind = what.kind) (require what) := by
  intro s drawn
  rw [require_eq]
  split_ifs with here
  · have proper : s.current.kind ≠ .eof := here ▸ requirement_kind_ne_eof what
    exact ⟨drawn.onward (.pass s) rfl, drawn.current proper, here⟩
  · exact drawn

lemma limit (count : Nat) (cause : SyntaxError.Cause) :
    Draws W (fun _ => True) (limit count cause) := by
  intro s drawn
  rw [limit_eq]
  split_ifs
  · exact ⟨drawn.onward (.note s _) rfl, trivial⟩
  · exact ⟨drawn, trivial⟩

lemma push {node : Node} (h : node.Drawn W) : Draws W (fun _ => True) (push node) := by
  refine fun s drawn => ⟨⟨drawn.tokens, fun other within => ?_⟩, trivial⟩
  rcases Array.mem_push.mp within with old | rfl
  · exact drawn.nodes other old
  · exact h

lemma unlessAt (kind : TokenKind) {otherwise : α} (h : P otherwise) (hx : Draws W P x) :
    Draws W P (unlessAt kind otherwise x) := by
  refine (sees kind).bind fun seen _ => ?_
  split
  · exact .pure h
  · exact hx

lemma ifAt (kind : TokenKind) {Q : Option α → Prop} (none : Q none) (hx : Draws W P x)
    (some : ∀ a, P a → Q (some a)) : Draws W Q (ifAt kind x) := by
  refine (accept kind).bind fun seen _ => ?_
  split
  · exact hx.map some
  · exact .pure none

lemma insideFunction (h : Draws W P x) : Draws W P (insideFunction x) := by
  intro s drawn
  have here := h s.deeper ⟨drawn.tokens, drawn.nodes⟩
  unfold Reader.insideFunction
  cases hx : x s.deeper with
  | ok a t =>
    simp only [hx] at here
    exact ⟨⟨here.1.tokens, here.1.nodes⟩, here.2⟩
  | error e t =>
    simp only [hx] at here
    exact ⟨here.tokens, here.nodes⟩

lemma recovering (h : Draws W P x) :
    Draws W (fun found => ∀ a, found = some a → P a) (recovering x) := by
  intro s drawn
  have here := h s drawn
  unfold Reader.recovering
  cases hx : x s with
  | ok a t =>
    simp only [hx] at here
    refine ⟨here.1, ?_⟩
    rintro _ ⟨⟩
    exact here.2
  | error e t =>
    simp only [hx] at here
    have noted : (t.note e).Drawn W := here.onward (.note t e) rfl
    exact ⟨noted.onward (.resumed _) rfl, nofun⟩

end Reader.Draws

end Lox
