import Lox.Program.Statement
import Mathlib.Tactic.Common

/-!
Programs as trees. A term is an expression without an array of nodes, and a phrase is a statement
whose expressions are terms. An expression denotes the term that is unfolded from its root; nodes
that the root does not reach have no part in it.
-/

namespace Lox

/-- An expression as a tree. -/
inductive Term
  | atom (atom : Atom) (line : Nat)
  | group (inner : Term)
  | unary (op : UnaryOp) (rhs : Term) (line : Nat)
  | binary (op : BinaryOp) (lhs rhs : Term) (line : Nat)
  | assign (target : Ident) (rhs : Term)
  | logical (op : LogicalOp) (lhs rhs : Term) (line : Nat)
  | call (callee : Term) (arguments : List Term) (line : Nat)
  | read (line : Nat)
  | rand (line : Nat)
  | floor (argument : Term) (line : Nat)
  | substring (subject start stop : Term) (line : Nat)
  | value (value : Value) (line : Nat)
deriving Inhabited

/-- A statement whose expressions are trees. -/
inductive Phrase
  | declareVar (name : Ident) (initial : Option Term)
  | declareFun (name : Ident) (parameters : List Ident) (body : List Phrase)
  | expression (value : Term)
  | print (value : Term)
  | block (body : List Phrase)
  | branch (condition : Term) (success : Phrase) (failure : Option Phrase)
  | whileLoop (condition : Term) (body : Phrase)
  | returnFrom (line : Nat) (value : Option Term)
  | stringLoop (name : Ident) (iterable : Term) (body : Phrase)
deriving Inhabited

namespace Term

/-- The name that an assignment to this term would set. -/
def target? : Term → Option Ident
  | .atom (.identifier name) _ => some name
  | _ => none

mutual

/-- A term lies at a place of an array of nodes, with its parts at smaller places. -/
def LiesAt (nodes : Array Node) : Term → NodeRef → Prop
  | .atom a line, i => nodes[i]? = some (.atom a line)
  | .group inner, i => ∃ j < i, nodes[i]? = some (.group j) ∧ inner.LiesAt nodes j
  | .unary op rhs line, i => ∃ r < i, nodes[i]? = some (.unary op r line) ∧ rhs.LiesAt nodes r
  | .binary op lhs rhs line, i => ∃ l < i, ∃ r < i, nodes[i]? = some (.binary op l r line) ∧
    lhs.LiesAt nodes l ∧ rhs.LiesAt nodes r
  | .assign target rhs, i => ∃ r < i, nodes[i]? = some (.assign target r) ∧ rhs.LiesAt nodes r
  | .logical op lhs rhs line, i => ∃ l < i, ∃ r < i, nodes[i]? = some (.logical op l r line) ∧
    lhs.LiesAt nodes l ∧ rhs.LiesAt nodes r
  | .call callee arguments line, i => ∃ f < i, ∃ refs, (∀ r ∈ refs, r < i) ∧
    nodes[i]? = some (.call f refs line) ∧ callee.LiesAt nodes f ∧ AllLieAt nodes arguments refs
  | .read line, i => nodes[i]? = some (.read line)
  | .rand line, i => nodes[i]? = some (.rand line)
  | .floor argument line, i => ∃ a < i, nodes[i]? = some (.floor a line) ∧
    argument.LiesAt nodes a
  | .substring subject start stop line, i => ∃ s < i, ∃ a < i, ∃ b < i,
    nodes[i]? = some (.substring s a b line) ∧ subject.LiesAt nodes s ∧ start.LiesAt nodes a ∧
      stop.LiesAt nodes b
  | .value v line, i => nodes[i]? = some (.value v line)

/-- Terms lie at places, one by one. -/
def AllLieAt (nodes : Array Node) : List Term → List NodeRef → Prop
  | [], refs => refs = []
  | t :: ts, refs => ∃ r rs, refs = r :: rs ∧ t.LiesAt nodes r ∧ AllLieAt nodes ts rs

end

end Term

/-- An array of nodes keeps what another one holds. -/
def Extends (old new : Array Node) : Prop :=
  ∀ (i : NodeRef) (node : Node), old[i]? = some node → new[i]? = some node

namespace Extends

variable {old mid new : Array Node}

lemma refl (nodes : Array Node) : Extends nodes nodes := fun _ _ h => h

lemma trans (h : Extends old mid) (k : Extends mid new) : Extends old new :=
  fun i node hi => k i node (h i node hi)

lemma push (nodes : Array Node) (node : Node) : Extends nodes (nodes.push node) := by
  intro i found hi
  have hlt : i < nodes.size := (Array.getElem?_eq_some_iff.mp hi).1
  rw [Array.getElem?_push_lt hlt]
  exact (Array.getElem?_eq_getElem hlt).symm.trans hi

end Extends

namespace Term

variable {nodes old new : Array Node}

mutual

lemma LiesAt.extend (h : Extends old new) :
    ∀ {t : Term} {i : NodeRef}, t.LiesAt old i → t.LiesAt new i
  | .atom _ _, _, lies | .read _, _, lies | .rand _, _, lies | .value _ _, _, lies => by
    simp only [LiesAt] at lies ⊢
    exact h _ _ lies
  | .group _, _, lies | .unary _ _ _, _, lies | .assign _ _, _, lies | .floor _ _, _, lies => by
    simp only [LiesAt] at lies ⊢
    obtain ⟨r, hr, node, inner⟩ := lies
    exact ⟨r, hr, h _ _ node, inner.extend h⟩
  | .binary _ _ _ _, _, lies | .logical _ _ _ _, _, lies => by
    simp only [LiesAt] at lies ⊢
    obtain ⟨l, hl, r, hr, node, left, right⟩ := lies
    exact ⟨l, hl, r, hr, h _ _ node, left.extend h, right.extend h⟩
  | .call _ _ _, _, lies => by
    simp only [LiesAt] at lies ⊢
    obtain ⟨f, hf, refs, below, node, callee, arguments⟩ := lies
    exact ⟨f, hf, refs, below, h _ _ node, callee.extend h, arguments.extend h⟩
  | .substring _ _ _ _, _, lies => by
    simp only [LiesAt] at lies ⊢
    obtain ⟨s, hs, a, ha, b, hb, node, subject, start, stop⟩ := lies
    exact ⟨s, hs, a, ha, b, hb, h _ _ node, subject.extend h, start.extend h, stop.extend h⟩

lemma AllLieAt.extend (h : Extends old new) :
    ∀ {ts : List Term} {refs : List NodeRef}, AllLieAt old ts refs → AllLieAt new ts refs
  | [], _, lies => by simpa only [AllLieAt] using lies
  | _ :: _, _, lies => by
    simp only [AllLieAt] at lies ⊢
    obtain ⟨r, rs, hrefs, first, others⟩ := lies
    exact ⟨r, rs, hrefs, first.extend h, others.extend h⟩

end

lemma LiesAt.lt_size {t : Term} {i : NodeRef} (h : t.LiesAt nodes i) : i < nodes.size := by
  have known : ∃ node, nodes[i]? = some node := by
    cases t <;> simp only [LiesAt] at h <;> grind
  obtain ⟨node, hnode⟩ := known
  exact (Array.getElem?_eq_some_iff.mp hnode).1

lemma AllLieAt.lt_size {ts : List Term} {refs : List NodeRef} (h : AllLieAt nodes ts refs) :
    ∀ r ∈ refs, r < nodes.size := by
  induction ts generalizing refs with
  | nil =>
    simp only [AllLieAt] at h
    simp [h]
  | cons t ts ih =>
    simp only [AllLieAt] at h
    obtain ⟨r, rs, rfl, first, others⟩ := h
    simp only [List.mem_cons, forall_eq_or_imp]
    exact ⟨first.lt_size, ih others⟩

/-- Whether an assignment to a node sets a name is seen from the term that lies there. -/
lemma LiesAt.target {t : Term} {i : NodeRef} (h : t.LiesAt nodes i) :
    nodes[i]?.bind Node.target? = t.target? := by
  cases t with
  | atom a line =>
    simp only [LiesAt] at h
    rw [h]
    cases a <;> rfl
  | _ =>
    simp only [LiesAt] at h
    grind [Node.target?, Term.target?]

mutual

/-- At most one term lies at a place. -/
lemma LiesAt.unique : ∀ {t u : Term} {i : NodeRef}, t.LiesAt nodes i → u.LiesAt nodes i → t = u
  | .atom _ _, u, _, ht, hu | .read _, u, _, ht, hu | .rand _, u, _, ht, hu
  | .value _ _, u, _, ht, hu => by
    cases u <;> simp only [LiesAt] at ht hu <;> grind
  | .group _, u, _, ht, hu | .unary _ _ _, u, _, ht, hu | .assign _ _, u, _, ht, hu
  | .floor _ _, u, _, ht, hu => by
    simp only [LiesAt] at ht
    obtain ⟨r, -, node, inner⟩ := ht
    have same := fun v (hv : Term.LiesAt nodes v r) => inner.unique hv
    cases u <;> simp only [LiesAt] at hu <;> grind
  | .binary _ _ _ _, u, _, ht, hu | .logical _ _ _ _, u, _, ht, hu => by
    simp only [LiesAt] at ht
    obtain ⟨l, -, r, -, node, left, right⟩ := ht
    have same := fun v (hv : Term.LiesAt nodes v l) => left.unique hv
    have same' := fun v (hv : Term.LiesAt nodes v r) => right.unique hv
    cases u <;> simp only [LiesAt] at hu <;> grind
  | .call _ _ _, u, _, ht, hu => by
    simp only [LiesAt] at ht
    obtain ⟨f, -, refs, -, node, callee, arguments⟩ := ht
    have same := fun v (hv : Term.LiesAt nodes v f) => callee.unique hv
    have same' := fun vs (hv : AllLieAt nodes vs refs) => arguments.unique hv
    cases u <;> simp only [LiesAt] at hu <;> grind
  | .substring _ _ _ _, u, _, ht, hu => by
    simp only [LiesAt] at ht
    obtain ⟨s, -, a, -, b, -, node, subject, start, stop⟩ := ht
    have same := fun v (hv : Term.LiesAt nodes v s) => subject.unique hv
    have same' := fun v (hv : Term.LiesAt nodes v a) => start.unique hv
    have same'' := fun v (hv : Term.LiesAt nodes v b) => stop.unique hv
    cases u <;> simp only [LiesAt] at hu <;> grind

lemma AllLieAt.unique : ∀ {ts us : List Term} {refs : List NodeRef},
    AllLieAt nodes ts refs → AllLieAt nodes us refs → ts = us
  | [], us, _, ht, hu => by
    cases us <;> simp only [AllLieAt] at ht hu <;> grind
  | _ :: _, us, _, ht, hu => by
    simp only [AllLieAt] at ht
    obtain ⟨r, rs, rfl, first, others⟩ := ht
    have same := fun v (hv : Term.LiesAt nodes v r) => first.unique hv
    have same' := fun vs (hv : AllLieAt nodes vs rs) => others.unique hv
    cases us <;> simp only [AllLieAt] at hu <;> grind

end

end Term

namespace Expression

/-- The term that lies at the root. -/
def Denotes (e : Expression) (t : Term) : Prop :=
  t.LiesAt e.nodes e.root

/-- The same where an expression may be missing. -/
def MaybeDenotes : Option Expression → Option Term → Prop
  | none, t => t = none
  | some e, t => ∃ u, e.Denotes u ∧ t = some u

lemma Denotes.unique {e : Expression} {t u : Term} (ht : e.Denotes t) (hu : e.Denotes u) : t = u :=
  Term.LiesAt.unique ht hu

lemma MaybeDenotes.unique {e : Option Expression} {t u : Option Term} (ht : MaybeDenotes e t)
    (hu : MaybeDenotes e u) : t = u := by
  cases e with
  | none => rw [ht, hu]
  | some e =>
    obtain ⟨t, ht, rfl⟩ := ht
    obtain ⟨u, hu, rfl⟩ := hu
    rw [ht.unique hu]

end Expression

namespace Statement

mutual

/-- The phrase that a statement is when each of its expressions is unfolded. -/
def Denotes : Statement → Phrase → Prop
  | .declareVar name initial, p => ∃ t, Expression.MaybeDenotes initial t ∧ p = .declareVar name t
  | .declareFun name parameters body, p => ∃ ps, AllDenote body ps ∧
    p = .declareFun name parameters ps
  | .expression e, p => ∃ t, e.Denotes t ∧ p = .expression t
  | .print e, p => ∃ t, e.Denotes t ∧ p = .print t
  | .block body, p => ∃ ps, AllDenote body ps ∧ p = .block ps
  | .branch condition success failure, p => ∃ t q r, condition.Denotes t ∧ success.Denotes q ∧
    MaybeDenotes failure r ∧ p = .branch t q r
  | .whileLoop condition body, p => ∃ t q, condition.Denotes t ∧ body.Denotes q ∧
    p = .whileLoop t q
  | .returnFrom line value, p => ∃ t, Expression.MaybeDenotes value t ∧ p = .returnFrom line t
  | .stringLoop name iterable body, p => ∃ t q, iterable.Denotes t ∧ body.Denotes q ∧
    p = .stringLoop name t q

/-- The same where a statement may be missing. -/
def MaybeDenotes : Option Statement → Option Phrase → Prop
  | none, p => p = none
  | some s, p => ∃ q, s.Denotes q ∧ p = some q

/-- The same for statements one by one. -/
def AllDenote : List Statement → List Phrase → Prop
  | [], ps => ps = []
  | s :: ss, ps => ∃ q qs, s.Denotes q ∧ AllDenote ss qs ∧ ps = q :: qs

end

mutual

lemma Denotes.unique : ∀ {s : Statement} {p q : Phrase}, s.Denotes p → s.Denotes q → p = q
  | .declareVar _ _, _, _, hp, hq | .returnFrom _ _, _, _, hp, hq => by
    simp only [Denotes] at hp hq
    obtain ⟨t, ht, rfl⟩ := hp
    obtain ⟨u, hu, rfl⟩ := hq
    rw [ht.unique hu]
  | .declareFun _ _ _, _, _, hp, hq | .block _, _, _, hp, hq => by
    simp only [Denotes] at hp hq
    obtain ⟨ps, hps, rfl⟩ := hp
    obtain ⟨qs, hqs, rfl⟩ := hq
    rw [hps.unique hqs]
  | .expression _, _, _, hp, hq | .print _, _, _, hp, hq => by
    simp only [Denotes] at hp hq
    obtain ⟨t, ht, rfl⟩ := hp
    obtain ⟨u, hu, rfl⟩ := hq
    rw [ht.unique hu]
  | .branch _ _ _, _, _, hp, hq => by
    simp only [Denotes] at hp hq
    obtain ⟨t, q, r, ht, hq', hr, rfl⟩ := hp
    obtain ⟨t', q', r', ht', hq'', hr', rfl⟩ := hq
    rw [ht.unique ht', hq'.unique hq'', hr.unique hr']
  | .whileLoop _ _, _, _, hp, hq | .stringLoop _ _ _, _, _, hp, hq => by
    simp only [Denotes] at hp hq
    obtain ⟨t, q, ht, hq', rfl⟩ := hp
    obtain ⟨t', q', ht', hq'', rfl⟩ := hq
    rw [ht.unique ht', hq'.unique hq'']

lemma MaybeDenotes.unique : ∀ {s : Option Statement} {p q : Option Phrase},
    MaybeDenotes s p → MaybeDenotes s q → p = q
  | none, _, _, hp, hq => by
    simp only [MaybeDenotes] at hp hq
    rw [hp, hq]
  | some _, _, _, hp, hq => by
    simp only [MaybeDenotes] at hp hq
    obtain ⟨p, hp, rfl⟩ := hp
    obtain ⟨q, hq, rfl⟩ := hq
    rw [hp.unique hq]

lemma AllDenote.unique : ∀ {ss : List Statement} {ps qs : List Phrase},
    AllDenote ss ps → AllDenote ss qs → ps = qs
  | [], _, _, hp, hq => by
    simp only [AllDenote] at hp hq
    rw [hp, hq]
  | _ :: _, _, _, hp, hq => by
    simp only [AllDenote] at hp hq
    obtain ⟨p, ps, hp, hps, rfl⟩ := hp
    obtain ⟨q, qs, hq, hqs, rfl⟩ := hq
    rw [hp.unique hq, hps.unique hqs]

end

section

variable {st : Statement} {ss : List Statement} {t : Term} {p : Phrase} {ps : List Phrase}

lemma denotes_expression (h : st.Denotes (.expression t)) :
    ∃ e, st = .expression e ∧ e.Denotes t := by
  cases st with
  | expression e =>
    obtain ⟨t, denotes, ⟨⟩⟩ := h
    exact ⟨e, rfl, denotes⟩
  | _ => simp only [Denotes, reduceCtorEq, and_false, exists_false] at h

lemma denotes_block (h : st.Denotes (.block ps)) : ∃ ss, st = .block ss ∧ AllDenote ss ps := by
  cases st with
  | block ss =>
    obtain ⟨ps, denote, ⟨⟩⟩ := h
    exact ⟨ss, rfl, denote⟩
  | _ => simp only [Denotes, reduceCtorEq, and_false, exists_false] at h

lemma denotes_whileLoop (h : st.Denotes (.whileLoop t p)) :
    ∃ e body, st = .whileLoop e body ∧ e.Denotes t ∧ body.Denotes p := by
  cases st with
  | whileLoop e body =>
    obtain ⟨t, p, test, run, ⟨⟩⟩ := h
    exact ⟨e, body, rfl, test, run⟩
  | _ => simp only [Denotes, reduceCtorEq, and_false, exists_false] at h

lemma allDenote_pair {q : Phrase} (h : AllDenote ss [p, q]) :
    ∃ first second, ss = [first, second] ∧ first.Denotes p ∧ second.Denotes q := by
  match ss, h with
  | [first, second], h =>
    obtain ⟨_, _, one, ⟨_, _, two, rfl, rfl⟩, ⟨⟩⟩ := h
    exact ⟨first, second, rfl, one, two⟩
  | [], h => cases h
  | [_], h => obtain ⟨_, _, _, rfl, ⟨⟩⟩ := h
  | _ :: _ :: _ :: _, h =>
    obtain ⟨_, _, _, ⟨_, _, _, ⟨_, _, _, _, rfl⟩, rfl⟩, ⟨⟩⟩ := h

end

end Statement

end Lox
