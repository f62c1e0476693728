import Lox.Proofs.Derivation.Fit
import Lox.Proofs.Evaluation.Discipline

/-!
The fragment of what a grammar derives. The terms of its expressions hold no values that stand for
themselves, and it returns only from within functions.
-/

namespace Lox

namespace Term

variable {nodes : Array Node}

lemma AllLieAt.exists_plain {ts : List Term} {refs : List NodeRef} (lie : AllLieAt nodes ts refs)
    (plain : AllPlain ts) {j : NodeRef} (h : j ∈ refs) :
    ∃ u : Term, u.LiesAt nodes j ∧ u.Plain := by
  induction ts generalizing refs with
  | nil =>
    simp only [AllLieAt] at lie
    simp [lie] at h
  | cons t ts ih =>
    simp only [AllLieAt] at lie
    simp only [AllPlain] at plain
    obtain ⟨r, rs, rfl, first, others⟩ := lie
    rcases List.mem_cons.mp h with rfl | h
    · exact ⟨t, first, plain.1⟩
    · exact ih others plain.2 h

/-- What lies at the operands of a plain term is plain. -/
lemma LiesAt.exists_plain {t : Term} {i j : NodeRef} {node : Node} (lies : t.LiesAt nodes i)
    (plain : t.Plain) (found : nodes[i]? = some node) (h : j ∈ node.operands) :
    ∃ u : Term, u.LiesAt nodes j ∧ u.Plain := by
  cases t with
  | atom | read | rand | value =>
    simp only [LiesAt, found] at lies
    cases lies
    cases h
  | group | unary | assign | floor =>
    simp only [LiesAt, found] at lies
    simp only [Plain] at plain
    obtain ⟨r, -, ⟨⟩, inner⟩ := lies
    obtain rfl := List.mem_singleton.mp h
    exact ⟨_, inner, plain⟩
  | binary | logical =>
    simp only [LiesAt, found] at lies
    simp only [Plain] at plain
    obtain ⟨l, -, r, -, ⟨⟩, left, right⟩ := lies
    simp only [Node.operands, List.mem_cons, List.not_mem_nil, or_false] at h
    rcases h with rfl | rfl
    · exact ⟨_, left, plain.1⟩
    · exact ⟨_, right, plain.2⟩
  | call =>
    simp only [LiesAt, found] at lies
    simp only [Plain] at plain
    obtain ⟨f, -, refs, -, ⟨⟩, callee, arguments⟩ := lies
    rcases List.mem_cons.mp h with rfl | h
    · exact ⟨_, callee, plain.1⟩
    · exact arguments.exists_plain plain.2 h
  | substring =>
    simp only [LiesAt, found] at lies
    simp only [Plain] at plain
    obtain ⟨s, -, a, -, b, -, ⟨⟩, subject, start, stop⟩ := lies
    simp only [Node.operands, List.mem_cons, List.not_mem_nil, or_false] at h
    rcases h with rfl | rfl | rfl
    · exact ⟨_, subject, plain.1⟩
    · exact ⟨_, start, plain.2.1⟩
    · exact ⟨_, stop, plain.2.2⟩

lemma LiesAt.found {t : Term} {i : NodeRef} (lies : t.LiesAt nodes i) : nodes[i]? ≠ none :=
  fun missing => Nat.not_lt_of_le (Array.getElem?_eq_none_iff.mp missing) lies.lt_size

lemma LiesAt.not_value {t : Term} {i : NodeRef} {v : Value} {line : Nat}
    (lies : t.LiesAt nodes i) (plain : t.Plain) : nodes[i]? ≠ some (.value v line) := by
  intro found
  cases t <;> simp only [LiesAt, found] at lies
  case value => exact plain.elim
  all_goals grind

end Term

namespace Statement

/-- A statement that the grammar may derive. -/
def Derived (inside : Bool) (st : Statement) : Prop :=
  ∃ p, st.Denotes p ∧ p.Fit inside

variable {inside : Bool}

lemma AllDenote.derived {ss : List Statement} {ps : List Phrase} (denote : AllDenote ss ps)
    (fit : Phrase.AllFit inside ps) : ∀ st ∈ ss, st.Derived inside := by
  induction ss generalizing ps with
  | nil => exact List.forall_mem_nil _
  | cons st ss ih =>
    obtain ⟨q, qs, first, others, rfl⟩ := denote
    simp only [Phrase.AllFit] at fit
    simp only [List.mem_cons, forall_eq_or_imp]
    exact ⟨⟨q, first, fit.1⟩, ih others fit.2⟩

lemma Derived.subject {st : Statement} {e : Expression} (h : st.Derived inside)
    (he : st.subject? = some e) : ∃ t, e.Denotes t ∧ t.Plain := by
  obtain ⟨p, denotes, fit⟩ := h
  cases st with
  | declareVar _ initial =>
    obtain ⟨t, denotes, rfl⟩ := denotes
    simp only [Phrase.Fit] at fit
    obtain rfl : initial = some e := he
    obtain ⟨u, denotes, rfl⟩ := denotes
    exact ⟨u, denotes, fit u rfl⟩
  | expression | print =>
    obtain ⟨t, denotes, rfl⟩ := denotes
    simp only [Phrase.Fit] at fit
    cases he
    exact ⟨t, denotes, fit⟩
  | branch =>
    obtain ⟨t, q, r, denotes, -, -, rfl⟩ := denotes
    simp only [Phrase.Fit] at fit
    cases he
    exact ⟨t, denotes, fit.1⟩
  | whileLoop | stringLoop =>
    obtain ⟨t, q, denotes, -, rfl⟩ := denotes
    simp only [Phrase.Fit] at fit
    cases he
    exact ⟨t, denotes, fit.1⟩
  | returnFrom _ value =>
    obtain ⟨t, denotes, rfl⟩ := denotes
    simp only [Phrase.Fit] at fit
    obtain rfl : value = some e := he
    obtain ⟨u, denotes, rfl⟩ := denotes
    exact ⟨u, denotes, fit.2 u rfl⟩
  | declareFun | block => cases he

lemma Derived.part {st part : Statement} (h : st.Derived inside) (within : part ∈ st.parts) :
    part.Derived (st.encloses inside) := by
  obtain ⟨p, denotes, fit⟩ := h
  cases st with
  | declareFun | block =>
    obtain ⟨ps, denote, rfl⟩ := denotes
    simp only [Phrase.Fit] at fit
    exact denote.derived fit part within
  | branch e success failure =>
    obtain ⟨t, q, r, -, yes, no, rfl⟩ := denotes
    simp only [Phrase.Fit] at fit
    cases failure with
    | none =>
      obtain rfl := List.mem_singleton.mp within
      exact ⟨q, yes, fit.2.1⟩
    | some failure =>
      obtain ⟨r, no, rfl⟩ := no
      simp only [Phrase.MaybeFit] at fit
      simp only [parts, List.mem_cons, List.not_mem_nil, or_false] at within
      rcases within with rfl | rfl
      · exact ⟨q, yes, fit.2.1⟩
      · exact ⟨r, no, fit.2.2⟩
  | whileLoop | stringLoop =>
    obtain ⟨t, q, -, body, rfl⟩ := denotes
    simp only [Phrase.Fit] at fit
    obtain rfl := List.mem_singleton.mp within
    exact ⟨q, body, fit.2⟩
  | declareVar | expression | print | returnFrom => cases within

lemma Derived.of_return {line : Nat} {value : Option Expression}
    (h : Derived inside (.returnFrom line value)) : inside = true := by
  obtain ⟨p, ⟨t, -, rfl⟩, fit⟩ := h
  simp only [Phrase.Fit] at fit
  exact fit.1

end Statement

/-- What the grammar derives. -/
def Fragment.derived : Fragment where
  node nodes i := ∃ t : Term, t.LiesAt nodes i ∧ t.Plain
  statement := Statement.Derived
  operand := by
    rintro nodes i j node ⟨t, lies, plain⟩ found within
    exact lies.exists_plain plain found within
  subject h he := h.subject he
  part h within := h.part within
  inside h := h.of_return

end Lox
