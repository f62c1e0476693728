import Lox.Proofs.Listing.Nested
import Lox.Proofs.Tree.Term

/-!
What a listing shows of a tree. The array of nodes that holds an expression has no part in it: the
listing is that of the term which is unfolded from the root.
-/

namespace Lox

open Nested (texts)

namespace Nested

/-- A list that a word heads. -/
def headed (head : String) (parts : List Nested) : Nested :=
  .list (.word head :: parts)

variable {head head' : String} {parts parts' : List Nested}

lemma headed_inj : headed head parts = headed head' parts' ↔ head = head' ∧ parts = parts' := by
  simp only [headed, list.injEq, List.cons.injEq, word.injEq]

lemma headed_ne (h : head ≠ head') : headed head parts ≠ headed head' parts' :=
  fun same => h (headed_inj.mp same).1

end Nested

/-- What an operand without operands of its own is listed as. -/
def Atom.nested : Atom → Nested
  | .number x => .word (Layout.literal.text x)
  | .bool b => .word (Dump.bool b)
  | .nil => .word "nil"
  | .identifier name => .word name.name
  | .string s => .quoted s

lemma Atom.listing_eq (a : Atom) : a.listing = a.nested.text := by
  cases a <;> rfl

namespace Term

mutual

def nested : Term → Nested
  | .atom a _ => a.nested
  | .group inner => .headed "group" [inner.nested]
  | .unary op rhs _ => .headed op.symbol [rhs.nested]
  | .binary op lhs rhs _ => .headed op.symbol [lhs.nested, rhs.nested]
  | .assign target rhs => .headed "=" [.word target.name, rhs.nested]
  | .logical op lhs rhs _ => .headed op.symbol [lhs.nested, rhs.nested]
  | .call callee arguments _ => .headed "call" (callee.nested :: allNested arguments)
  | .read _ => .headed "read" []
  | .rand _ => .headed "rand" []
  | .floor argument _ => .headed "floor" [argument.nested]
  | .substring subject start stop _ =>
    .headed "substring" [subject.nested, start.nested, stop.nested]
  | .value v _ => .headed "dynamic" [.word v.text]

def allNested : List Term → List Nested
  | [] => []
  | t :: ts => t.nested :: allNested ts

end

/-- The list of a term that may be missing. -/
def maybeNested : Option Term → List Nested
  | none => []
  | some t => [t.nested]

end Term

namespace Phrase

mutual

def nested : Phrase → Nested
  | .declareVar name initial => .headed "var" (.word name.name :: Term.maybeNested initial)
  | .declareFun name parameters body =>
    .headed "fun" (.word name.name :: .list (parameters.map (.word ·.name)) :: allNested body)
  | .expression value => .headed ";" [value.nested]
  | .print value => .headed "print" [value.nested]
  | .block body => .headed "block" (allNested body)
  | .branch condition success failure =>
    .headed "if" (condition.nested :: success.nested :: maybeNested failure)
  | .whileLoop condition body => .headed "while" [condition.nested, body.nested]
  | .returnFrom _ value => .headed "return" (Term.maybeNested value)
  | .stringLoop name iterable body =>
    .headed "loop" [.word name.name, iterable.nested, body.nested]

/-- The list of a phrase that may be missing. -/
def maybeNested : Option Phrase → List Nested
  | none => []
  | some p => [p.nested]

def allNested : List Phrase → List Nested
  | [] => []
  | p :: ps => p.nested :: allNested ps

end

end Phrase

lemma Nested.texts_words (names : List Ident) :
    texts (names.map (.word ·.name)) = names.map (·.name) := by
  induction names with
  | nil => rfl
  | cons name names ih => rw [List.map_cons, texts, ih, text, List.map_cons]

open Expression (listingWithin)

variable {nodes : Array Node}

mutual

/-- To a depth beyond its place, a node is listed like the term that lies there. -/
lemma Term.LiesAt.listing : ∀ {t : Term} {i : Nat}, t.LiesAt nodes i → ∀ {depth : Nat},
    i < depth → listingWithin nodes depth i = t.nested.text
  | .atom a _, _, lies, depth + 1, _ => by
    rw [Term.LiesAt] at lies
    simp only [listingWithin, lies, Term.nested, a.listing_eq]
  | .read _, _, lies, depth + 1, _ | .rand _, _, lies, depth + 1, _
  | .value _ _, _, lies, depth + 1, _ => by
    rw [Term.LiesAt] at lies
    simp only [listingWithin, lies]
    rfl
  -- The parts lie at smaller places, so what is left of the depth is beyond theirs.
  | .group _, _, lies, depth + 1, deep | .unary _ _ _, _, lies, depth + 1, deep
  | .assign _ _, _, lies, depth + 1, deep | .floor _ _, _, lies, depth + 1, deep => by
    rw [Term.LiesAt] at lies
    obtain ⟨r, hr, node, inner⟩ := lies
    have part := inner.listing (Nat.lt_of_lt_of_le hr (Nat.le_of_lt_succ deep))
    simp only [listingWithin, node, part]
    rfl
  | .binary _ _ _ _, _, lies, depth + 1, deep | .logical _ _ _ _, _, lies, depth + 1, deep => by
    rw [Term.LiesAt] at lies
    obtain ⟨l, hl, r, hr, node, left, right⟩ := lies
    have one := left.listing (Nat.lt_of_lt_of_le hl (Nat.le_of_lt_succ deep))
    have two := right.listing (Nat.lt_of_lt_of_le hr (Nat.le_of_lt_succ deep))
    simp only [listingWithin, node, one, two]
    rfl
  | .call _ _ _, _, lies, depth + 1, deep => by
    rw [Term.LiesAt] at lies
    obtain ⟨f, hf, refs, below, node, callee, arguments⟩ := lies
    have one := callee.listing (Nat.lt_of_lt_of_le hf (Nat.le_of_lt_succ deep))
    have others := arguments.listings
      fun r within => Nat.lt_of_lt_of_le (below r within) (Nat.le_of_lt_succ deep)
    simp only [listingWithin, node, one, others]
    rfl
  | .substring _ _ _ _, _, lies, depth + 1, deep => by
    rw [Term.LiesAt] at lies
    obtain ⟨s, hs, a, ha, b, hb, node, subject, start, stop⟩ := lies
    have one := subject.listing (Nat.lt_of_lt_of_le hs (Nat.le_of_lt_succ deep))
    have two := start.listing (Nat.lt_of_lt_of_le ha (Nat.le_of_lt_succ deep))
    have three := stop.listing (Nat.lt_of_lt_of_le hb (Nat.le_of_lt_succ deep))
    simp only [listingWithin, node, one, two, three]
    rfl

lemma Term.AllLieAt.listings : ∀ {ts : List Term} {refs : List NodeRef},
    AllLieAt nodes ts refs → ∀ {depth : Nat}, (∀ r ∈ refs, r < depth) →
    refs.map (listingWithin nodes depth) = texts (allNested ts)
  | [], _, lie, _, _ => by
    rw [AllLieAt] at lie
    rw [lie, List.map_nil, allNested, texts]
  | _ :: _, _, lie, _, deep => by
    rw [AllLieAt] at lie
    obtain ⟨r, rs, rfl, first, others⟩ := lie
    obtain ⟨here, behind⟩ := List.forall_mem_cons.mp deep
    rw [List.map_cons, first.listing here, others.listings behind, allNested, texts]

end

/-- The listing of an expression is that of its term. -/
lemma Expression.Denotes.listing {e : Expression} {t : Term} (h : e.Denotes t) :
    e.listing = t.nested.text :=
  Term.LiesAt.listing h (Term.LiesAt.lt_size h)

namespace Statement

mutual

/-- The listing of a statement is that of its phrase. -/
theorem Denotes.listing : ∀ {s : Statement} {p : Phrase}, s.Denotes p → s.listing = p.nested.text
  | .declareVar _ none, _, h | .returnFrom _ none, _, h => by
    rw [Denotes] at h
    obtain ⟨_, rfl, rfl⟩ := h
    rfl
  | .declareVar _ (some _), _, h | .returnFrom _ (some _), _, h => by
    rw [Denotes] at h
    obtain ⟨_, ⟨t, denotes, rfl⟩, rfl⟩ := h
    rw [Statement.listing, denotes.listing]
    rfl
  | .declareFun _ parameters _, _, h => by
    rw [Denotes] at h
    obtain ⟨ps, denote, rfl⟩ := h
    rw [Statement.listing, denote.listings, ← Nested.texts_words parameters]
    rfl
  | .expression _, _, h | .print _, _, h => by
    rw [Denotes] at h
    obtain ⟨t, denotes, rfl⟩ := h
    rw [Statement.listing, denotes.listing]
    rfl
  | .block _, _, h => by
    rw [Denotes] at h
    obtain ⟨ps, denote, rfl⟩ := h
    rw [Statement.listing, denote.listings]
    rfl
  | .branch _ _ none, _, h => by
    rw [Denotes] at h
    obtain ⟨t, q, _, test, run, rfl, rfl⟩ := h
    rw [Statement.listing, test.listing, run.listing]
    rfl
  | .branch _ _ (some _), _, h => by
    rw [Denotes] at h
    obtain ⟨t, q, _, test, run, ⟨r, other, rfl⟩, rfl⟩ := h
    rw [Statement.listing, test.listing, run.listing, other.listing]
    rfl
  | .whileLoop _ _, _, h | .stringLoop _ _ _, _, h => by
    rw [Denotes] at h
    obtain ⟨t, q, denotes, run, rfl⟩ := h
    rw [Statement.listing, denotes.listing, run.listing]
    rfl

lemma AllDenote.listings : ∀ {ss : List Statement} {ps : List Phrase},
    AllDenote ss ps → listings ss = texts (Phrase.allNested ps)
  | [], _, h => by
    rw [AllDenote] at h
    rw [h]
    rfl
  | _ :: _, _, h => by
    rw [AllDenote] at h
    obtain ⟨q, qs, first, others, rfl⟩ := h
    rw [Statement.listings, first.listing, others.listings, Phrase.allNested, texts]

end

lemma listings_eq (ss : List Statement) : listings ss = ss.map listing := by
  induction ss with
  | nil => rfl
  | cons s ss ih => rw [listings, ih, List.map_cons]

end Statement

end Lox
