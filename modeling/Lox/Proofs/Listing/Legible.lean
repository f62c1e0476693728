import Lox.Proofs.Decimal.Written
import Lox.Proofs.Listing.Trees
import Lox.Proofs.Place.Terms
import Lox.Proofs.Scan.Names

/-!
What can be read off a listing. The names in a tree are no reserved words and no numbers, its
numbers are finite, and its strings have no quote in them. Its listing is then legible.
-/

namespace Lox

open Located (moved)
open Nested (IsPlain)

def Atom.Legible : Atom → Prop
  | .number x => x.isFinite = true
  | .bool _ | .nil => True
  | .identifier name => IsName name.name
  | .string s => '\x22' ∉ s.toList

namespace Term

mutual

/-- A term without values that were put into it, and with legible atoms. -/
def Legible : Term → Prop
  | .atom a _ => a.Legible
  | .group inner => inner.Legible
  | .unary _ rhs _ => rhs.Legible
  | .binary _ lhs rhs _ | .logical _ lhs rhs _ => lhs.Legible ∧ rhs.Legible
  | .assign target rhs => IsName target.name ∧ rhs.Legible
  | .call callee arguments _ => callee.Legible ∧ AllLegible arguments
  | .read _ | .rand _ => True
  | .floor argument _ => argument.Legible
  | .substring subject start stop _ => subject.Legible ∧ start.Legible ∧ stop.Legible
  | .value _ _ => False

def AllLegible : List Term → Prop
  | [] => True
  | t :: ts => t.Legible ∧ AllLegible ts

end

/-- The same where a term may be missing. -/
def MaybeLegible : Option Term → Prop
  | none => True
  | some t => t.Legible

end Term

namespace Phrase

mutual

def Legible : Phrase → Prop
  | .declareVar name initial => IsName name.name ∧ Term.MaybeLegible initial
  | .declareFun name parameters body =>
    IsName name.name ∧ (∀ parameter ∈ parameters, IsName parameter.name) ∧ AllLegible body
  | .expression value | .print value => value.Legible
  | .block body => AllLegible body
  | .branch condition success failure =>
    condition.Legible ∧ success.Legible ∧ MaybeLegible failure
  | .whileLoop condition body => condition.Legible ∧ body.Legible
  | .returnFrom _ value => Term.MaybeLegible value
  | .stringLoop name iterable body => IsName name.name ∧ iterable.Legible ∧ body.Legible

/-- The same where a phrase may be missing. -/
def MaybeLegible : Option Phrase → Prop
  | none => True
  | some p => p.Legible

def AllLegible : List Phrase → Prop
  | [] => True
  | p :: ps => p.Legible ∧ AllLegible ps

end

end Phrase

lemma Term.allLegible_iff {ts : List Term} : AllLegible ts ↔ ∀ t ∈ ts, t.Legible := by
  induction ts with
  | nil => simp [AllLegible]
  | cons t ts ih => simp [AllLegible, ih]

lemma Phrase.allLegible_iff {ps : List Phrase} : AllLegible ps ↔ ∀ p ∈ ps, p.Legible := by
  induction ps with
  | nil => simp [AllLegible]
  | cons p ps ih => simp [AllLegible, ih]

lemma Term.Legible.target {t : Term} {name : Ident} (h : t.Legible) (sets : t.target? = some name) :
    IsName name.name := by
  unfold Term.target? at sets
  split at sets
  · cases sets
    exact h
  · cases sets

/-! Words and numbers. -/

/-- No character that a word or a number is written with is a mark of a list. -/
lemma not_mem_marks {c : Char} (h : Piece.continuesWord c = true ∨ Numeral.IsMark c) :
    c ∉ Nested.marks := by
  intro mark
  simp only [Nested.marks, List.mem_cons, List.not_mem_nil, or_false] at mark
  unfold Numeral.IsMark at h
  rcases mark with rfl | rfl | rfl | rfl <;> exact absurd h (by decide)

lemma IsWord.isPlain {w : String} (h : IsWord w) : IsPlain w := by
  obtain ⟨starts, continues⟩ := h
  refine ⟨?_, fun c within => not_mem_marks (.inl (continues c within))⟩
  rintro rfl
  cases starts

namespace Layout

variable {l : Layout} {x : Float} {w : String}

lemma isPlain_text (l : Layout) (finite : x.isFinite = true) : IsPlain (l.text x) := by
  obtain ⟨body, written, spelled, -⟩ := l.text_finite finite
  constructor
  · obtain ⟨first, rest, rfl, -⟩ := spelled.starts
    intro empty
    rw [empty] at written
    split at written <;> cases written
  · rw [written]
    intro c within
    refine not_mem_marks (.inr ?_)
    rcases List.mem_append.mp within with sign | within
    · split at sign
      · rw [List.mem_singleton.mp sign]
        exact .inr (by decide)
      · cases sign
    · exact spelled.marks c within

lemma not_startsWord_digit {c : Char} (h : c.isDigit = true) : Piece.startsWord c = false := by
  rw [Char.isDigit, Bool.and_eq_true, decide_eq_true_eq, decide_eq_true_eq] at h
  have below : c ≤ '9' := h.2
  have small : ¬ 'a' ≤ c := fun above => absurd (Char.le_trans above below) (by decide)
  have capital : ¬ 'A' ≤ c := fun above => absurd (Char.le_trans above below) (by decide)
  have other : c ≠ '_' := by
    rintro rfl
    exact absurd below (by decide)
  simp [Piece.startsWord, small, capital, other]

/-- No number is written like a word. -/
lemma text_ne_word (finite : x.isFinite = true) (h : IsWord w) : l.text x ≠ w := by
  rintro rfl
  obtain ⟨body, written, spelled, -⟩ := l.text_finite finite
  obtain ⟨first, rest, rfl, digit⟩ := spelled.starts
  have starts := h.1
  rw [written] at starts
  split at starts
  · cases starts
  · rw [List.nil_append, Piece.startsWith, not_startsWord_digit digit] at starts
    cases starts

end Layout

/-! A legible tree has a legible listing. -/

lemma Nested.Legible.headed {head : String} {parts : List Nested} (plain : IsPlain head)
    (h : ∀ part ∈ parts, part.Legible) : (Nested.headed head parts).Legible :=
  .list (List.forall_mem_cons.mpr ⟨.word plain, h⟩)

lemma Nested.Legible.name {w : String} (h : IsName w) : (Nested.word w).Legible :=
  .word h.word.isPlain

lemma Atom.Legible.nested {a : Atom} (h : a.Legible) : a.nested.Legible := by
  cases a with
  | number x => exact .word (Layout.literal.isPlain_text h)
  | bool b => cases b <;> exact .word (by decide)
  | nil => exact .word (by decide)
  | identifier name => exact .name h
  | string s => exact .quoted h

lemma UnaryOp.isPlain_symbol (op : UnaryOp) : IsPlain op.symbol := by
  cases op <;> decide

lemma BinaryOp.isPlain_symbol (op : BinaryOp) : IsPlain op.symbol := by
  cases op <;> decide

lemma LogicalOp.isPlain_symbol (op : LogicalOp) : IsPlain op.symbol := by
  cases op <;> decide

mutual

lemma Term.Legible.nested : ∀ {t : Term}, t.Legible → t.nested.Legible
  | .atom a _, h => Atom.Legible.nested h
  | .group _, h | .floor _ _, h => by
    rw [Term.Legible] at h
    exact .headed (by decide) (by simpa using h.nested)
  | .unary op _ _, h => by
    rw [Term.Legible] at h
    exact .headed op.isPlain_symbol (by simpa using h.nested)
  | .binary op _ _ _, h | .logical op _ _ _, h => by
    rw [Term.Legible] at h
    exact .headed op.isPlain_symbol (by simpa using ⟨h.1.nested, h.2.nested⟩)
  | .assign _ _, h => by
    rw [Term.Legible] at h
    exact .headed (by decide) (by simpa using ⟨.name h.1, h.2.nested⟩)
  | .call _ _ _, h => by
    rw [Term.Legible] at h
    exact .headed (by decide) (List.forall_mem_cons.mpr ⟨h.1.nested, h.2.nested⟩)
  | .read _, _ | .rand _, _ => .headed (by decide) (List.forall_mem_nil _)
  | .substring _ _ _ _, h => by
    rw [Term.Legible] at h
    exact .headed (by decide) (by simpa using ⟨h.1.nested, h.2.1.nested, h.2.2.nested⟩)

lemma Term.AllLegible.nested : ∀ {ts : List Term}, AllLegible ts →
    ∀ part ∈ allNested ts, part.Legible
  | [], _ => List.forall_mem_nil _
  | _ :: _, h => by
    rw [AllLegible] at h
    exact List.forall_mem_cons.mpr ⟨h.1.nested, h.2.nested⟩

end

lemma Term.MaybeLegible.nested {t : Option Term} (h : MaybeLegible t) :
    ∀ part ∈ maybeNested t, part.Legible := by
  cases t with
  | none => exact List.forall_mem_nil _
  | some t => exact List.forall_mem_singleton.mpr (Term.Legible.nested h)

mutual

lemma Phrase.Legible.nested : ∀ {p : Phrase}, p.Legible → p.nested.Legible
  | .declareVar _ _, h => by
    rw [Phrase.Legible] at h
    exact .headed (by decide) (List.forall_mem_cons.mpr ⟨.name h.1, h.2.nested⟩)
  | .declareFun _ parameters _, h => by
    rw [Phrase.Legible] at h
    have names : ∀ part ∈ parameters.map (Nested.word ·.name), part.Legible := by
      simpa using fun parameter within => Nested.Legible.name (h.2.1 parameter within)
    exact .headed (by decide)
      (List.forall_mem_cons.mpr ⟨.name h.1, List.forall_mem_cons.mpr ⟨.list names, h.2.2.nested⟩⟩)
  | .expression _, h | .print _, h => by
    rw [Phrase.Legible] at h
    exact .headed (by decide) (by simpa using h.nested)
  | .block _, h => by
    rw [Phrase.Legible] at h
    exact .headed (by decide) h.nested
  | .branch _ _ _, h => by
    rw [Phrase.Legible] at h
    exact .headed (by decide)
      (List.forall_mem_cons.mpr ⟨h.1.nested, List.forall_mem_cons.mpr ⟨h.2.1.nested, h.2.2.nested⟩⟩)
  | .whileLoop _ _, h => by
    rw [Phrase.Legible] at h
    exact .headed (by decide) (by simpa using ⟨h.1.nested, h.2.nested⟩)
  | .returnFrom _ _, h => by
    rw [Phrase.Legible] at h
    exact .headed (by decide) h.nested
  | .stringLoop _ _ _, h => by
    rw [Phrase.Legible] at h
    exact .headed (by decide) (by simpa using ⟨.name h.1, h.2.1.nested, h.2.2.nested⟩)

lemma Phrase.MaybeLegible.nested : ∀ {p : Option Phrase}, MaybeLegible p →
    ∀ part ∈ maybeNested p, part.Legible
  | none, _ => List.forall_mem_nil _
  | some _, h => by
    rw [MaybeLegible] at h
    exact List.forall_mem_singleton.mpr h.nested

lemma Phrase.AllLegible.nested : ∀ {ps : List Phrase}, AllLegible ps →
    ∀ part ∈ allNested ps, part.Legible
  | [], _ => List.forall_mem_nil _
  | _ :: _, h => by
    rw [AllLegible] at h
    exact List.forall_mem_cons.mpr ⟨h.1.nested, h.2.nested⟩

end

end Lox
