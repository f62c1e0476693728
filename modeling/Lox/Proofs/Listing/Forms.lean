import Lox.Proofs.Listing.Legible

/-!
A listing tells what is listed. The head of a list and the number of its other parts tell the form
of the term or phrase, and the parts tell the rest, all but the places.
-/

namespace Lox

open Located (moved)
open Nested (headed headed_inj list word texts)

lemma UnaryOp.symbol_injective : Function.Injective UnaryOp.symbol := by
  intro op op' same
  cases op <;> cases op' <;> first | rfl | exact absurd same (by decide)

lemma BinaryOp.symbol_injective : Function.Injective BinaryOp.symbol := by
  intro op op' same
  cases op <;> cases op' <;> first | rfl | exact absurd same (by decide)

lemma LogicalOp.symbol_injective : Function.Injective LogicalOp.symbol := by
  intro op op' same
  cases op <;> cases op' <;> first | rfl | exact absurd same (by decide)

/-! Names and atoms. -/

lemma Ident.moved_nowhere_eq {a b : Ident} (same : a.name = b.name) :
    moved .nowhere a = moved .nowhere b := by
  change Ident.mk a.name ⟨0, 0⟩ 0 = Ident.mk b.name ⟨0, 0⟩ 0
  rw [same]

lemma Ident.all_moved_nowhere_eq {as bs : List Ident}
    (same : as.map (word ·.name) = bs.map (word ·.name)) :
    moved .nowhere as = moved .nowhere bs := by
  have named (names : List Ident) :
      moved .nowhere names = (names.map (·.name)).map (Ident.mk · ⟨0, 0⟩ 0) := by
    rw [List.map_map]
    rfl
  have names := congrArg texts same
  rw [Nested.texts_words, Nested.texts_words] at names
  rw [named, named, names]

namespace Atom

variable {a b : Atom}

/-- The atom that is listed as a word: what is not reserved is a name. -/
def ofWord (w : String) : Atom :=
  if w = "nil" then .nil
  else if w = "true" then .bool true
  else if w = "false" then .bool false
  else .identifier ⟨w, ⟨0, 0⟩, 0⟩

/-- An atom is a number, a string, or told by a word. -/
lemma Legible.cases (h : a.Legible) : (∃ x, a = .number x) ∨ (∃ s, a = .string s) ∨
    ∃ w, IsWord w ∧ a.nested = .word w ∧ moved .nowhere a = ofWord w := by
  cases a with
  | number x => exact .inl ⟨x, rfl⟩
  | string s => exact .inr (.inl ⟨s, rfl⟩)
  | bool b => cases b <;> exact .inr (.inr ⟨_, by decide, rfl, rfl⟩)
  | nil => exact .inr (.inr ⟨_, by decide, rfl, rfl⟩)
  | identifier name =>
    have other {w : String} (reserved : TokenKind.ofKeyword? w ≠ none) : name.name ≠ w := by
      rintro rfl
      exact reserved h.free
    refine .inr (.inr ⟨name.name, h.word, rfl, ?_⟩)
    rw [ofWord, if_neg (other (by decide)), if_neg (other (by decide)), if_neg (other (by decide))]
    rfl

lemma moved_nowhere_eq (ha : a.Legible) (hb : b.Legible) (same : a.nested = b.nested) :
    moved .nowhere a = moved .nowhere b := by
  obtain ⟨x, rfl⟩ | ⟨s, rfl⟩ | ⟨w, spelled, listed, told⟩ := ha.cases <;>
    obtain ⟨y, rfl⟩ | ⟨t, rfl⟩ | ⟨v, spelled', listed', told'⟩ := hb.cases
  · rw [Layout.text_injective ha hb (word.inj same)]
  · cases same
  · rw [listed'] at same
    exact absurd (word.inj same) (Layout.text_ne_word ha spelled')
  · cases same
  · cases same
    rfl
  · rw [listed'] at same
    cases same
  · rw [listed] at same
    exact absurd (word.inj same).symm (Layout.text_ne_word hb spelled)
  · rw [listed] at same
    cases same
  · rw [listed, listed'] at same
    cases same
    rw [told, told']

end Atom

/-! Terms. -/

/-- The forms of terms. -/
inductive Term.Form
  | atom | group | unary | binary | assign | logical | call | read | rand | floor | substring
  | value

def Term.form : Term → Form
  | .atom _ _ => .atom
  | .group _ => .group
  | .unary _ _ _ => .unary
  | .binary _ _ _ _ => .binary
  | .assign _ _ => .assign
  | .logical _ _ _ _ => .logical
  | .call _ _ _ => .call
  | .read _ => .read
  | .rand _ => .rand
  | .floor _ _ => .floor
  | .substring _ _ _ _ => .substring
  | .value _ _ => .value

/-- The form of the term that is listed. A minus may stand before one part or between two. -/
def Nested.form : Nested → Term.Form
  | .list (.word head :: parts) =>
    match head with
    | "group" => .group
    | "!" => .unary
    | "-" => if parts.length = 1 then .unary else .binary
    | "=" => .assign
    | "and" | "or" => .logical
    | "call" => .call
    | "read" => .read
    | "rand" => .rand
    | "floor" => .floor
    | "substring" => .substring
    | "dynamic" => .value
    | _ => .binary
  | _ => .atom

lemma Term.form_nested (t : Term) : t.nested.form = t.form := by
  cases t with
  | atom a _ => cases a <;> rfl
  | unary op _ _ => cases op <;> rfl
  | binary op _ _ _ => cases op <;> rfl
  | logical op _ _ _ => cases op <;> rfl
  | _ => rfl

lemma Term.form_eq {t u : Term} (same : t.nested = u.nested) : t.form = u.form := by
  rw [← form_nested, same, form_nested]

mutual

/-- Legible terms that are listed alike differ in their places only. -/
theorem Term.moved_nowhere_eq : ∀ {t u : Term}, t.Legible → u.Legible → t.nested = u.nested →
    t.moved .nowhere = u.moved .nowhere
  | .atom _ _, u, ht, hu, same => by
    cases u with
    | atom _ _ =>
      rw [Term.moved, Term.moved, Atom.moved_nowhere_eq ht hu same]
      rfl
    | _ => cases Term.form_eq same
  | .group _, u, ht, hu, same => by
    cases u with
    | group _ =>
      simp only [Term.nested, headed_inj, List.cons.injEq, true_and, and_true] at same
      rw [Term.Legible] at ht hu
      rw [Term.moved, Term.moved, Term.moved_nowhere_eq ht hu same]
    | _ => cases Term.form_eq same
  | .unary _ _ _, u, ht, hu, same => by
    cases u with
    | unary _ _ _ =>
      simp only [Term.nested, headed_inj, List.cons.injEq, and_true,
        UnaryOp.symbol_injective.eq_iff] at same
      rw [Term.Legible] at ht hu
      rw [Term.moved, Term.moved, same.1, Term.moved_nowhere_eq ht hu same.2]
      rfl
    | _ => cases Term.form_eq same
  | .binary _ _ _ _, u, ht, hu, same => by
    cases u with
    | binary _ _ _ _ =>
      simp only [Term.nested, headed_inj, List.cons.injEq, and_true,
        BinaryOp.symbol_injective.eq_iff] at same
      rw [Term.Legible] at ht hu
      rw [Term.moved, Term.moved, same.1, Term.moved_nowhere_eq ht.1 hu.1 same.2.1,
        Term.moved_nowhere_eq ht.2 hu.2 same.2.2]
      rfl
    | _ => cases Term.form_eq same
  | .assign _ _, u, ht, hu, same => by
    cases u with
    | assign _ _ =>
      simp only [Term.nested, headed_inj, List.cons.injEq, word.injEq, true_and, and_true] at same
      rw [Term.Legible] at ht hu
      rw [Term.moved, Term.moved, Ident.moved_nowhere_eq same.1,
        Term.moved_nowhere_eq ht.2 hu.2 same.2]
    | _ => cases Term.form_eq same
  | .logical _ _ _ _, u, ht, hu, same => by
    cases u with
    | logical _ _ _ _ =>
      simp only [Term.nested, headed_inj, List.cons.injEq, and_true,
        LogicalOp.symbol_injective.eq_iff] at same
      rw [Term.Legible] at ht hu
      rw [Term.moved, Term.moved, same.1, Term.moved_nowhere_eq ht.1 hu.1 same.2.1,
        Term.moved_nowhere_eq ht.2 hu.2 same.2.2]
      rfl
    | _ => cases Term.form_eq same
  | .call _ _ _, u, ht, hu, same => by
    cases u with
    | call _ _ _ =>
      simp only [Term.nested, headed_inj, List.cons.injEq, true_and] at same
      rw [Term.Legible] at ht hu
      rw [Term.moved, Term.moved, Term.moved_nowhere_eq ht.1 hu.1 same.1,
        Term.allMoved_nowhere_eq ht.2 hu.2 same.2]
      rfl
    | _ => cases Term.form_eq same
  | .read _, u, _, _, same => by
    cases u with
    | read _ => rfl
    | _ => cases Term.form_eq same
  | .rand _, u, _, _, same => by
    cases u with
    | rand _ => rfl
    | _ => cases Term.form_eq same
  | .floor _ _, u, ht, hu, same => by
    cases u with
    | floor _ _ =>
      simp only [Term.nested, headed_inj, List.cons.injEq, true_and, and_true] at same
      rw [Term.Legible] at ht hu
      rw [Term.moved, Term.moved, Term.moved_nowhere_eq ht hu same]
      rfl
    | _ => cases Term.form_eq same
  | .substring _ _ _ _, u, ht, hu, same => by
    cases u with
    | substring _ _ _ _ =>
      simp only [Term.nested, headed_inj, List.cons.injEq, true_and, and_true] at same
      rw [Term.Legible] at ht hu
      rw [Term.moved, Term.moved, Term.moved_nowhere_eq ht.1 hu.1 same.1,
        Term.moved_nowhere_eq ht.2.1 hu.2.1 same.2.1, Term.moved_nowhere_eq ht.2.2 hu.2.2 same.2.2]
      rfl
    | _ => cases Term.form_eq same

lemma Term.allMoved_nowhere_eq : ∀ {ts us : List Term}, AllLegible ts → AllLegible us →
    allNested ts = allNested us → allMoved .nowhere ts = allMoved .nowhere us
  | [], us, _, _, same => by
    cases us with
    | nil => rfl
    | cons _ _ => cases same
  | _ :: _, us, ht, hu, same => by
    cases us with
    | nil => cases same
    | cons _ _ =>
      rw [allNested, allNested, List.cons.injEq] at same
      rw [AllLegible] at ht hu
      rw [allMoved, allMoved, Term.moved_nowhere_eq ht.1 hu.1 same.1,
        Term.allMoved_nowhere_eq ht.2 hu.2 same.2]

end

lemma Term.maybeMoved_nowhere_eq {t u : Option Term} (ht : MaybeLegible t) (hu : MaybeLegible u)
    (same : maybeNested t = maybeNested u) :
    Located.moved .nowhere t = Located.moved .nowhere u := by
  cases t with
  | none =>
    cases u with
    | none => rfl
    | some _ => cases same
  | some _ =>
    cases u with
    | none => cases same
    | some _ => exact congrArg some (Term.moved_nowhere_eq ht hu (List.cons.inj same).1)

/-! Phrases. -/

namespace Phrase

mutual

/-- Legible phrases that are listed alike differ in their places only. -/
theorem moved_nowhere_eq : ∀ {p q : Phrase}, p.Legible → q.Legible → p.nested = q.nested →
    p.moved .nowhere = q.moved .nowhere
  | .declareVar _ _, q, hp, hq, same => by
    cases q with
    | declareVar _ _ =>
      simp only [nested, headed_inj, List.cons.injEq, word.injEq, true_and] at same
      rw [Legible] at hp hq
      rw [Phrase.moved, Phrase.moved, Ident.moved_nowhere_eq same.1,
        Term.maybeMoved_nowhere_eq hp.2 hq.2 same.2]
    | _ => exact absurd same (Nested.headed_ne (by decide))
  | .declareFun _ _ _, q, hp, hq, same => by
    cases q with
    | declareFun _ _ _ =>
      simp only [nested, headed_inj, List.cons.injEq, word.injEq, list.injEq, true_and] at same
      rw [Legible] at hp hq
      rw [Phrase.moved, Phrase.moved, Ident.moved_nowhere_eq same.1,
        Ident.all_moved_nowhere_eq same.2.1, allMoved_nowhere_eq hp.2.2 hq.2.2 same.2.2]
    | _ => exact absurd same (Nested.headed_ne (by decide))
  | .expression _, q, hp, hq, same => by
    cases q with
    | expression _ =>
      simp only [nested, headed_inj, List.cons.injEq, true_and, and_true] at same
      rw [Legible] at hp hq
      rw [Phrase.moved, Phrase.moved, Term.moved_nowhere_eq hp hq same]
    | _ => exact absurd same (Nested.headed_ne (by decide))
  | .print _, q, hp, hq, same => by
    cases q with
    | print _ =>
      simp only [nested, headed_inj, List.cons.injEq, true_and, and_true] at same
      rw [Legible] at hp hq
      rw [Phrase.moved, Phrase.moved, Term.moved_nowhere_eq hp hq same]
    | _ => exact absurd same (Nested.headed_ne (by decide))
  | .block _, q, hp, hq, same => by
    cases q with
    | block _ =>
      simp only [nested, headed_inj, true_and] at same
      rw [Legible] at hp hq
      rw [Phrase.moved, Phrase.moved, allMoved_nowhere_eq hp hq same]
    | _ => exact absurd same (Nested.headed_ne (by decide))
  | .branch _ _ _, q, hp, hq, same => by
    cases q with
    | branch _ _ _ =>
      simp only [nested, headed_inj, List.cons.injEq, true_and] at same
      rw [Legible] at hp hq
      rw [Phrase.moved, Phrase.moved, Term.moved_nowhere_eq hp.1 hq.1 same.1,
        moved_nowhere_eq hp.2.1 hq.2.1 same.2.1, maybeMoved_nowhere_eq hp.2.2 hq.2.2 same.2.2]
    | _ => exact absurd same (Nested.headed_ne (by decide))
  | .whileLoop _ _, q, hp, hq, same => by
    cases q with
    | whileLoop _ _ =>
      simp only [nested, headed_inj, List.cons.injEq, true_and, and_true] at same
      rw [Legible] at hp hq
      rw [Phrase.moved, Phrase.moved, Term.moved_nowhere_eq hp.1 hq.1 same.1,
        moved_nowhere_eq hp.2 hq.2 same.2]
    | _ => exact absurd same (Nested.headed_ne (by decide))
  | .returnFrom _ _, q, hp, hq, same => by
    cases q with
    | returnFrom _ _ =>
      simp only [nested, headed_inj, true_and] at same
      rw [Legible] at hp hq
      rw [Phrase.moved, Phrase.moved, Term.maybeMoved_nowhere_eq hp hq same]
      rfl
    | _ => exact absurd same (Nested.headed_ne (by decide))
  | .stringLoop _ _ _, q, hp, hq, same => by
    cases q with
    | stringLoop _ _ _ =>
      simp only [nested, headed_inj, List.cons.injEq, word.injEq, true_and, and_true] at same
      rw [Legible] at hp hq
      rw [Phrase.moved, Phrase.moved, Ident.moved_nowhere_eq same.1,
        Term.moved_nowhere_eq hp.2.1 hq.2.1 same.2.1, moved_nowhere_eq hp.2.2 hq.2.2 same.2.2]
    | _ => exact absurd same (Nested.headed_ne (by decide))

lemma maybeMoved_nowhere_eq : ∀ {p q : Option Phrase}, MaybeLegible p → MaybeLegible q →
    maybeNested p = maybeNested q → maybeMoved .nowhere p = maybeMoved .nowhere q
  | none, q, _, _, same => by
    cases q with
    | none => rfl
    | some _ => cases same
  | some _, q, hp, hq, same => by
    cases q with
    | none => cases same
    | some _ =>
      rw [maybeNested, maybeNested, List.cons.injEq] at same
      rw [MaybeLegible] at hp hq
      rw [maybeMoved, maybeMoved, moved_nowhere_eq hp hq same.1]

lemma allMoved_nowhere_eq : ∀ {ps qs : List Phrase}, AllLegible ps → AllLegible qs →
    allNested ps = allNested qs → allMoved .nowhere ps = allMoved .nowhere qs
  | [], qs, _, _, same => by
    cases qs with
    | nil => rfl
    | cons _ _ => cases same
  | _ :: _, qs, hp, hq, same => by
    cases qs with
    | nil => cases same
    | cons _ _ =>
      rw [allNested, allNested, List.cons.injEq] at same
      rw [AllLegible] at hp hq
      rw [allMoved, allMoved, moved_nowhere_eq hp.1 hq.1 same.1,
        allMoved_nowhere_eq hp.2 hq.2 same.2]

end

end Phrase

end Lox
