import Lox.Program.Printer
import Mathlib.Tactic.Common

/-!
Nested lists of words and quoted texts, as they are written in parentheses. Nothing is escaped, yet
each of them can be read off what is written: a word stops before a space or a parenthesis, and a
quoted text has no quote in it.
-/

namespace Lox

/-- What a listing lists. -/
inductive Nested
  | word (w : String)
  | quoted (s : String)
  | list (parts : List Nested)

namespace Nested

mutual

def text : Nested → String
  | .word w => w
  | .quoted s => "\"" ++ s ++ "\""
  | .list parts => Listing.form (texts parts)

def texts : List Nested → List String
  | [] => []
  | part :: others => part.text :: texts others

end

/-- What is written behind a part of a list: the other parts, and the end. -/
def behind (parts : List Nested) : List Char :=
  parts.flatMap (fun part => ' ' :: part.text.toList) ++ [')']

/-- What is written behind the first parenthesis of a list. -/
def inside : List Nested → List Char
  | [] => [')']
  | first :: others => first.text.toList ++ behind others

/-- The characters that no word has. -/
def marks : List Char :=
  [' ', '(', ')', '\x22']

/-- A word is not empty and has no mark in it. -/
def IsPlain (w : String) : Prop :=
  w ≠ "" ∧ ∀ c ∈ w.toList, c ∉ marks

instance (w : String) : Decidable (IsPlain w) :=
  @instDecidableAnd _ _ _ (List.decidableBAll _ w.toList)

/-- All words are plain, and quoted texts have no quote in them. -/
inductive Legible : Nested → Prop
  | word {w : String} : IsPlain w → Legible (.word w)
  | quoted {s : String} : '\x22' ∉ s.toList → Legible (.quoted s)
  | list {parts : List Nested} : (∀ part ∈ parts, Legible part) → Legible (.list parts)

/-- What may stand behind a written part. -/
def Closes (rest : List Char) : Prop :=
  ∀ c, rest.head? = some c → c ∈ [' ', ')']

/-- What is written of a part, with something behind it, tells the part. -/
def Readable (a : Nested) : Prop :=
  ∀ {b : Nested} {rest rest' : List Char}, b.Legible → Closes rest → Closes rest' →
    a.text.toList ++ rest = b.text.toList ++ rest' → a = b ∧ rest = rest'

variable {w s : String} {cs ds rest rest' : List Char} {a b : Nested} {parts others : List Nested}

lemma behind_cons (next : Nested) (parts : List Nested) :
    behind (next :: parts) = ' ' :: next.text.toList ++ behind parts := by
  simp [behind]

lemma intercalate_behind (first : Nested) (parts : List Nested) :
    [' '].intercalate ((texts (first :: parts)).map String.toList) ++ [')'] =
      first.text.toList ++ behind parts := by
  induction parts generalizing first with
  | nil => simp [texts, behind]
  | cons next parts ih =>
    rw [behind_cons, List.cons_append, ← ih next]
    simp [texts, List.intercalate_cons_cons]

lemma toList_list (parts : List Nested) : (text (.list parts)).toList = '(' :: inside parts := by
  cases parts with
  | nil => rfl
  | cons first others =>
    rw [inside, ← intercalate_behind]
    simp [text, Listing.form, String.toList_intercalate]

lemma toList_quoted (s : String) :
    (text (.quoted s)).toList = '\x22' :: (s.toList ++ ['\x22']) := by
  simp [text]

/-- A text is cut in one way before the first character that stops it. -/
lemma cut_unique {p : Char → Prop} (hc : ∀ c ∈ cs, ¬p c) (hd : ∀ d ∈ ds, ¬p d)
    (stops : ∀ c, rest.head? = some c → p c) (stops' : ∀ c, rest'.head? = some c → p c)
    (same : cs ++ rest = ds ++ rest') : cs = ds ∧ rest = rest' := by
  induction cs generalizing ds with
  | nil =>
    cases ds with
    | nil => exact ⟨rfl, same⟩
    | cons d ds =>
      rw [List.nil_append] at same
      exact absurd (stops d (by rw [same]; rfl)) (hd d List.mem_cons_self)
  | cons c cs ih =>
    cases ds with
    | nil =>
      rw [List.nil_append] at same
      exact absurd (stops' c (by rw [← same]; rfl)) (hc c List.mem_cons_self)
    | cons d ds =>
      obtain ⟨rfl, others⟩ := List.cons.inj same
      simp only [List.mem_cons, forall_eq_or_imp] at hc hd
      obtain ⟨rfl, left⟩ := ih hc.2 hd.2 others
      exact ⟨rfl, left⟩

lemma closes_behind (parts : List Nested) (rest : List Char) : Closes (behind parts ++ rest) := by
  intro c first
  cases parts with
  | nil =>
    obtain rfl : ')' = c := Option.some.inj first
    decide
  | cons next others =>
    obtain rfl : ' ' = c := Option.some.inj first
    decide

/-- A word is neither a quoted text nor a list, for it begins with no mark. -/
lemma IsPlain.ne_mark {c : Char} (h : IsPlain w) (marked : c ∈ marks) :
    w.toList ++ rest ≠ c :: rest' := by
  obtain ⟨some, plain⟩ := h
  have proper : w.toList ≠ [] := fun none => some (String.toList_eq_nil_iff.mp none)
  obtain ⟨d, others, split⟩ := List.exists_cons_of_ne_nil proper
  rw [split] at plain ⊢
  intro same
  obtain rfl : d = c := (List.cons.inj same).1
  exact plain d List.mem_cons_self marked

/-- A part does not begin like the end of a list. -/
lemma Legible.not_end (h : a.Legible) : a.text.toList ++ rest ≠ ')' :: rest' := by
  cases h with
  | word plain => exact plain.ne_mark (by decide)
  | quoted _ => simp [toList_quoted]
  | list _ => simp [toList_list]

lemma readable_word (plain : IsPlain w) : Readable (.word w) := by
  intro b rest rest' hb closes closes' same
  cases hb with
  | word plain' =>
    have stops : ∀ c, c ∉ marks → ¬c ∈ [' ', ')'] := by
      intro c other within
      have marked : [' ', ')'] ⊆ marks := by simp [marks]
      exact other (marked within)
    obtain ⟨here, left⟩ := cut_unique (fun c within => stops c (plain.2 c within))
      (fun c within => stops c (plain'.2 c within)) closes closes' same
    exact ⟨congrArg word (String.toList_inj.mp here), left⟩
  | quoted _ =>
    rw [toList_quoted] at same
    exact absurd same (plain.ne_mark (by decide))
  | list _ =>
    rw [toList_list] at same
    exact absurd same (plain.ne_mark (by decide))

lemma readable_quoted (plain : '\x22' ∉ s.toList) : Readable (.quoted s) := by
  intro b rest rest' hb _ _ same
  cases hb with
  | word plain' =>
    rw [toList_quoted] at same
    exact absurd same.symm (plain'.ne_mark (by decide))
  | quoted plain' =>
    simp only [toList_quoted, List.cons_append, List.append_assoc, List.nil_append,
      List.cons.injEq, true_and] at same
    have quote (more : List Char) (c : Char) (first : ('\x22' :: more).head? = some c) :
        c = '\x22' := (Option.some.inj first).symm
    have other {cs : List Char} (plain : '\x22' ∉ cs) (c : Char) (within : c ∈ cs) : ¬c = '\x22' :=
      fun here => plain (here ▸ within)
    obtain ⟨here, left⟩ := cut_unique (other plain) (other plain') (quote rest) (quote rest') same
    exact ⟨congrArg quoted (String.toList_inj.mp here), (List.cons.inj left).2⟩
  | list _ => simp [toList_quoted, toList_list] at same

/-- The parts of a list are read one by one. -/
lemma readable_behind (h : ∀ part ∈ parts, Readable part) (h' : ∀ part ∈ others, Legible part)
    (same : behind parts ++ rest = behind others ++ rest') : parts = others ∧ rest = rest' := by
  induction parts generalizing others with
  | nil =>
    cases others with
    | nil => exact ⟨rfl, by simpa [behind] using same⟩
    | cons next others => simp [behind] at same
  | cons first parts ih =>
    cases others with
    | nil => simp [behind] at same
    | cons next others =>
      simp only [List.mem_cons, forall_eq_or_imp] at h h'
      simp only [behind_cons, List.cons_append, List.append_assoc, List.cons.injEq,
        true_and] at same
      obtain ⟨rfl, left⟩ := h.1 h'.1 (closes_behind parts rest) (closes_behind others rest') same
      obtain ⟨rfl, done⟩ := ih h.2 h'.2 left
      exact ⟨rfl, done⟩

lemma readable_list (h : ∀ part ∈ parts, Legible part) (ih : ∀ part ∈ parts, Readable part) :
    Readable (.list parts) := by
  intro b rest rest' hb _ _ same
  cases hb with
  | word plain =>
    rw [toList_list] at same
    exact absurd same.symm (plain.ne_mark (by decide))
  | quoted _ => simp [toList_quoted, toList_list] at same
  | @list others h' =>
    -- No part begins with the parenthesis that ends a list.
    simp only [toList_list, List.cons_append, List.cons.injEq, true_and] at same
    cases parts with
    | nil =>
      cases others with
      | nil => exact ⟨rfl, by simpa [inside] using same⟩
      | cons next others =>
        rw [inside, inside, List.append_assoc] at same
        exact absurd same.symm (h' next List.mem_cons_self).not_end
    | cons first parts =>
      cases others with
      | nil =>
        rw [inside, inside, List.append_assoc] at same
        exact absurd same (h first List.mem_cons_self).not_end
      | cons next others =>
        simp only [List.mem_cons, forall_eq_or_imp] at ih h'
        simp only [inside, List.append_assoc] at same
        obtain ⟨rfl, left⟩ := ih.1 h'.1 (closes_behind parts rest) (closes_behind others rest') same
        obtain ⟨rfl, done⟩ := readable_behind ih.2 h'.2 left
        exact ⟨rfl, done⟩

/-- By induction on what is written: the end of one part is the beginning of the text in which the
next one is read. -/
lemma Legible.readable (h : a.Legible) : a.Readable := by
  induction h with
  | word plain => exact readable_word plain
  | quoted plain => exact readable_quoted plain
  | list h ih => exact readable_list h ih

/-- Legible lists that are written alike are the same. -/
theorem text_injective (ha : a.Legible) (hb : b.Legible) (same : a.text = b.text) : a = b := by
  have nothing : Closes [] := nofun
  exact (ha.readable hb nothing nothing (by rw [same])).1

/-- The same for lists one by one. -/
lemma texts_injective {as bs : List Nested} (ha : ∀ a ∈ as, a.Legible) (hb : ∀ b ∈ bs, b.Legible)
    (same : texts as = texts bs) : as = bs := by
  induction as generalizing bs with
  | nil =>
    cases bs with
    | nil => rfl
    | cons b bs => cases same
  | cons a as ih =>
    cases bs with
    | nil => cases same
    | cons b bs =>
      rw [texts, texts, List.cons.injEq] at same
      simp only [List.forall_mem_cons] at ha hb
      rw [text_injective ha.1 hb.1 same.1, ih ha.2 hb.2 same.2]

end Nested

end Lox
