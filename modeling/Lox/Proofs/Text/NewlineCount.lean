import Lox.Proofs.Text.LineNumbers
import Lox.Proofs.Text.Pieces
import Mathlib.Data.Nat.Basic
import Mathlib.Order.Monotone.Defs

/-!
Lines are numbered by newlines. The number of the line of a byte is one more than the number of
newlines among the bytes before it, inside a character and at the end of the text too, and numbers
never go down from one offset to the next.
-/

namespace Lox

open InputLine (utf8 utf8_append newline_not_mem_encode)

lemma utf8_length (text : List Char) : (utf8 text).length = utf8Length text := by
  induction text with
  | nil => rfl
  | cons c text ih =>
    change (String.utf8EncodeChar c ++ utf8 text).length = c.utf8Size + utf8Length text
    rw [List.length_append, String.length_utf8EncodeChar, ih]

/-- The newlines of a text are those of its bytes. -/
lemma utf8_count (text : List Char) : (utf8 text).count 10 = text.count '\n' := by
  induction text with
  | nil => rfl
  | cons c text ih =>
    have first : utf8 (c :: text) = String.utf8EncodeChar c ++ utf8 text := rfl
    rw [first, List.count_append, ih]
    by_cases newline : c = '\n'
    · subst newline
      rw [List.count_cons_self, Nat.add_comm]
      rfl
    · rw [List.count_eq_zero_of_not_mem (newline_not_mem_encode newline), Nat.zero_add,
        List.count_cons_of_ne newline]

variable {upto after text : List Char} {offset : Nat}

/-- An offset lies at or inside the character after `upto`, or `upto` is all of the text and the
offset is its end. -/
structure Reached (upto after : List Char) (offset : Nat) : Prop where
  passed : utf8Length upto ≤ offset
  inside : ∀ c rest, after = c :: rest → offset < utf8Length upto + c.utf8Size
  ends : after = [] → offset = utf8Length upto

/-- No newline ends inside a character. -/
lemma Reached.count (h : Reached upto after offset) :
    ((utf8 (upto ++ after)).take offset).count 10 = upto.count '\n' := by
  have whole : (utf8 upto).take offset = utf8 upto := List.take_of_length_le (by
    rw [utf8_length]
    exact h.passed)
  rw [utf8_append, List.take_append, whole, List.count_append, utf8_count, utf8_length]
  cases after with
  | nil => simp [utf8]
  | cons c rest =>
    have short : offset - utf8Length upto < c.utf8Size := by
      have inside := h.inside c rest rfl
      have passed := h.passed
      omega
    have begun : (utf8 (c :: rest)).take (offset - utf8Length upto) =
        (String.utf8EncodeChar c).take (offset - utf8Length upto) :=
      List.take_append_of_le_length (by
        rw [String.length_utf8EncodeChar]
        exact Nat.le_of_lt short)
    rw [begun]
    by_cases newline : c = '\n'
    · subst newline
      obtain start : offset - utf8Length upto = 0 := Nat.lt_one_iff.mp short
      rw [start, List.take_zero, List.count_nil, Nat.add_zero]
    · have none : 10 ∉ (String.utf8EncodeChar c).take (offset - utf8Length upto) := fun within =>
        newline_not_mem_encode newline (List.mem_of_mem_take within)
      rw [List.count_eq_zero_of_not_mem none, Nat.add_zero]

/-- Every offset of a text is reached after some of its characters. -/
lemma exists_reached (le : offset ≤ utf8Length text) :
    ∃ upto after, text = upto ++ after ∧ Reached upto after offset := by
  induction text generalizing offset with
  | nil => exact ⟨[], [], rfl, Nat.zero_le _, by simp, fun _ => Nat.le_zero.mp le⟩
  | cons c text ih =>
    by_cases inside : offset < c.utf8Size
    · refine ⟨[], c :: text, rfl, Nat.zero_le _, fun d rest same => ?_, by simp⟩
      cases same
      rwa [show utf8Length [] = 0 from rfl, Nat.zero_add]
    · rw [utf8Length_cons] at le
      have le' : offset - c.utf8Size ≤ utf8Length text := by omega
      obtain ⟨upto, after, rfl, reached⟩ := ih le'
      refine ⟨c :: upto, after, rfl, ?_, fun d rest same => ?_, fun none => ?_⟩
      · have passed := reached.passed
        rw [utf8Length_cons]
        omega
      · have before := reached.inside d rest same
        rw [utf8Length_cons]
        omega
      · have last := reached.ends none
        rw [utf8Length_cons]
        omega

namespace Lines

/-- No range goes further than one offset past the text. -/
lemma rangesFrom_stop (start offset : Nat) (cs : List Char) :
    ∀ r ∈ rangesFrom start offset cs, r.stop ≤ offset + utf8Length cs + 1 := by
  induction cs generalizing start offset with
  | nil =>
    unfold rangesFrom
    split
    · exact List.forall_mem_nil _
    · simp
  | cons c cs ih =>
    unfold rangesFrom
    rw [utf8Length_cons]
    split
    · next newline =>
      have one : c.utf8Size = 1 := by rw [newline]; rfl
      simp only [List.mem_cons, forall_eq_or_imp]
      refine ⟨by omega, fun r within => ?_⟩
      have bound := ih (offset + 1) (offset + 1) r within
      omega
    · intro r within
      have bound := ih start (offset + c.utf8Size) r within
      omega

/-- The ranges of a text: none is empty, and none goes further than one offset past the text. -/
lemma ofText_ranges (text : List Char) :
    ∀ r ∈ (ofText text).ranges, r.start < r.stop ∧ r.stop ≤ utf8Length text + 1 := by
  unfold ofText
  split
  · simp
  · intro r within
    have bound := rangesFrom_stop 0 0 text r within
    exact ⟨((rangesFrom_ordered (Nat.le_refl 0) text).2 r within).2, by omega⟩

lemma lineOf_le_past (ls : Lines) (offset : Nat) : ls.lineOf offset ≤ ls.past := by
  rw [lineOf_eq_findIdx, past]
  exact Nat.succ_le_succ List.findIdx_le_length

lemma lineOf_beyond (beyond : utf8Length text < offset) :
    (ofText text).lineOf offset = (ofText text).past := by
  refine ((answers_iff text offset _).mp (.missed fun r within holds => ?_)).symm
  have bound := (ofText_ranges text r within).2
  have inside := holds.2
  omega

/-- The number of a line is one more than the number of newlines before. -/
lemma lineOf_eq_count (le : offset ≤ utf8Length text) :
    (ofText text).lineOf offset = 1 + ((utf8 text).take offset).count 10 := by
  obtain ⟨upto, after, rfl, reached⟩ := exists_reached le
  rw [reached.count, lineOf_within reached.passed reached.inside reached.ends, Nat.add_comm]

lemma lineOf_monotone (text : List Char) : Monotone (ofText text).lineOf := by
  intro offset later le
  rcases Nat.lt_or_ge (utf8Length text) later with beyond | within
  · rw [lineOf_beyond beyond]
    exact lineOf_le_past _ offset
  · rw [lineOf_eq_count within, lineOf_eq_count (Nat.le_trans le within)]
    have fewer := (List.take_prefix_take_left (l := utf8 text) le).sublist.count_le 10
    exact Nat.add_le_add_left fewer 1

/-- Looking up the line of an offset counts newlines. The table of the lines of a text is in order
and none of its ranges is empty, so that every search of the table gives one answer; this is one
more than the number of newlines among the bytes before the offset, never goes down, and fits into
32 bits. -/
theorem lookup_counts_newlines (text : List Char) (few : text.count '\n' < Nat.pow 2 32 - 2) :
    ((ofText text).ranges.Pairwise fun r q => r.stop ≤ q.start) ∧
    (∀ r ∈ (ofText text).ranges, r.start < r.stop) ∧
    (∀ offset line, (ofText text).Answers offset line ↔ line = (ofText text).lineOf offset) ∧
    (∀ offset ≤ utf8Length text,
      (ofText text).lineOf offset = 1 + ((utf8 text).take offset).count 10) ∧
    Monotone (ofText text).lineOf ∧
    ∀ offset, (ofText text).lineOf offset < Nat.pow 2 32 := by
  refine ⟨ofText_ordered text, fun r within => (ofText_ranges text r within).1, answers_iff text,
    fun offset => lineOf_eq_count, lineOf_monotone text, fun offset => ?_⟩
  have most := past_le text
  have last := lineOf_le_past (ofText text) offset
  have bound : Nat.pow 2 32 = 4294967296 := rfl
  omega

/-- Inside the second character of the second line, and past the end of a text without a newline at
its end. -/
theorem lookup_counts_newlines_accent :
    let text := "a\nbé".toList
    text.count '\n' < Nat.pow 2 32 - 2 ∧ (ofText text).Answers 4 2 ∧
      1 + ((utf8 text).take 4).count 10 = 2 ∧ (ofText text).lineOf 4 ≤ (ofText text).lineOf 9 := by
  intro text
  have few : text.count '\n' < Nat.pow 2 32 - 2 := by decide +kernel
  have number : 1 + ((utf8 text).take 4).count 10 = 2 := by decide +kernel
  obtain ⟨-, -, answers, counts, monotone, -⟩ := lookup_counts_newlines text few
  refine ⟨few, (answers 4 2).mpr ?_, number, monotone (by omega)⟩
  rw [counts 4 (by decide +kernel), number]

end Lines

end Lox
