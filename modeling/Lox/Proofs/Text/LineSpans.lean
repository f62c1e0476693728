import Lox.Proofs.Text.LineNumbers

/-!
The spans of whole lines. A line of a text has as its span the bytes between the newlines around it.
A number past the last line has an empty span: at the end of a text whose last line is not ended,
and before the last newline of a text that ends in one.
-/

namespace Lox

namespace Lines

variable {text line rest : List Char} {i start offset : Nat}

/-- The lines of a text without their newlines. A newline at the end of the text opens no further
line, and the empty text has one empty line. -/
def contents (text : List Char) : List (List Char) :=
  if text.getLast? = some '\n' then (text.splitOn '\n').dropLast else text.splitOn '\n'

/-- The lines above the line at an index, with their newlines. -/
def above (text : List Char) (i : Nat) : List Char :=
  ((contents text).take i).flatMap (· ++ ['\n'])

/-- A last line that is not ended takes one offset more. -/
def overhang (text : List Char) : Nat :=
  if text.getLast? = some '\n' then 0 else 1

lemma contents_unbroken (unbroken : '\n' ∉ line) : contents line = [line] := by
  have unended : line.getLast? ≠ some '\n' := fun ends => unbroken (List.mem_of_getLast? ends)
  rw [contents, if_neg unended, List.splitOn_eq_singleton unbroken]

lemma contents_ended (unbroken : '\n' ∉ line) : contents (line ++ ['\n']) = [line] := by
  rw [contents, if_pos List.getLast?_concat,
    List.splitOn_append_cons_self_of_not_mem unbroken, List.splitOn_nil]
  rfl

lemma contents_newline (unbroken : '\n' ∉ line) (more : rest ≠ []) :
    contents (line ++ '\n' :: rest) = line :: contents rest := by
  have last : (line ++ '\n' :: rest).getLast? = rest.getLast? := by
    rw [List.append_cons, List.getLast?_append, List.getLast?_eq_some_getLast more]
    rfl
  have some : rest.splitOn '\n' ≠ [] := List.splitOn_ne_nil '\n' rest
  simp only [contents, last, List.splitOn_append_cons_self_of_not_mem unbroken]
  split
  · exact List.dropLast_cons_of_ne_nil some
  · rfl

/-- A text is its first line, and then nothing, or a newline and the lines below. -/
lemma exists_first (text : List Char) : ∃ line after, text = line ++ after ∧ '\n' ∉ line ∧
    (after = [] ∨ ∃ below, after = '\n' :: below) := by
  induction text with
  | nil => exact ⟨[], [], rfl, List.not_mem_nil, .inl rfl⟩
  | cons c text ih =>
    by_cases newline : c = '\n'
    · subst newline
      exact ⟨[], _, rfl, List.not_mem_nil, .inr ⟨text, rfl⟩⟩
    · obtain ⟨line, after, rfl, unbroken, ends⟩ := ih
      refine ⟨c :: line, after, rfl, ?_, ends⟩
      simp [unbroken, Ne.symm newline]

/-- A line of what stands below a first line is a line of the whole. -/
lemma Cuts.below {before after : List Char} (h : Cuts rest before line after)
    (first : List Char) : Cuts (first ++ '\n' :: rest) (first ++ '\n' :: before) line after := by
  obtain ⟨rfl, begins, unbroken, ends, there⟩ := h
  constructor
  · simp
  · right
    rcases begins with rfl | ⟨upto, rfl⟩
    · exact ⟨first, rfl⟩
    · exact ⟨first ++ '\n' :: upto, by simp⟩
  · exact unbroken
  · exact ends
  · exact there

/-- The lines of a text that is not empty, each in its place. -/
lemma contents_cuts (some : text ≠ []) (found : (contents text)[i]? = .some line) :
    (∃ after, Cuts text (above text i) line after) ∧ (above text i).count '\n' = i := by
  induction hn : text.length using Nat.strongRecOn generalizing text i with
  | ind n ih =>
    obtain ⟨first, after, rfl, unbroken, ends⟩ := exists_first text
    have top : Cuts (first ++ after) [] first after := ⟨rfl, .inl rfl, unbroken, ends, some⟩
    by_cases only : contents (first ++ after) = [first]
    · rw [only, List.getElem?_singleton] at found
      split at found
      · next zero =>
        cases found
        subst zero
        exact ⟨⟨after, top⟩, rfl⟩
      · cases found
    · rcases ends with rfl | ⟨below, rfl⟩
      · rw [List.append_nil] at only
        exact absurd (contents_unbroken unbroken) only
      · have more : below ≠ [] := by
          rintro rfl
          exact only (contents_ended unbroken)
        have lines := contents_newline unbroken more
        rw [lines] at found
        cases i with
        | zero =>
          cases found
          exact ⟨⟨_, top⟩, rfl⟩
        | succ i =>
          have shorter : below.length < n := by
            rw [← hn, List.length_append, List.length_cons]
            omega
          have step : above (first ++ '\n' :: below) (i + 1) = first ++ '\n' :: above below i := by
            simp [above, lines]
          obtain ⟨⟨after, cuts⟩, count⟩ := ih _ shorter more found rfl
          rw [step]
          constructor
          · exact ⟨after, cuts.below first⟩
          · rw [List.count_append, List.count_eq_zero_of_not_mem unbroken, List.count_cons_self,
              count, Nat.zero_add]

lemma length_splitOn (text : List Char) : (text.splitOn '\n').length = text.count '\n' + 1 := by
  induction text with
  | nil => rfl
  | cons c text ih =>
    rw [List.splitOn_cons_eq_if_modifyHead]
    by_cases newline : c = '\n'
    · simp [newline, ih]
    · simp [newline, ih]

/-- There are as many lines as newlines, and one more that is not ended. -/
lemma length_contents (text : List Char) :
    (contents text).length = text.count '\n' + overhang text := by
  unfold contents overhang
  split
  · rw [List.length_dropLast, length_splitOn]
    rfl
  · exact length_splitOn text

/-- How many ranges there are, and where the last one stops. -/
lemma rangesFrom_end {cs : List Char} (le : start ≤ offset) (some : start < offset ∨ cs ≠ []) :
    (rangesFrom start offset cs).length = cs.count '\n' + overhang cs ∧
      (rangesFrom start offset cs).getLast?.map (·.stop) =
        .some (offset + utf8Length cs + overhang cs) := by
  induction cs generalizing start offset with
  | nil =>
    have begun : start ≠ offset := by
      rcases some with lt | no
      · omega
      · exact absurd rfl no
    simp [rangesFrom, begun, overhang, utf8Length]
  | cons c cs ih =>
    by_cases last : cs = []
    · subst last
      by_cases newline : c = '\n'
      · subst newline
        simp [rangesFrom, overhang, utf8Length]
        rfl
      · have begun : start ≠ offset + c.utf8Size := by
          have wide := c.utf8Size_pos
          omega
        simp [rangesFrom, newline, begun, overhang, utf8Length]
    · have hang : overhang (c :: cs) = overhang cs := by
        simp only [overhang, List.getLast?_cons_of_ne_nil last]
      by_cases newline : c = '\n'
      · have one : c.utf8Size = 1 := by rw [newline]; rfl
        obtain ⟨count, stop⟩ := ih (Nat.le_refl (offset + 1)) (.inr last)
        have more : rangesFrom (offset + 1) (offset + 1) cs ≠ [] := by
          intro none
          rw [none] at stop
          cases stop
        rw [rangesFrom, if_pos newline, hang, utf8Length_cons, one,
          List.getLast?_cons_of_ne_nil more, stop, List.length_cons, count, newline,
          List.count_cons_self]
        constructor
        · omega
        · congr 1
          omega
      · obtain ⟨count, stop⟩ :=
          ih (by omega : start ≤ offset + c.utf8Size) (.inr last)
        rw [rangesFrom, if_neg newline, hang, utf8Length_cons, stop, count,
          List.count_cons_of_ne newline]
        constructor
        · rfl
        · congr 1
          omega

/-- The table has a range for each line, and the last range stops just past the end of the text, or
at it if the text ends in a newline. -/
lemma ofText_end (text : List Char) :
    (ofText text).ranges.length = (contents text).length ∧
      (ofText text).ranges.getLast?.map (·.stop) = some (utf8Length text + overhang text) := by
  rw [length_contents]
  cases text with
  | nil => exact ⟨rfl, rfl⟩
  | cons c cs =>
    have ends := rangesFrom_end (Nat.le_refl 0) (.inr (List.cons_ne_nil c cs))
    rwa [Nat.zero_add] at ends

lemma spanOf_past {number : Nat} (past : (contents text).length < number) :
    (ofText text).spanOf number = ⟨utf8Length text + overhang text - 1, 0⟩ := by
  obtain ⟨count, stop⟩ := ofText_end text
  have none : (ofText text).ranges[max number 1 - 1]? = none := by
    rw [List.getElem?_eq_none_iff, count]
    omega
  obtain ⟨last, found, here⟩ := Option.map_eq_some_iff.mp stop
  simp only [spanOf, none, found, Option.map_some, Option.getD_some, here]

/-- The spans of lines. The span of the line with a number has the bytes of the line, without its
newline, and every search of the table finds this number for the first of them. A number past the
last line has an empty span; it is at the end of the text if and only if the text does not end in a
newline, and else it is one byte before the end. -/
theorem spans_exact (text : List Char) :
    (∀ i line, (contents text)[i]? = some line →
      (∃ after, text = above text i ++ line ++ after) ∧
      (ofText text).spanOf (i + 1) = ⟨utf8Length (above text i), utf8Length line⟩ ∧
      ∀ number, (ofText text).Answers (utf8Length (above text i)) number ↔ number = i + 1) ∧
    ∀ number, (contents text).length < number →
      (ofText text).spanOf number =
        ⟨utf8Length text - if text.getLast? = some '\n' then 1 else 0, 0⟩ ∧
      ((ofText text).spanOf number = ⟨utf8Length text, 0⟩ ↔ text.getLast? ≠ some '\n') := by
  constructor
  · intro i line found
    obtain ⟨⟨after, whole⟩, span, count⟩ : (∃ after, text = above text i ++ line ++ after) ∧
        (ofText text).spanOf (i + 1) = ⟨utf8Length (above text i), utf8Length line⟩ ∧
        (above text i).count '\n' = i := by
      by_cases some : text = []
      · subst some
        obtain ⟨rfl, rfl⟩ : i = 0 ∧ [] = line := by
          simpa [contents, List.getElem?_singleton] using found
        exact ⟨⟨[], rfl⟩, rfl, rfl⟩
      · obtain ⟨⟨after, cuts⟩, count⟩ := contents_cuts some found
        have span := cuts.spanOf
        rw [count] at span
        exact ⟨⟨after, cuts.whole⟩, span, count⟩
    have number := lineOf_reached (above text i) (line ++ after)
    rw [← List.append_assoc, ← whole, count] at number
    exact ⟨⟨after, whole⟩, span, fun _ => by rw [answers_iff, number]⟩
  · intro number past
    rw [spanOf_past past, overhang]
    by_cases ends : text.getLast? = some '\n'
    · have some : 0 < utf8Length text := by
        cases text with
        | nil => cases ends
        | cons c cs =>
          have wide := c.utf8Size_pos
          rw [utf8Length_cons]
          omega
      simp only [ends, if_true, Span.mk.injEq, and_true, ne_eq, not_true_eq_false, iff_false]
      omega
    · simp [ends]

/-- The line below an empty one, and the number after it, in a text that ends in a newline. -/
theorem spans_exact_empty_line :
    let text := "é\n\nb\n".toList
    (contents text)[2]? = some ['b'] ∧ (ofText text).spanOf 3 = ⟨4, 1⟩ ∧
      (ofText text).Answers 4 3 ∧ (contents text).length < 4 ∧ (ofText text).spanOf 4 = ⟨5, 0⟩ := by
  intro text
  have found : (contents text)[2]? = some ['b'] := by decide +kernel
  have past : (contents text).length < 4 := by decide +kernel
  obtain ⟨lines, others⟩ := spans_exact text
  obtain ⟨-, span, answers⟩ := lines 2 ['b'] found
  obtain ⟨beyond, -⟩ := others 4 past
  have begins : utf8Length (above text 2) = 4 := by decide +kernel
  have length : utf8Length text = 6 := by decide +kernel
  have ends : text.getLast? = some '\n' := by decide +kernel
  rw [begins] at span answers
  rw [length, if_pos ends] at beyond
  exact ⟨found, span, (answers 3).mpr rfl, past, beyond⟩

/-- A text that ends in a newline has one line here, and the second span is not at its end. -/
theorem spans_past_newline : ¬∀ text number, (contents text).length < number →
    (ofText text).spanOf number = ⟨utf8Length text, 0⟩ := by
  intro ends
  have here := ends "a\n".toList 2 (by decide)
  cases here

end Lines

end Lox
