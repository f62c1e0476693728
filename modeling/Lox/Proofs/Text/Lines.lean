import Lox.Proofs.Text.Slices
import Lox.Text.Lines
import Mathlib.Data.List.Induction

/-!
The ranges of the lines of a text are those of its lines: each runs from the newline before it, or
the start of the text, to the next newline, or the end of the text.
-/

namespace Lox

namespace Lines

/-- A line of a text, between what stands before it and after it. A newline at the end of the text
opens no further line. -/
structure Cuts (text before line after : List Char) : Prop where
  whole : text = before ++ line ++ after
  begins : before = [] ∨ ∃ above, before = above ++ ['\n']
  unbroken : '\n' ∉ line
  ends : after = [] ∨ ∃ below, after = '\n' :: below
  there : line ++ after ≠ []

/-- The first range of a text whose first line is the given one. -/
lemma rangesFrom_first {line after : List Char} (unbroken : '\n' ∉ line)
    (ends : after = [] ∨ ∃ below, after = '\n' :: below) {start offset : Nat}
    (there : start < offset ∨ line ++ after ≠ []) (le : start ≤ offset) :
    (rangesFrom start offset (line ++ after))[0]? =
      some ⟨start, offset + utf8Length line + 1⟩ := by
  induction line generalizing offset with
  | nil =>
    rcases ends with rfl | ⟨below, rfl⟩
    · have apart : start ≠ offset := Nat.ne_of_lt (there.resolve_right fun h => h rfl)
      simp [rangesFrom, apart, utf8Length]
    · simp [rangesFrom, utf8Length]
  | cons c line ih =>
    simp only [List.mem_cons, not_or] at unbroken
    have wide := c.utf8Size_pos
    have others : (rangesFrom start (offset + c.utf8Size) (line ++ after))[0]? =
        some ⟨start, offset + c.utf8Size + utf8Length line + 1⟩ :=
      ih unbroken.2 (.inl (by omega)) (by omega)
    simp only [List.cons_append, rangesFrom, if_neg (Ne.symm unbroken.1), others, utf8Length_cons,
      Nat.add_assoc]

/-- The ranges up to a newline are as many as there are newlines up to there. -/
lemma rangesFrom_newline (above rest : List Char) (start offset : Nat) :
    ∃ ranges, ranges.length = above.count '\n' + 1 ∧
      rangesFrom start offset (above ++ '\n' :: rest) =
        ranges ++ rangesFrom (offset + utf8Length above + 1) (offset + utf8Length above + 1)
          rest := by
  induction above generalizing start offset with
  | nil => exact ⟨[⟨start, offset + 1⟩], rfl, by simp [rangesFrom, utf8Length]⟩
  | cons c above ih =>
    by_cases newline : c = '\n'
    · obtain ⟨ranges, count, split⟩ := ih (offset + 1) (offset + 1)
      refine ⟨⟨start, offset + 1⟩ :: ranges, by simp [newline, count], ?_⟩
      have one : c.utf8Size = 1 := by rw [newline]; rfl
      simp only [List.cons_append, rangesFrom, newline, if_true, split, utf8Length_cons]
      rw [← newline, one, ← Nat.add_assoc offset]
    · obtain ⟨ranges, count, split⟩ := ih start (offset + c.utf8Size)
      refine ⟨ranges, by simpa [newline] using count, ?_⟩
      simp only [List.cons_append, rangesFrom, if_neg newline, split, utf8Length_cons,
        ← Nat.add_assoc]

namespace Cuts

variable {text before line after : List Char}

/-- The range of a line. -/
lemma range (h : Cuts text before line after) : (ofText text).ranges[before.count '\n']? =
    some ⟨utf8Length before, utf8Length before + utf8Length line + 1⟩ := by
  obtain ⟨rfl, begins, unbroken, ends, there⟩ := h
  have some : before ++ line ++ after ≠ [] := by
    rw [List.append_assoc]
    exact List.append_ne_nil_of_right_ne_nil _ there
  have first (offset : Nat) : (rangesFrom offset offset (line ++ after))[0]? =
      .some ⟨offset, offset + utf8Length line + 1⟩ :=
    rangesFrom_first unbroken ends (.inr there) (Nat.le_refl _)
  simp only [ofText, List.isEmpty_iff, if_neg some]
  rcases begins with rfl | ⟨above, rfl⟩
  · simpa [utf8Length] using first 0
  · obtain ⟨ranges, count, split⟩ := rangesFrom_newline above (line ++ after) 0 0
    have length : utf8Length (above ++ ['\n']) = utf8Length above + 1 := by
      rw [utf8Length_append]
      rfl
    have many : (above ++ ['\n']).count '\n' = ranges.length := by simp [count]
    have same : above ++ ['\n'] ++ line ++ after = above ++ '\n' :: (line ++ after) := by simp
    rw [same, split, many, length, List.getElem?_append_right (Nat.le_refl _), Nat.sub_self]
    simpa using first (utf8Length above + 1)

/-- The span of the line with the number that the newlines before it give. -/
lemma spanOf (h : Cuts text before line after) :
    (ofText text).spanOf (before.count '\n' + 1) = ⟨utf8Length before, utf8Length line⟩ := by
  have number : max (before.count '\n' + 1) 1 - 1 = before.count '\n' := by omega
  simp only [Lines.spanOf, number, h.range, Span.mk.injEq, true_and]
  omega

/-- No line has a number past the last one. -/
lemma number_le (h : Cuts text before line after) :
    before.count '\n' + 1 ≤ (ofText text).ranges.length :=
  (List.getElem?_eq_some_iff.mp h.range).1

end Cuts

/-- What has been read of a line, and what stands before the line. -/
lemma exists_begun (upto : List Char) : ∃ before begun, upto = before ++ begun ∧ '\n' ∉ begun ∧
    (before = [] ∨ ∃ above, before = above ++ ['\n']) := by
  induction upto using List.reverseRecOn with
  | nil => exact ⟨[], [], rfl, List.not_mem_nil, .inl rfl⟩
  | append_singleton upto c ih =>
    by_cases newline : c = '\n'
    · exact ⟨upto ++ [c], [], by simp, List.not_mem_nil, .inr ⟨upto, by rw [newline]⟩⟩
    · obtain ⟨before, begun, rfl, unbroken, begins⟩ := ih
      exact ⟨before, begun ++ [c], by simp, by simp [unbroken, Ne.symm newline], begins⟩

/-- Every character but a newline stands on a line. -/
lemma exists_cuts {c : Char} (proper : c ≠ '\n') (upto rest : List Char) :
    ∃ before line after, Cuts (upto ++ c :: rest) before line after ∧
      before.count '\n' = upto.count '\n' := by
  obtain ⟨before, begun, rfl, unbroken, begins⟩ := exists_begun upto
  have split := List.takeWhile_append_dropWhile (p := (· ≠ '\n')) (l := rest)
  have stops := List.head?_dropWhile_not (· ≠ '\n') rest
  have goesOn : '\n' ∉ rest.takeWhile (· ≠ '\n') := by
    intro within
    simpa using List.all_eq_true.mp List.all_takeWhile _ within
  refine ⟨before, begun ++ c :: rest.takeWhile (· ≠ '\n'), rest.dropWhile (· ≠ '\n'),
    ⟨?_, begins, ?_, ?_, by simp⟩, ?_⟩
  · conv_lhs => rw [← split]
    simp
  · simp only [List.mem_append, List.mem_cons, not_or]
    exact ⟨unbroken, Ne.symm proper, goesOn⟩
  · cases found : rest.dropWhile (· ≠ '\n') with
    | nil => exact .inl rfl
    | cons d below =>
      rw [found] at stops
      obtain rfl : d = '\n' := by simpa using stops
      exact .inr ⟨below, rfl⟩
  · rw [List.count_append, List.count_eq_zero_of_not_mem unbroken, Nat.add_zero]

end Lines

end Lox
