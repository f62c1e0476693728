import Lox.Proofs.Text.Lines

/-!
The number of the line of an offset. The ranges of the lines are in order and do not overlap, so
every search of them finds the same range; and the number found is one more than the number of
newlines before the offset, at the end of the text too.
-/

namespace Lox

namespace Range

/-- An offset lies in a range. -/
def Holds (r : Range) (offset : Nat) : Prop :=
  r.start ≤ offset ∧ offset < r.stop

instance (r : Range) (offset : Nat) : Decidable (r.Holds offset) :=
  inferInstanceAs (Decidable (_ ∧ _))

end Range

namespace Lines

variable {start offset sought : Nat}

/-- What a search may answer: the number of a range that holds the offset, or else the number past
all of them. -/
inductive Answers (ls : Lines) (sought : Nat) : Nat → Prop
  | found {i : Nat} {r : Range} : ls.ranges[i]? = some r → r.Holds sought →
    Answers ls sought (i + 1)
  | missed : (∀ r ∈ ls.ranges, ¬r.Holds sought) → Answers ls sought ls.past

/-- A range that is begun is the next one. -/
lemma rangesFrom_begun (begun : start < offset) (cs : List Char) :
    ∃ stop ranges, rangesFrom start offset cs = ⟨start, stop⟩ :: ranges ∧ offset < stop := by
  induction cs generalizing offset with
  | nil => exact ⟨offset + 1, [], if_neg (Nat.ne_of_lt begun), Nat.lt_succ_self offset⟩
  | cons c cs ih =>
    by_cases newline : c = '\n'
    · exact ⟨offset + 1, _, if_pos newline, Nat.lt_succ_self offset⟩
    · obtain ⟨stop, ranges, split, behind⟩ := ih (Nat.lt_add_right c.utf8Size begun)
      refine ⟨stop, ranges, ?_, by omega⟩
      rw [rangesFrom, if_neg newline, split]

/-- The ranges are in order, and each is the place of at least one offset. -/
lemma rangesFrom_ordered (le : start ≤ offset) (cs : List Char) :
    (rangesFrom start offset cs).Pairwise (fun r q => r.stop ≤ q.start) ∧
      ∀ r ∈ rangesFrom start offset cs, start ≤ r.start ∧ r.start < r.stop := by
  induction cs generalizing start offset with
  | nil =>
    unfold rangesFrom
    split
    · exact ⟨.nil, List.forall_mem_nil _⟩
    · exact ⟨List.pairwise_singleton _ _,
        List.forall_mem_singleton.mpr ⟨Nat.le_refl _, Nat.lt_succ_of_le le⟩⟩
  | cons c cs ih =>
    unfold rangesFrom
    split
    · obtain ⟨ordered, behind⟩ := ih (Nat.le_refl (offset + 1))
      refine ⟨List.pairwise_cons.mpr ⟨fun r within => (behind r within).1, ordered⟩, ?_⟩
      simp only [List.mem_cons, forall_eq_or_imp]
      refine ⟨⟨Nat.le_refl _, Nat.lt_succ_of_le le⟩, fun r within => ?_⟩
      have inside := behind r within
      omega
    · exact ih (Nat.le_add_right_of_le le)

/-- There is at most one range more than there are newlines. -/
lemma rangesFrom_length (start offset : Nat) (cs : List Char) :
    (rangesFrom start offset cs).length ≤ cs.count '\n' + 1 := by
  induction cs generalizing start offset with
  | nil =>
    unfold rangesFrom
    split <;> simp
  | cons c cs ih =>
    unfold rangesFrom
    split
    · next newline => simpa [newline] using ih (offset + 1) (offset + 1)
    · next other => simpa [other] using ih start (offset + c.utf8Size)

/-- The index of the range that holds an offset at or inside the character after `upto`. -/
lemma rangesFrom_findIdx (le : start ≤ offset) {upto after : List Char}
    (reached : offset + utf8Length upto ≤ sought)
    (inside : ∀ c rest, after = c :: rest → sought < offset + utf8Length upto + c.utf8Size)
    (ends : after = [] → sought = offset + utf8Length upto) :
    (rangesFrom start offset (upto ++ after)).findIdx (fun r => decide (r.Holds sought)) =
      upto.count '\n' := by
  induction upto generalizing start offset with
  | nil =>
    change offset + 0 ≤ sought at reached
    cases after with
    | nil =>
      obtain rfl : sought = offset := ends rfl
      by_cases same : start = sought
      · simp [rangesFrom, same]
      · simp [rangesFrom, same, List.findIdx_cons, Range.Holds, le]
    | cons c rest =>
      have inside : sought < offset + c.utf8Size := inside c rest rfl
      by_cases newline : c = '\n'
      · have one : c.utf8Size = 1 := by rw [newline]; rfl
        have holds : (Range.mk start (offset + 1)).Holds sought :=
          ⟨Nat.le_trans le reached, one ▸ inside⟩
        simp [rangesFrom, newline, List.findIdx_cons, holds]
      · have begun : start < offset + c.utf8Size :=
          Nat.lt_of_le_of_lt (Nat.le_trans le reached) inside
        obtain ⟨stop, ranges, split, behind⟩ := rangesFrom_begun begun rest
        have holds : (Range.mk start stop).Holds sought :=
          ⟨Nat.le_trans le reached, Nat.lt_trans inside behind⟩
        simp [rangesFrom, newline, split, List.findIdx_cons, holds]
  | cons c upto ih =>
    rw [utf8Length_cons, ← Nat.add_assoc] at reached inside ends
    by_cases newline : c = '\n'
    · have one : c.utf8Size = 1 := by rw [newline]; rfl
      rw [one] at reached inside ends
      have before : ¬(Range.mk start (offset + 1)).Holds sought := fun holds =>
        Nat.not_lt.mpr (Nat.le_of_add_right_le reached) holds.2
      have rest := ih (Nat.le_refl (offset + 1)) reached inside ends
      simp [rangesFrom, newline, List.findIdx_cons, before, rest]
    · have rest := ih (Nat.le_add_right_of_le le) reached inside ends
      simp [rangesFrom, newline, rest]

/-- The number of a line is one more than the index of its range. -/
lemma lineOf_eq_findIdx (ls : Lines) (sought : Nat) :
    ls.lineOf sought = ls.ranges.findIdx (fun r => decide (r.Holds sought)) + 1 := by
  have same : (fun r : Range => decide (r.start ≤ sought) && decide (sought < r.stop)) =
      fun r => decide (r.Holds sought) := by
    funext r
    exact (Bool.decide_and _ _).symm
  rw [lineOf, same, List.findIdx_eq_getD_findIdx?]
  cases ls.ranges.findIdx? fun r => decide (r.Holds sought) with
  | none => rfl
  | some i => rfl

variable {text : List Char}

/-- The lines of a text are in order, as a search requires of what it searches. -/
lemma ofText_ordered (text : List Char) :
    (ofText text).ranges.Pairwise fun r q => r.stop ≤ q.start := by
  unfold ofText
  split
  · exact List.pairwise_singleton _ _
  · exact (rangesFrom_ordered (Nat.le_refl 0) text).1

lemma past_le (text : List Char) : (ofText text).past ≤ text.count '\n' + 2 := by
  unfold ofText past
  split
  · exact Nat.le_add_left _ _
  · exact Nat.succ_le_succ (rangesFrom_length 0 0 text)

/-- The line of an offset at or inside the character after `upto`, or at the end of the text. -/
lemma lineOf_within {upto after : List Char} (reached : utf8Length upto ≤ sought)
    (inside : ∀ c rest, after = c :: rest → sought < utf8Length upto + c.utf8Size)
    (ends : after = [] → sought = utf8Length upto) :
    (ofText (upto ++ after)).lineOf sought = upto.count '\n' + 1 := by
  rw [lineOf_eq_findIdx, ofText]
  split
  · next empty =>
    obtain ⟨rfl, rfl⟩ := List.append_eq_nil_iff.mp (List.isEmpty_iff.mp empty)
    obtain rfl : sought = 0 := ends rfl
    rfl
  · rw [rangesFrom_findIdx (Nat.le_refl 0) (by omega) (by simpa using inside) (by simpa using ends)]

/-- The line of the offset that is reached when `upto` is read. -/
lemma lineOf_reached (upto after : List Char) :
    (ofText (upto ++ after)).lineOf (utf8Length upto) = upto.count '\n' + 1 :=
  lineOf_within (Nat.le_refl _)
    (fun c _ _ => Nat.lt_add_of_pos_right c.utf8Size_pos) fun _ => rfl

namespace Answers

variable {ls : Lines} {line other : Nat}

/-- The number of a line is one of the answers. -/
lemma lineOf (ls : Lines) (sought : Nat) : ls.Answers sought (ls.lineOf sought) := by
  unfold Lines.lineOf
  split
  · next i found =>
    obtain ⟨inside, holds, -⟩ := List.findIdx?_eq_some_iff_getElem.mp found
    exact .found (List.getElem?_eq_getElem inside) (by simpa [Range.Holds] using holds)
  · next none =>
    refine .missed fun r within holds => ?_
    have passed := List.findIdx?_eq_none_iff.mp none r within
    simp [holds.1, holds.2] at passed

/-- In lines that are in order, an offset lies in one range only. -/
lemma unique (ordered : ls.ranges.Pairwise fun r q => r.stop ≤ q.start)
    (h : ls.Answers sought line) (k : ls.Answers sought other) : line = other := by
  have apart {i j : Nat} {r q : Range} (hr : ls.ranges[i]? = some r) (hq : ls.ranges[j]? = some q)
      (holds : r.Holds sought) (holds' : q.Holds sought) : ¬i < j := by
    intro lt
    obtain ⟨hi, rfl⟩ := List.getElem?_eq_some_iff.mp hr
    obtain ⟨hj, rfl⟩ := List.getElem?_eq_some_iff.mp hq
    have behind := List.pairwise_iff_getElem.mp ordered i j hi hj lt
    have within := holds.2
    have within' := holds'.1
    omega
  cases h with
  | found here holds =>
    cases k with
    | found there holds' =>
      have below := apart here there holds holds'
      have above := apart there here holds' holds
      omega
    | missed none => exact absurd holds (none _ (List.mem_of_getElem? here))
  | missed none =>
    cases k with
    | found there holds => exact absurd holds (none _ (List.mem_of_getElem? there))
    | missed _ => rfl

end Answers

/-- Whatever way the lines of a text are searched, the answer is the same. -/
lemma answers_iff (text : List Char) (sought line : Nat) :
    (ofText text).Answers sought line ↔ line = (ofText text).lineOf sought := by
  constructor
  · exact fun h => h.unique (ofText_ordered text) (.lineOf _ _)
  · rintro rfl
    exact .lineOf _ _

end Lines

end Lox
