import Lox.Text.Span
import Mathlib.Tactic.Common

/-!
Slices of a text. A span names a part of a text just if it starts and stops between characters, at
the offsets of that part.
-/

namespace Lox

variable {cs : List Char} {n : Nat}

lemma utf8Length_cons (c : Char) (cs : List Char) :
    utf8Length (c :: cs) = c.utf8Size + utf8Length cs :=
  rfl

lemma utf8Length_append (as bs : List Char) :
    utf8Length (as ++ bs) = utf8Length as + utf8Length bs := by
  induction as with
  | nil => simp [utf8Length]
  | cons a as ih =>
    rw [List.cons_append, utf8Length_cons, utf8Length_cons, ih]
    omega

lemma dropBytes?_cons_succ (n : Nat) (c : Char) (cs : List Char) :
    dropBytes? (c.utf8Size + n) (c :: cs) = dropBytes? n cs := by
  obtain ⟨k, hk⟩ : ∃ k, c.utf8Size + n = k + 1 := ⟨c.utf8Size + n - 1, by
    have := c.utf8Size_pos
    omega⟩
  rw [hk, dropBytes?, if_pos (by omega), ← hk, Nat.add_sub_cancel_left]

lemma takeBytes?_cons_succ (n : Nat) (c : Char) (cs : List Char) :
    takeBytes? (c.utf8Size + n) (c :: cs) = (takeBytes? n cs).map (c :: ·) := by
  obtain ⟨k, hk⟩ : ∃ k, c.utf8Size + n = k + 1 := ⟨c.utf8Size + n - 1, by
    have := c.utf8Size_pos
    omega⟩
  rw [hk, takeBytes?, if_pos (by omega), ← hk, Nat.add_sub_cancel_left]

lemma dropBytes?_append (as bs : List Char) : dropBytes? (utf8Length as) (as ++ bs) = some bs := by
  induction as with
  | nil => simp [utf8Length, dropBytes?]
  | cons a as ih => rw [utf8Length_cons, List.cons_append, dropBytes?_cons_succ, ih]

lemma takeBytes?_append (as bs : List Char) : takeBytes? (utf8Length as) (as ++ bs) = some as := by
  induction as with
  | nil => simp [utf8Length, takeBytes?]
  | cons a as ih =>
    rw [utf8Length_cons, List.cons_append, takeBytes?_cons_succ, ih, Option.map_some]

/-- A text is cut in one way after so many bytes. -/
lemma utf8Length_inj {as bs as' bs' : List Char} (same : as ++ bs = as' ++ bs')
    (length : utf8Length as = utf8Length as') : as = as' ∧ bs = bs' := by
  have taken := takeBytes?_append as bs
  rw [same, length, takeBytes?_append] at taken
  obtain rfl := Option.some.inj taken
  exact ⟨rfl, List.append_cancel_left same⟩

lemma of_dropBytes? {rest : List Char} (h : dropBytes? n cs = some rest) :
    ∃ passed, cs = passed ++ rest ∧ n = utf8Length passed := by
  induction cs generalizing n with
  | nil =>
    cases n with
    | zero => exact ⟨[], by simpa [dropBytes?] using h, rfl⟩
    | succ n => simp [dropBytes?] at h
  | cons c cs ih =>
    cases n with
    | zero => exact ⟨[], by simpa [dropBytes?] using h, rfl⟩
    | succ n =>
      rw [dropBytes?] at h
      split at h
      · obtain ⟨passed, rfl, hn⟩ := ih h
        refine ⟨c :: passed, rfl, ?_⟩
        rw [utf8Length_cons]
        omega
      · cases h

lemma of_takeBytes? {part : List Char} (h : takeBytes? n cs = some part) :
    ∃ rest, cs = part ++ rest ∧ n = utf8Length part := by
  induction cs generalizing n part with
  | nil =>
    cases n with
    | zero =>
      obtain rfl : [] = part := by simpa [takeBytes?] using h
      exact ⟨[], rfl, rfl⟩
    | succ n => simp [takeBytes?] at h
  | cons c cs ih =>
    cases n with
    | zero =>
      obtain rfl : [] = part := by simpa [takeBytes?] using h
      exact ⟨c :: cs, rfl, rfl⟩
    | succ n =>
      rw [takeBytes?] at h
      split at h
      · obtain ⟨part, found, rfl⟩ := Option.map_eq_some_iff.mp h
        obtain ⟨rest, rfl, hn⟩ := ih found
        refine ⟨rest, rfl, ?_⟩
        rw [utf8Length_cons]
        omega
      · cases h

namespace Span

variable {text part : List Char} {s : Span}

/-- A span names a part of a text just if the part stands at the offsets of the span. -/
theorem textIn?_eq_some : s.textIn? text = some part ↔
    ∃ before after, text = before ++ part ++ after ∧ s = ⟨utf8Length before, utf8Length part⟩ := by
  obtain ⟨start, length⟩ := s
  simp only [textIn?, Option.bind_eq_some_iff, Span.mk.injEq]
  constructor
  · rintro ⟨rest, dropped, taken⟩
    obtain ⟨before, rfl, hs⟩ := of_dropBytes? dropped
    obtain ⟨after, rfl, hl⟩ := of_takeBytes? taken
    exact ⟨before, after, (List.append_assoc ..).symm, hs, hl⟩
  · rintro ⟨before, after, rfl, rfl, rfl⟩
    rw [List.append_assoc]
    exact ⟨part ++ after, dropBytes?_append _ _, takeBytes?_append _ _⟩

/-- What stands inside a part of a text is at the offsets that its place in the part gives. -/
lemma textIn?_inner (as : List Char) {bs cs : List Char}
    (h : s.textIn? text = some (as ++ bs ++ cs)) :
    (Span.mk (s.start + utf8Length as) (utf8Length bs)).textIn? text = some bs := by
  obtain ⟨before, after, rfl, rfl⟩ := textIn?_eq_some.mp h
  refine textIn?_eq_some.mpr ⟨before ++ as, cs ++ after, by simp, ?_⟩
  rw [utf8Length_append before as]

end Span

end Lox
