import Lox.Proofs.Reading.Diagnostics
import Lox.Proofs.Reading.Termination
import Mathlib.Order.Bounds.Basic

/-!
Where reading goes on after a mistake: at the first boundary after the token at which it stopped. A
boundary is the end, a token that starts a statement, or one behind a semicolon. The token at which
reading stopped is passed even if it is a boundary itself. So an attempt at a declaration that stops
at a mistake leaves the tokens from that boundary on to be read.
-/

namespace Lox

open Reader

namespace Reading

/-- The kind of the token `k`, if there is one. -/
def kindAt? (tokens : List Token) (k : Nat) : Option TokenKind :=
  tokens[k]?.map Token.kind

/-- The token `k` starts a statement. -/
def StartsAt (tokens : List Token) (k : Nat) : Prop :=
  (kindAt? tokens k).any TokenKind.startsStatement = true

instance (tokens : List Token) (k : Nat) : Decidable (StartsAt tokens k) :=
  inferInstanceAs (Decidable (_ = true))

/-- Reading may go on at the token `j`: it is the end, or stands behind a semicolon, or starts a
statement. -/
def Boundary (tokens : List Token) (j : Nat) : Prop :=
  kindAt? tokens j = some .eof ∨ kindAt? tokens (j - 1) = some .semicolon ∨ StartsAt tokens j

/-- After the token `i`, the first boundary is at the token `j`: none between them starts a
statement, and only the one just before `j` may be a semicolon. -/
structure FirstBoundary (tokens : List Token) (i j : Nat) : Prop where
  after : i < j
  boundary : Boundary tokens j
  noStart : ∀ k, i < k → k < j → ¬StartsAt tokens k
  noSemicolon : ∀ k, i ≤ k → k + 2 ≤ j → kindAt? tokens k ≠ some .semicolon
  noEnd : ∀ k, i ≤ k → k < j → kindAt? tokens k ≠ some .eof

/-- The current token is the token `i`: the tokens from there on are ahead. -/
def StandsAt (tokens : List Token) (i : Nat) (s : Reading) : Prop :=
  tokens.drop i = s.ahead

variable {tokens us ts : List Token} {t last : Token} {previous : TokenKind} {i j k : Nat}
  {s : Reading}

lemma kindAt?_of_drop (h : tokens.drop i = t :: us) : kindAt? tokens i = some t.kind := by
  rw [kindAt?, ← List.head?_drop, h]
  rfl

lemma drop_succ_of_drop (h : tokens.drop i = t :: us) : tokens.drop (i + 1) = us := by
  rw [← List.tail_drop, h, List.tail_cons]

namespace StandsAt

lemma kindAt? (h : s.StandsAt tokens i) : kindAt? tokens i = some s.current.kind := by
  obtain ⟨others, split⟩ := s.ahead_split
  exact kindAt?_of_drop (h.trans split)

/-- Tokens that end in one for the end can be read from every one of them on. -/
lemma exists_reading (ended : tokens.getLast?.map Token.kind = some .eof)
    (inside : i < tokens.length) : ∃ s : Reading, s.StandsAt tokens i := by
  obtain ⟨last, isLast, ends⟩ := Option.map_eq_some_iff.mp ended
  obtain ⟨front, rfl⟩ := List.getLast?_eq_some_iff.mp isLast
  have few : i ≤ front.length := by
    rw [List.length_append, List.length_singleton] at inside
    omega
  exact ⟨⟨front.drop i, last, #[], #[], 0, ends⟩, List.drop_append_of_le_length few⟩

/-- Reading goes from a token to a later one. -/
lemma onward {u : Reading} (h : s.StandsAt tokens i) (before : s.Before u) :
    ∃ k, i ≤ k ∧ u.StandsAt tokens k := by
  obtain ⟨passed, split⟩ := before.rest
  refine ⟨i + passed.length, Nat.le_add_right _ _, ?_⟩
  have whole : tokens.drop i = passed ++ u.ahead := by
    rw [h, ahead, ahead, before.last, ← split, List.append_assoc]
  rw [StandsAt, ← List.drop_drop, whole, List.drop_left]

end StandsAt

/-- Whether the next token is a boundary is told by its kind and by the kind of the one before. -/
lemma boundary_succ_iff (before : kindAt? tokens i = some previous)
    (next : tokens.drop (i + 1) = t :: us) : Boundary tokens (i + 1) ↔
      t.kind = .eof ∨ previous = .semicolon ∨ t.kind.startsStatement = true := by
  have here := kindAt?_of_drop next
  simp only [Boundary, StartsAt, Nat.add_sub_cancel, before, here, Option.some.injEq,
    Option.any_some]

lemma boundary_least (h : Boundary tokens (i + 1)) :
    IsLeast {k | i < k ∧ Boundary tokens k} (i + 1) :=
  ⟨⟨Nat.lt_succ_self i, h⟩, fun _ later => later.1⟩

lemma boundary_least_succ (h : ¬Boundary tokens (i + 1))
    (least : IsLeast {k | i + 1 < k ∧ Boundary tokens k} j) :
    IsLeast {k | i < k ∧ Boundary tokens k} j := by
  refine ⟨⟨Nat.lt_of_succ_lt least.1.1, least.1.2⟩, fun k ⟨later, boundary⟩ => ?_⟩
  have other : k ≠ i + 1 := fun same => h (same ▸ boundary)
  exact least.2 ⟨Nat.lt_of_le_of_ne later other.symm, boundary⟩

/-- Tokens are passed up to the least boundary behind the token `i`, which has just been passed. -/
lemma toBoundary_least (ends : last.kind = .eof) (before : kindAt? tokens i = some previous)
    (next : tokens.drop (i + 1) = ts ++ [last]) :
    ∃ j, IsLeast {k | i < k ∧ Boundary tokens k} j ∧
      tokens.drop j = toBoundary previous ts ++ [last] := by
  -- with each token that is passed, it becomes the token `i`, and its kind the previous one
  induction ts generalizing i previous with
  | nil =>
    have here : Boundary tokens (i + 1) := (boundary_succ_iff before next).mpr (.inl ends)
    exact ⟨i + 1, boundary_least here, next⟩
  | cons t rest ih =>
    have here := boundary_succ_iff before next
    rw [toBoundary]
    split
    · next stops =>
      have stops : Boundary tokens (i + 1) := here.mpr (by simpa [or_assoc] using stops)
      exact ⟨i + 1, boundary_least stops, next⟩
    · next goesOn =>
      have goesOn : ¬Boundary tokens (i + 1) := here.not.mpr (by simpa [or_assoc] using goesOn)
      obtain ⟨j, least, place⟩ := ih (kindAt?_of_drop next) (drop_succ_of_drop next)
      exact ⟨j, boundary_least_succ goesOn least, place⟩

/-- From a token that is not the end, the first boundary is the least one behind it. -/
lemma firstBoundary_iff (proper : kindAt? tokens i ≠ some .eof) :
    FirstBoundary tokens i j ↔ IsLeast {k | i < k ∧ Boundary tokens k} j := by
  constructor
  · intro first
    refine ⟨⟨first.after, first.boundary⟩, ?_⟩
    rintro k ⟨later, boundary⟩
    by_contra earlier
    rcases boundary with ends | semicolon | starts
    · exact first.noEnd k (by omega) (by omega) ends
    · exact first.noSemicolon (k - 1) (by omega) (by omega) semicolon
    · exact first.noStart k later (by omega) starts
  · rintro ⟨⟨after, boundary⟩, least⟩
    have none {k : Nat} (later : i < k) (earlier : k < j) : ¬Boundary tokens k :=
      fun found => Nat.not_le_of_lt earlier (least ⟨later, found⟩)
    refine ⟨after, boundary, ?_, ?_, ?_⟩
    · intro k later earlier starts
      exact none later earlier (.inr (.inr starts))
    · intro k later earlier semicolon
      -- the token behind the semicolon is a boundary, and still before `j`
      exact none (Nat.lt_succ_of_le later) earlier (.inr (.inl semicolon))
    · intro k later earlier ends
      rcases Nat.eq_or_lt_of_le later with rfl | later
      · exact proper ends
      · exact none later earlier (.inl ends)

lemma FirstBoundary.unique (h : FirstBoundary tokens i j) (h' : FirstBoundary tokens i k) :
    j = k := by
  have proper := h.noEnd i (Nat.le_refl i) h.after
  exact ((firstBoundary_iff proper).mp h).unique ((firstBoundary_iff proper).mp h')

/-- At the end, no token is passed. -/
lemma resumed_end (h : s.current.kind = .eof) : s.resumed = s := by
  have same : recovered s.rest = s.rest := by
    cases left : s.rest with
    | nil => rfl
    | cons t rest =>
      have ends : t.kind = .eof := by simpa [current, left] using h
      exact if_pos ends
  rw [resumed, same]

/-- Elsewhere the current token is passed, and those behind it up to the first boundary. -/
lemma StandsAt.resumed (h : s.StandsAt tokens i) (proper : s.current.kind ≠ .eof) :
    ∃ j, FirstBoundary tokens i j ∧ s.resumed.StandsAt tokens j := by
  have left := rest_eq proper
  have here : tokens.drop i = s.current :: (s.pass.rest ++ [s.last]) := by
    rw [h, ahead, left, List.cons_append]
  have before := kindAt?_of_drop here
  obtain ⟨j, least, place⟩ := toBoundary_least s.ends before (drop_succ_of_drop here)
  have first : FirstBoundary tokens i j :=
    (firstBoundary_iff (by rw [before]; simpa using proper)).mpr least
  refine ⟨j, first, ?_⟩
  have passed : recovered s.rest = toBoundary s.current.kind s.pass.rest := by
    rw [left, recovered, if_neg proper]
  rw [StandsAt, place, ahead, Reading.resumed, passed]

/-- Tokens that end in one for the end can be read from each of them on. After a mistake at one,
reading goes on at the first boundary behind it; at the end it stays. -/
theorem resumed_firstBoundary (tokens : List Token) (i : Nat)
    (ended : tokens.getLast?.map Token.kind = some .eof) (inside : i < tokens.length) :
    (∃ s : Reading, s.StandsAt tokens i) ∧
    ∀ s : Reading, s.StandsAt tokens i →
      (kindAt? tokens i = some .eof → s.resumed = s) ∧
      (kindAt? tokens i ≠ some .eof →
        ∃ j, s.resumed.StandsAt tokens j ∧ FirstBoundary tokens i j ∧
          ∀ k, FirstBoundary tokens i k → k = j) := by
  constructor
  · exact StandsAt.exists_reading ended inside
  intro s stands
  rw [stands.kindAt?, ne_eq, Option.some.injEq]
  constructor
  · exact resumed_end
  · intro proper
    obtain ⟨j, first, place⟩ := stands.resumed proper
    exact ⟨j, place, first, fun k other => other.unique first⟩

/-- Of three boundaries in a row, reading goes on at the first; that it stopped at a boundary makes
no difference. -/
theorem resumed_firstBoundary_adjacent :
    let tokens := Scan.tokens (Scan.items "print 1 print 2 ; ; var".toList)
    tokens.getLast?.map Token.kind = some .eof ∧ 2 < tokens.length ∧ Boundary tokens 2 ∧
      Boundary tokens 5 ∧ Boundary tokens 6 ∧ Boundary tokens 7 ∧
      ∃ s : Reading, s.StandsAt tokens 2 ∧ s.resumed.StandsAt tokens 5 := by
  intro tokens
  have ended : tokens.getLast?.map Token.kind = some .eof := by decide +kernel
  have inside : 2 < tokens.length := by decide +kernel
  have proper : kindAt? tokens 2 ≠ some .eof := by decide +kernel
  have five : FirstBoundary tokens 2 5 := by
    refine ⟨by decide, .inr (.inl (by decide +kernel)), ?_, ?_, ?_⟩
    · intro k later earlier
      obtain rfl | rfl : k = 3 ∨ k = 4 := by omega
      all_goals decide +kernel
    · intro k later earlier
      obtain rfl | rfl : k = 2 ∨ k = 3 := by omega
      all_goals decide +kernel
    · intro k later earlier
      obtain rfl | rfl | rfl : k = 2 ∨ k = 3 ∨ k = 4 := by omega
      all_goals decide +kernel
  obtain ⟨⟨s, stands⟩, goesOn⟩ := resumed_firstBoundary tokens 2 ended inside
  obtain ⟨j, place, -, only⟩ := (goesOn s stands).2 proper
  refine ⟨ended, inside, ?_, five.boundary, ?_, ?_, s, stands, only 5 five ▸ place⟩
  · exact .inr (.inr (by decide +kernel))
  · exact .inr (.inr (by decide +kernel))
  · exact .inl (by decide +kernel)

/-- The tokens of a text are read from the first one on. -/
lemma start_standsAt (text : List Char) :
    (start (utf8Length text) (Scan.tokens (Scan.items text))).StandsAt
      (Scan.tokens (Scan.items text)) 0 := by
  obtain ⟨ts, q, same, -⟩ := Scan.tokens_items text
  rw [same, Source.start_concat _ _ _ rfl]
  rfl

end Reading

namespace Grammar

open Reading

variable {tokens : List Token} {i : Nat} {s t : Reading} {e : SyntaxError}

/-- A declaration stops at a mistake at the token that is current then. Reading goes on at the first
boundary behind that token; at the end it stays. -/
theorem declaration_resumes (order : tokens.Pairwise fun t u => t.span.start ≤ u.span.start)
    (stands : s.StandsAt tokens i) (run : Unbounded.declaration s = .error e t) :
    ∃ k cause, i ≤ k ∧ t.StandsAt tokens k ∧ e = .atToken t.current cause ∧
      recovering Unbounded.declaration s = .ok none (t.note e).resumed ∧
      (t.current.kind = .eof → (t.note e).resumed = t.note e) ∧
      (t.current.kind ≠ .eof →
        ∃ j, FirstBoundary tokens k j ∧ (t.note e).resumed.StandsAt tokens j) := by
  have ordered : s.Ordered (· ∈ tokens) := by
    constructor
    · intro u ahead
      exact List.mem_of_mem_drop (stands ▸ ahead)
    · exact stands ▸ order.drop
  have reports := (statementsReport (· ∈ tokens) (ample s)).declaration 0 s ordered (Nat.zero_le _)
  have run' : declaration (ample s) s = .error e t := run
  simp only [run'] at reports
  obtain ⟨reported, cause, found⟩ := reports
  obtain ⟨k, later, place⟩ := stands.onward reported.onward.before
  have noted : (t.note e).StandsAt tokens k := place
  refine ⟨k, cause, later, place, found, recovering_error run, ?_, ?_⟩
  · intro ends
    exact resumed_end (s := t.note e) ends
  · intro proper
    exact noted.resumed proper

end Grammar

namespace Source

open Grammar Reading

/-- In a text, every attempt at a declaration finds one, or records a mistake at the token at which
it stops. Then it leaves the tokens from the first boundary behind that one on; at the end it
stays. -/
theorem attempts_resume (text : List Char) {call : Call} (attempt : call.rule = .attempt)
    (reached : Relation.ReflTransGen Call.Leads
      ⟨.declarations false, Reading.start (utf8Length text) (Scan.tokens (Scan.items text))⟩
      call) :
    let tokens := Scan.tokens (Scan.items text)
    (∃ st, Unbounded.declaration call.start = .ok st call.finish) ∨
      ∃ e t k cause, Unbounded.declaration call.start = .error e t ∧
        t.StandsAt tokens k ∧ e = .atToken t.current cause ∧
        call.finish.errors = t.errors.push e ∧
        (t.current.kind = .eof → call.finish = t.note e) ∧
        (t.current.kind ≠ .eof →
          ∃ j, FirstBoundary tokens k j ∧ call.finish.StandsAt tokens j) := by
  intro tokens
  obtain ⟨rule, s⟩ := call
  subst attempt
  obtain ⟨i, -, stands⟩ := (start_standsAt text).onward (Call.within_of_leads reached).1
  have order := (Scan.tokens_increasing text).imp Nat.le_of_lt
  cases run : Unbounded.declaration s with
  | ok st t =>
    have ends : Call.finish ⟨.attempt, s⟩ = t := finish_ok (recovering_ok run)
    exact .inl ⟨st, by rw [ends]⟩
  | error e t =>
    obtain ⟨k, cause, -, place, found, recovers, goesOn⟩ := declaration_resumes order stands run
    have ends : Call.finish ⟨.attempt, s⟩ = (t.note e).resumed := finish_ok recovers
    have noted : (Call.finish ⟨.attempt, s⟩).errors = t.errors.push e := by
      rw [ends]
      rfl
    exact .inr ⟨e, t, k, cause, rfl, place, found, noted, ends ▸ goesOn⟩

end Source

end Lox
