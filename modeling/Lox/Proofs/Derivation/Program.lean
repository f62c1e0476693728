import Lox.Program.Source
import Lox.Proofs.Derivation.StatementComplete
import Lox.Proofs.Scan.Pieces

/-!
A text has a program just if it has no lexical mistake and the grammar derives its tokens, and then
the program is the one tree that the grammar gives them.
-/

namespace Lox

open Reading Reader Grammar

variable {s : Reading}

/-- Outside of a block, declarations are read up to the end. -/
lemma Unbounded.declarations_end {ss : List Statement} {t : Reading}
    (h : Unbounded.declarations false s = .ok ss t) : t.current.kind = .eof := by
  induction hm : s.left using Nat.strongRecOn generalizing s ss with
  | _ m ih =>
    rw [Unbounded.declarations_eq, declarationsOf, bind_sees, bind_sees] at h
    by_cases ends : s.current.kind = .eof
    · simp only [ends, beq_self_eq_true, Bool.false_and, Bool.or_false, if_true] at h
      cases h
      exact ends
    · simp only [beq_eq_false_iff_ne.mpr ends, Bool.false_and, Bool.or_false, Bool.false_eq_true,
        if_false] at h
      have goes : Goes 1 (recovering Unbounded.declaration) s :=
        (recovering_alikeAt ends
          (declaration_unbounded (Nat.le_refl _) s (Nat.lt_succ_self _))).2
      cases hx : recovering Unbounded.declaration s with
      | error e u =>
        rw [bind_error hx] at h
        cases h
      | ok found u =>
        have passed := (goes.ok hx).2
        rw [bind_ok hx] at h
        cases found with
        | none => exact ih u.left (by omega) h rfl
        | some st =>
          simp only at h
          cases hy : Unbounded.declarations false u with
          | error e v =>
            rw [bind_error hy] at h
            cases h
          | ok others v =>
            rw [bind_ok hy] at h
            cases h
            exact ih u.left (by omega) hy rfl

namespace Source

/-- The tokens of a text, without the one at the end. -/
def proper (text : List Char) : List Token :=
  (Scan.tokens (Scan.items text)).dropLast

/-- Reading starts before the tokens of a text, without mistakes and outside of functions. -/
lemma start_items (text : List Char) :
    ∃ s : Reading, Reading.start (utf8Length text) (Scan.tokens (Scan.items text)) = s ∧
      s.rest = proper text ∧ s.errors = #[] ∧ s.nodes = #[] ∧ s.inside = false ∧
      ∀ t ∈ s.rest, t.kind ≠ .eof := by
  obtain ⟨ts, q, same, kinds⟩ := Scan.tokens_items text
  refine ⟨_, rfl, ?_⟩
  have start : Reading.start (utf8Length text) (ts ++ [Token.atEnd q]) =
      ⟨ts, Token.atEnd q, #[], #[], 0, rfl⟩ := by
    simp [Reading.start, Token.atEnd]
  rw [proper, same, start, List.dropLast_concat]
  exact ⟨rfl, rfl, rfl, rfl, kinds⟩

/-- Without a mistake, the declarations of a text are all of its tokens. -/
lemma declarations_start {text : List Char} {ss : List Statement} {t : Reading}
    (h : Unbounded.declarations false
      (Reading.start (utf8Length text) (Scan.tokens (Scan.items text))) = .ok ss t)
    (quiet : t.errors.isEmpty = true) :
    ∃ ps, DerivesProgram (proper text) ps ∧ Statement.AllDenote ss ps := by
  obtain ⟨s, hs, rest, errors, -, outside, kinds⟩ := start_items text
  rw [hs] at h
  have sound := Unbounded.declarations_sound false s
  have same : t.errors = s.errors := by
    rw [errors]
    exact Array.isEmpty_iff.mp quiet
  obtain ⟨ts, split, parts, derived, rfl, denotes⟩ := sound.derives (Descent.step_ok h) same
  have done : t.rest = [] := by
    cases left : t.rest with
    | nil => rfl
    | cons first others =>
      have here : t.current = first := by simp [Reading.current, left]
      have known : first ∈ s.rest := by simp [split, left]
      exact absurd (here ▸ Unbounded.declarations_end h) (kinds first known)
  rw [done, List.append_nil, rest] at split
  rw [outside] at derived
  exact ⟨_, ⟨parts, derived, split, rfl⟩, denotes⟩

/-- A text with a program has no lexical mistake, and the program denotes a tree that the grammar
gives to its tokens. -/
lemma program_sound {text : List Char} {ss : List Statement} (h : program text = .ok ss) :
    Scan.errors (Scan.items text) = [] ∧
      ∃ ps, DerivesProgram (proper text) ps ∧ Statement.AllDenote ss ps := by
  simp only [program, programOfTokens, Grammar.program] at h
  split at h
  · next ss' read =>
    split at read
    · next ss'' t run =>
      split at read
      · next quiet =>
        split at h
        · next none =>
          cases read
          cases h
          exact ⟨by simpa using none, declarations_start run quiet⟩
        · cases h
      · cases read
    · cases read
  · cases h

/-- Where the grammar derives the tokens of a text without lexical mistakes, the text has a
program. -/
lemma program_complete {text : List Char} {ps : List Phrase}
    (none : Scan.errors (Scan.items text) = []) (h : DerivesProgram (proper text) ps) :
    ∃ ss, program text = .ok ss ∧ Statement.AllDenote ss ps := by
  obtain ⟨parts, derived, split, rfl⟩ := h
  obtain ⟨s, hs, rest, errors, bare, outside, -⟩ := start_items text
  obtain ⟨ss, denotes, run⟩ := Unbounded.declarations_complete [] derived
    (fun part hp => Unbounded.completesForm (derived part hp)) bare outside false (.inl s.ends)
  rw [List.append_nil, ← split, ← rest] at run
  refine ⟨ss, ?_, denotes⟩
  have read : programOfTokens (utf8Length text) (Scan.tokens (Scan.items text)) = .ok ss := by
    have run' : declarations (ample s) false s = .ok ss (s.facing []) := run
    rw [programOfTokens, hs, Grammar.program, run']
    simp [facing, errors]
  simp only [program, read, none, List.map_nil, List.isEmpty_nil, if_true]

/-- A text has a program just if it has no lexical mistake and the grammar derives its tokens. The
program denotes the one tree that the grammar gives to them. -/
theorem program_derives (text : List Char) :
    ((∃ ss, program text = .ok ss) ↔
      Scan.errors (Scan.items text) = [] ∧ ∃ ps, DerivesProgram (proper text) ps) ∧
    ∀ ss, program text = .ok ss →
      ∃ ps, Statement.AllDenote ss ps ∧ ∀ qs, DerivesProgram (proper text) qs ↔ qs = ps := by
  refine ⟨⟨?_, ?_⟩, ?_⟩
  · rintro ⟨ss, h⟩
    obtain ⟨none, ps, derived, -⟩ := program_sound h
    exact ⟨none, ps, derived⟩
  · rintro ⟨none, ps, derived⟩
    obtain ⟨ss, h, -⟩ := program_complete none derived
    exact ⟨ss, h⟩
  · intro ss h
    obtain ⟨none, ps, derived, denotes⟩ := program_sound h
    refine ⟨ps, denotes, fun qs => ⟨fun derived' => ?_, fun same => same ▸ derived⟩⟩
    obtain ⟨ss', h', denotes'⟩ := program_complete none derived'
    rw [h] at h'
    cases h'
    exact denotes'.unique denotes

end Source

end Lox
