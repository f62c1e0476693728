import Lox.Proofs.Derivation.Program
import Lox.Proofs.Evaluation.Follows
import Lox.Proofs.Evaluation.Sane
import Lox.Proofs.Reading.Roots
import Lox.Proofs.Scan.Slices
import Lox.Session

/-!
No session finds a defect, whatever its texts are and however each of them ends.
-/

namespace Lox

variable {s : State}

lemma State.fresh_sane (now : Clock) (console : Console) : (State.fresh now console).Sane := by
  have clock {i : Nat} {cell : Scope} (found : (State.fresh now console).scopes[i]? = some cell) :
      cell = ⟨none, [(Native.clock.name, .native ⟨.clock, 0⟩)]⟩ := by
    cases i with
    | zero => exact (Option.some.inj found).symm
    | succ i => cases found
  refine ⟨⟨?_, ?_⟩, Nat.le_refl _, fun i outside => absurd trivial outside, nofun⟩
  · intro i p cell _ found up
    obtain rfl := clock found
    cases up
  · intro i cell entry _ found bound
    obtain rfl := clock found
    obtain rfl := List.mem_singleton.mp bound
    exact nofun

/-- The globals admit what the grammar derives outside of functions. -/
lemma State.Sane.admits (sane : s.Sane) {ss : List Statement} {ps : List Phrase}
    (denote : Statement.AllDenote ss ps) (fit : Phrase.AllFit false ps) :
    ∀ st ∈ ss, Region.whole.discipline.Admits false s.extent globalScope st := by
  intro st within
  have globals : Region.whole.discipline.scope s.extent globalScope := ⟨trivial, sane.grown⟩
  exact ⟨denote.derived fit st within, globals, fun _ _ => globals⟩

namespace Session

lemma feed_safe (sane : s.Sane) (fuel : Nat) (text : List Char) :
    (feed fuel text s).2.Sane ∧ ∀ d, (feed fuel text s).1 ≠ .abandoned (.defect d) := by
  cases read : Source.program text with
  | error diagnostics =>
    simp only [feed, read]
    exact ⟨sane, by simp⟩
  | ok ss =>
    obtain ⟨-, ps, derived, denote⟩ := Source.program_sound read
    have safe := Region.whole.discipline.program_keeps fuel (n := 0) sane
      (sane.admits denote derived.fit)
    refine ⟨?_, fun d => ?_⟩
    · rw [feed_of_program read]
      exact safe.after
    · simp only [feed, read]
      cases run : Run.program fuel ss s with
      | ok _ t => simp
      | error stop t =>
        obtain ⟨-, -, proper⟩ := safe.error run
        cases stop with
        | defect d' => exact absurd rfl (proper.1 d')
        | _ => simp

lemma feedAll_safe (fuel : Nat) (texts : List (List Char)) (sane : s.Sane) :
    (feedAll fuel texts s).2.Sane ∧
      ∀ result ∈ (feedAll fuel texts s).1, ∀ d, result.1 ≠ .abandoned (.defect d) :=
  feedAll_keeps (P := State.Sane) (Q := fun outcome => ∀ d, outcome ≠ .abandoned (.defect d))
    (fun _ h => ⟨h.scopes, h.grown, h.others, h.codes⟩) (fun text _ h => feed_safe h fuel text)
    texts sane

/-- Whatever a text is, its scan cuts it only between characters and gives numbers and strings their
literals, and the root of an expression that is read is one of its nodes. Whatever texts are run one
after another, and however they end, no node and no code is missing and nothing returns from outside
of functions. -/
theorem never_defective :
    (∀ text, ∀ item ∈ Scan.items text, Scan.InText text item) ∧
    (∀ depth s e t, Grammar.expression depth s = .ok e t → e.root < e.nodes.size) ∧
    ∀ fuel texts now console, ∀ result ∈ (feedAll fuel texts (State.fresh now console)).1,
      ∀ d, result.1 ≠ .abandoned (.defect d) := by
  refine ⟨fun text item found => ?_, fun depth s e t read => ?_, ?_⟩
  · exact Scan.items_inText text item found
  · exact Grammar.expression_root read
  · intro fuel texts now console
    exact (feedAll_safe fuel texts (State.fresh_sane now console)).2

end Session

/-- A session meets only sane states. -/
lemma State.Met.sane (h : s.Met) : s.Sane := by
  have begins {fuel texts now console text ss} {m : Moment} (read : Source.program text = .ok ss)
      (within : m.Within ss (Session.feedAll fuel texts (State.fresh now console)).2) :
      Region.whole.discipline.Begins m := by
    obtain ⟨-, ps, derived, denote⟩ := Source.program_sound read
    have sane := (Session.feedAll_safe fuel texts (State.fresh_sane now console)).1
    exact Discipline.begins_within sane (sane.admits denote derived.fit) within
  cases h with
  | begins read within => exact (begins read within).1
  | ends rest read within => exact (begins read within).after rest

namespace State.Sane

lemma exists_forall₂ {codes : List (Code (List Statement))} (h : ∀ c ∈ codes, c.Sound) :
    ∃ unfolded, List.Forall₂ Code.Unfolds codes unfolded := by
  induction codes with
  | nil => exact ⟨[], .nil⟩
  | cons c codes ih =>
    simp only [List.mem_cons, forall_eq_or_imp] at h
    obtain ⟨ps, denote, -⟩ := h.1
    obtain ⟨others, unfold⟩ := ih h.2
    exact ⟨⟨c.name, c.parameters, ps⟩ :: others, .cons ⟨rfl, rfl, denote⟩ unfold⟩

lemma unfolds (h : s.Sane) : ∃ m, s.Unfolds m := by
  have sound : ∀ c ∈ s.codes.toList, c.Sound := by
    intro c found
    obtain ⟨i, there⟩ := List.getElem?_of_mem found
    exact h.codes i c (by simpa using there)
  obtain ⟨codes, unfold⟩ := exists_forall₂ sound
  exact ⟨⟨s.scopes, codes.toArray, s.calls, s.rand, s.console, s.now⟩, by simpa using unfold,
    rfl, rfl, rfl, rfl, rfl⟩

end State.Sane

/-- In every state that a session reaches, the bodies of functions unfold to trees. -/
theorem Session.feedAll_unfolds (fuel : Nat) (texts : List (List Char)) (now : Clock)
    (console : Console) : ∃ m, (feedAll fuel texts (State.fresh now console)).2.Unfolds m :=
  (feedAll_safe fuel texts (State.fresh_sane now console)).1.unfolds

end Lox
