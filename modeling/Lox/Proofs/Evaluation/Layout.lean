import Lox.Proofs.Derivation.Concatenation
import Lox.Proofs.Evaluation.Moved
import Lox.Proofs.Scan.Literals

/-!
The layout of a text. Blanks, line breaks and comments between the tokens change where a program
stands and nothing that it does: only an error tells the line.
-/

namespace Lox

open Located (moved)

/-- Two states that differ at most in where their functions were written. -/
structure State.Resembles (s t : State) : Prop where
  scopes : s.scopes = t.scopes
  codes : moved .nowhere s.codes.toList = moved .nowhere t.codes.toList
  calls : s.calls = t.calls
  rand : s.rand = t.rand
  console : s.console = t.console
  now : s.now = t.now

/-- Two runs of programs come to the same end. The lines of an error may differ. -/
inductive Run.EndsAlike : EStateM.Result Stop State Unit → EStateM.Result Stop State Unit → Prop
  | finished {s t : State} : s.Resembles t → EndsAlike (.ok () s) (.ok () t)
  | failed {fault : Fault} {line line' : Nat} {s t : State} :
    s.Resembles t → EndsAlike (.error (.error ⟨fault, line⟩) s) (.error (.error ⟨fault, line'⟩) t)
  | outOfFuel {s t : State} :
    s.Resembles t → EndsAlike (.error .outOfFuel s) (.error .outOfFuel t)
  | defect {d : Defect} {s t : State} :
    s.Resembles t → EndsAlike (.error (.defect d) s) (.error (.defect d) t)

lemma State.resembles_of_moved {s t : State} (same : moved .nowhere s = moved .nowhere t) :
    s.Resembles t := by
  obtain ⟨scopes, codes, calls, rand, console, now⟩ := Machine.mk.inj same
  have lists := congrArg Array.toList codes
  rw [Array.toList_map, Array.toList_map] at lists
  exact ⟨scopes, lists, calls, rand, console, now⟩

namespace Run

lemma endsAlike_of_moved {r r' : EStateM.Result Stop State Unit}
    (same : moved .nowhere r = moved .nowhere r') : EndsAlike r r' := by
  cases r with
  | ok _ s =>
    cases r' with
    | ok _ t => exact .finished (State.resembles_of_moved (EStateM.Result.ok.inj same).2)
    | error e t => cases same
  | error e s =>
    cases r' with
    | ok _ t => cases same
    | error e' t =>
      obtain ⟨stops, states⟩ := EStateM.Result.error.inj same
      have resembles := State.resembles_of_moved states
      cases e with
      | error e =>
        cases e' with
        | error e' =>
          obtain ⟨fault, line⟩ := e
          obtain ⟨fault', line'⟩ := e'
          obtain ⟨rfl, -⟩ := RuntimeError.mk.inj (Stop.error.inj stops)
          exact .failed resembles
        | _ => cases stops
      | outOfFuel =>
        cases e' with
        | outOfFuel => exact .outOfFuel resembles
        | _ => cases stops
      | defect d =>
        cases e' with
        | defect d' =>
          obtain rfl := Stop.defect.inj stops
          exact .defect resembles
        | _ => cases stops

/-- Programs that differ in places only do the same in one state. -/
lemma program_endsAlike {ss ss' : List Statement} (same : moved .nowhere ss = moved .nowhere ss')
    (fuel : Nat) (s : State) : EndsAlike (program fuel ss s) (program fuel ss' s) := by
  refine endsAlike_of_moved ?_
  calc moved .nowhere (program fuel ss s)
      = program fuel (moved .nowhere ss) (moved .nowhere s) :=
        (program_moves .nowhere fuel ss s).symm
    _ = program fuel (moved .nowhere ss') (moved .nowhere s) := by rw [same]
    _ = moved .nowhere (program fuel ss' s) := program_moves .nowhere fuel ss' s

end Run

namespace Source

/-- Tokens that differ in places only are read from states that do. -/
lemma start_nowhere {first second : List Char}
    (same : moved .nowhere (Scan.tokens (Scan.items first)) =
      moved .nowhere (Scan.tokens (Scan.items second))) :
    (Setting.alone .nowhere).on
        (Reading.start (utf8Length first) (Scan.tokens (Scan.items first))) =
      (Setting.alone .nowhere).on
        (Reading.start (utf8Length second) (Scan.tokens (Scan.items second))) := by
  obtain ⟨ts, q, tokens, -⟩ := Scan.tokens_items first
  obtain ⟨us, r, tokens', -⟩ := Scan.tokens_items second
  have split (ts : List Token) (t : Token) :
      moved .nowhere (ts ++ [t]) = moved .nowhere ts ++ [moved .nowhere t] := List.map_append
  rw [tokens, tokens', split, split] at same
  obtain ⟨others, last⟩ := List.append_inj' same rfl
  rw [tokens, tokens', start_concat _ ts _ rfl, start_concat _ us _ rfl]
  simp only [Setting.on, Setting.alone, Option.elim, others, List.cons.inj last]

/-- The program of a text without lexical mistakes is that of its tokens. -/
lemma program_of_clean {text : List Char} (clean : Scan.errors (Scan.items text) = []) :
    program text =
      match Grammar.program (Reading.start (utf8Length text) (Scan.tokens (Scan.items text))) with
      | .ok ss => .ok ss
      | .error es => .error (es.map Diagnostic.grammatical) := by
  rw [program, programOfTokens, clean]
  rfl

/-- Texts whose tokens differ in places only have programs, or mistakes, that do. -/
lemma program_nowhere {first second : List Char}
    (clean : Scan.errors (Scan.items first) = []) (clean' : Scan.errors (Scan.items second) = [])
    (same : moved .nowhere (Scan.tokens (Scan.items first)) =
      moved .nowhere (Scan.tokens (Scan.items second))) :
    moved .nowhere (program first) = moved .nowhere (program second) := by
  have result := congrArg Grammar.program (start_nowhere same)
  rw [program_moved, program_moved] at result
  rw [program_of_clean clean, program_of_clean clean']
  generalize Grammar.program (Reading.start (utf8Length first) _) = r at result ⊢
  generalize Grammar.program (Reading.start (utf8Length second) _) = r' at result ⊢
  cases r with
  | ok ss =>
    cases r' with
    | ok ss' => exact congrArg Except.ok (Except.ok.inj result)
    | error es' => cases result
  | error es =>
    cases r' with
    | ok ss' => cases result
    | error es' =>
      refine congrArg Except.error ?_
      rw [← moved_grammatical, ← moved_grammatical, Except.error.inj result]

/-- Two texts with the same tokens but for their places have the same program, or the same mistakes,
but for their places, and their programs do the same: they write and read the same, and where they
fail, it is of the same fault. -/
theorem layout_irrelevant {first second : List Char}
    (clean : Scan.errors (Scan.items first) = []) (clean' : Scan.errors (Scan.items second) = [])
    (same : (Scan.tokens (Scan.items first)).map (fun t => (t.kind, t.lexeme)) =
      (Scan.tokens (Scan.items second)).map (fun t => (t.kind, t.lexeme))) :
    moved .nowhere (program first) = moved .nowhere (program second) ∧
      ∀ ss ss', program first = .ok ss → program second = .ok ss' → ∀ fuel now console,
        Run.EndsAlike (Run.program fuel ss (State.fresh now console))
          (Run.program fuel ss' (State.fresh now console)) := by
  have programs := program_nowhere clean clean' (Scan.tokens_moved_nowhere same)
  refine ⟨programs, fun ss ss' read read' fuel now console => ?_⟩
  rw [read, read'] at programs
  exact Run.program_endsAlike (Except.ok.inj programs) fuel _

/-- A comment inside a statement that fails, on two lines. -/
theorem layout_irrelevant_comment :
    let first := "print -nil;".toList
    let second := "print // the operand is below\n  -nil ;".toList
    Scan.errors (Scan.items first) = [] ∧ Scan.errors (Scan.items second) = [] ∧
      (Scan.tokens (Scan.items first)).map (fun t => (t.kind, t.lexeme)) =
        (Scan.tokens (Scan.items second)).map (fun t => (t.kind, t.lexeme)) ∧
      moved .nowhere (program first) = moved .nowhere (program second) ∧
      ∃ ss ss', program first = .ok ss ∧ program second = .ok ss' ∧ ∀ fuel now console,
        Run.EndsAlike (Run.program fuel ss (State.fresh now console))
          (Run.program fuel ss' (State.fresh now console)) := by
  intro first second
  have clean : Scan.errors (Scan.items first) = [] := by decide +kernel
  have clean' : Scan.errors (Scan.items second) = [] := by decide +kernel
  have same : (Scan.tokens (Scan.items first)).map (fun t => (t.kind, t.lexeme)) =
      (Scan.tokens (Scan.items second)).map (fun t => (t.kind, t.lexeme)) := by decide +kernel
  have some : (program first).toOption.isSome = true := by decide +kernel
  have some' : (program second).toOption.isSome = true := by decide +kernel
  obtain ⟨programs, runs⟩ := layout_irrelevant clean clean' same
  refine ⟨clean, clean', same, programs, ?_⟩
  cases read : program first with
  | error ds => simp [read, Except.toOption] at some
  | ok ss =>
    cases read' : program second with
    | error ds => simp [read', Except.toOption] at some'
    | ok ss' => exact ⟨ss, ss', rfl, rfl, runs ss ss' read read'⟩

end Source

end Lox
