import Lox.Proofs.Interaction.Ledger
import Lox.Proofs.Text.Pieces

/-!
Standard input and output against a buffer. A program cannot tell whether its lines are cut from a
stream of text when they are asked for, or have been cut before; and the only difference that can be
seen is the prompt.
-/

namespace Lox

variable {α C D : Type}

/-- A place where programs are run stands for another one: the same lines are handed out, and this
stays so whatever is done. -/
structure Context.Mimics (ctx : Context C) (ctx' : Context D) (same : C → D → Prop) : Prop where
  writeLine {c : C} {d : D} (text : String) :
    same c d → same (ctx.writeLine c text) (ctx'.writeLine d text)
  line {c : C} {d : D} : same c d → (ctx.readLine c).1 = (ctx'.readLine d).1
  readLine {c : C} {d : D} : same c d → same (ctx.readLine c).2 (ctx'.readLine d).2

/-- A play goes alike in places that stand for one another. -/
lemma Play.perform_mimics {ctx : Context C} {ctx' : Context D} {same : C → D → Prop}
    (mimics : ctx.Mimics ctx' same) (p : Play α) {c : C} {d : D} (start : same c d) (i : Fin 12) :
    let q := p.perform ctx c i
    let q' := p.perform ctx' d i
    q.events = q'.events ∧ q.result = q'.result ∧ q.cursor = q'.cursor ∧
      same q.context q'.context := by
  induction p generalizing c d i with
  | ends result => exact ⟨rfl, rfl, rfl, start⟩
  | print text rest ih =>
    obtain ⟨events, others⟩ := ih (mimics.writeLine text start) i
    exact ⟨congrArg (Event.print text :: ·) events, others⟩
  | read rest ih =>
    have line := mimics.line start
    obtain ⟨events, others⟩ := ih ((ctx'.readLine d).1.getD "") (mimics.readLine start) i
    simp only [perform, line]
    exact ⟨congrArg (Event.read _ :: ·) events, others⟩
  | rand rest ih =>
    obtain ⟨events, others⟩ := ih (Rand.number i) start (Rand.next i)
    exact ⟨congrArg (Event.rand _ :: ·) events, others⟩

/-- Standard input and output: what has been written, and the text that has not been read. -/
structure Stdio where
  written : String
  rest : List Char

namespace Stdio

/-- Takes a text up to and including its next newline, or all of it if it has none. -/
def takeLine : List Char → List Char × List Char
  | [] => ([], [])
  | c :: cs =>
    if c = '\n' then ([c], cs)
    else
      let (line, rest) := takeLine cs
      (c :: line, rest)

/-- Reading shows the prompt, and yields a line unless there is nothing to take. -/
def context : Context Stdio where
  writeLine c text := { c with written := c.written ++ text ++ "\n" }
  readLine c :=
    let (line, rest) := takeLine c.rest
    (if line.isEmpty then none else some (String.ofList (InputLine.stripped line)),
      ⟨c.written ++ Console.inputPrompt, rest⟩)

/-- The same with all lines cut from the text. -/
def console (c : Stdio) : Console :=
  ⟨c.written, InputLine.ofText c.rest, Console.inputPrompt⟩

/-- The first piece of a text is the line that is taken, and the others are those of the rest. -/
lemma pieces_takeLine (c : Char) (cs : List Char) :
    InputLine.pieces (c :: cs) = (takeLine (c :: cs)).1 :: InputLine.pieces (takeLine (c :: cs)).2 := by
  induction cs generalizing c with
  | nil => by_cases newline : c = '\n' <;> simp [InputLine.pieces, takeLine, newline]
  | cons d cs ih =>
    rw [InputLine.pieces, takeLine]
    split
    · rfl
    · rw [ih d]

/-- Taking a line from the text is taking the first of its lines. -/
lemma readLine_console {x : Stdio} {c : Console} (cut : c.unread = InputLine.ofText x.rest) :
    (context.readLine x).1 = (Console.context.readLine c).1 ∧
      (Console.context.readLine c).2 =
        ⟨c.written ++ c.prompt, InputLine.ofText (context.readLine x).2.rest, c.prompt⟩ := by
  obtain ⟨written, rest⟩ := x
  obtain ⟨written', unread, prompt⟩ := c
  obtain rfl := cut
  cases rest with
  | nil => exact ⟨rfl, rfl⟩
  | cons c cs =>
    have some_line : (takeLine (c :: cs)).1 ≠ [] := by
      rw [takeLine]
      split <;> simp
    simp only [context, Console.context, Console.write, Console.next, InputLine.ofText,
      pieces_takeLine, List.map_cons, List.isEmpty_iff, if_neg some_line, Option.map_some,
      InputLine.content, String.toList_ofList, and_self]

lemma mimics_console : context.Mimics Console.context fun x c => c = x.console where
  writeLine text same := by
    subst same
    rfl
  line same := by
    subst same
    exact (readLine_console rfl).1
  readLine same := by
    subst same
    exact (readLine_console rfl).2

lemma mimics_unread :
    context.Mimics Console.context fun x c => c.unread = InputLine.ofText x.rest where
  writeLine _ same := same
  line same := (readLine_console same).1
  readLine same := congrArg Console.unread (readLine_console same).2

lemma takeLine_suffix (text : List Char) : (takeLine text).2 <:+ text := by
  induction text with
  | nil => exact List.suffix_refl []
  | cons c cs ih =>
    rw [takeLine]
    split
    · exact List.suffix_cons c cs
    · exact ih.trans (List.suffix_cons c cs)

/-- What is left of the text stands at its end. -/
lemma rest_suffix (p : Play α) (x : Stdio) (i : Fin 12) :
    (p.perform context x i).context.rest <:+ x.rest := by
  induction p generalizing x i with
  | ends result => exact List.suffix_refl _
  | print text rest ih => exact ih _ i
  | read rest ih => exact (ih _ _ i).trans (takeLine_suffix x.rest)
  | rand rest ih => exact ih _ x _

end Stdio

/-- A program does the same on standard input and output as on a buffer with the pieces of the
input, cut after each newline: the same lines are printed and read in the same order, the run ends in
the same way and in the same state, and the same text is left. What the buffer holds is what was
printed; standard output has also a prompt wherever a line was read, after the end of the input as
well. The run on the bytes of the input is the one on standard input and output. -/
theorem Run.contexts_interchangeable (fuel : Nat) (ss : List Statement) (now : Clock)
    (input : List Char) :
    let s := State.fresh now (.buffered "" ((InputLine.pieces input).map String.ofList))
    let es := Run.events fuel ss s
    let t := (Run.program fuel ss).after s
    let stdio := (Plan.program fuel ss s.bare).perform Stdio.context ⟨"", input⟩ Rand.first
    stdio.events = es ∧
    Run.program fuel ss s = Play.Performed.outcome { stdio with context := t.console } ∧
    t.console.unread = InputLine.ofText stdio.context.rest ∧ stdio.context.rest <:+ input ∧
    t.console.written = String.join ((Event.prints es).map (· ++ "\n")) ∧
    stdio.context.written = Event.shown Console.inputPrompt es ∧
    Run.program fuel ss
        (State.fresh now ⟨"", InputLine.ofBytes (InputLine.utf8 input), Console.inputPrompt⟩) =
      Play.Performed.outcome { stdio with context := stdio.context.console } := by
  intro s es t stdio
  have cut : s.console.unread = InputLine.ofText input := by
    simp [s, State.fresh, Console.buffered, InputLine.ofText]
  obtain ⟨console, -⟩ := Run.program_after fuel ss s
  have ledger : Event.Ledger es s.console t.console s.rand t.rand := Run.program_ledger fuel ss s
  obtain ⟨events, result, cursor, unread⟩ := (Plan.program fuel ss s.bare).perform_mimics
    Stdio.mimics_unread (c := ⟨"", input⟩) cut Rand.first
  obtain ⟨events', result', cursor', console'⟩ := (Plan.program fuel ss s.bare).perform_mimics
    Stdio.mimics_console (c := ⟨"", input⟩) rfl Rand.first
  have shown := ((Plan.program fuel ss s.bare).perform_ledger (Stdio.console ⟨"", input⟩)
    Rand.first).written
  rw [← events', console', events] at shown
  refine ⟨events, ?_, ?_, Stdio.rest_suffix _ ⟨"", input⟩ _, ?_, ?_, ?_⟩
  · rw [Run.program_eq_outcome]
    exact Play.Performed.outcome_congr result.symm console.symm cursor.symm
  · rw [console]
    exact unread
  · rw [ledger.written, ← Event.shown_empty]
    exact String.empty_append
  · exact shown.trans String.empty_append
  · rw [Run.program_eq_outcome, InputLine.ofBytes_utf8]
    exact Play.Performed.outcome_congr result'.symm console' cursor'.symm

end Lox
