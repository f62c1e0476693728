import Lox.Proofs.Derivation.Program
import Lox.Proofs.Evaluation.Calls
import Lox.Proofs.Reading.OriginsRules
import Lox.Proofs.Scan.Lines

/-!
Errors point at the text. The names and lines in a program are those of tokens of its text, and so
is the line of every error that a run of it can end with.
-/

namespace Lox

variable {W : Token → Prop} {s t : State} {e : RuntimeError}

/-- All statements whose names and lines are drawn from the tokens. -/
def Fragment.drawn (W : Token → Prop) : Fragment where
  node nodes _ := ∀ node ∈ nodes, node.Drawn W
  statement inside st := inside = true ∧ st.Drawn W
  operand h _ _ := h
  subject h he := h.2.subject he
  part {inside st _} h within := by
    obtain ⟨rfl, drawn⟩ := h
    refine ⟨?_, drawn.part within⟩
    cases st <;> rfl
  inside h := h.1

/-- The code of all functions is drawn from the tokens. -/
def State.Drawn (W : Token → Prop) (s : State) : Prop :=
  ∀ (i : Nat) (code : Code (List Statement)), s.codes[i]? = some code →
    ∀ st ∈ code.body, st.Drawn W

/-- What is run is drawn from the tokens. -/
def Discipline.drawn (W : Token → Prop) : Discipline where
  toFragment := .drawn W
  state _ s := s.Drawn W
  value _ _ := True
  scope _ _ := True
  binds _ _ _ := True
  stop _ _ := True
  value_mono _ _ := trivial
  scope_mono _ _ := trivial
  binds_mono _ _ := trivial
  plain _ := trivial
  quoted _ _ := trivial
  body drawn found within := ⟨rfl, drawn _ _ found _ within⟩
  closure _ := trivial
  bound _ _ _ := trivial
  declare drawn _ _ := drawn
  assign drawn _ _ _ := drawn
  opened drawn _ _ := drawn
  fresh _ := ⟨trivial, fun _ => trivial⟩
  made {n s i code} drawn _ hc := by
    refine ⟨fun j other found => ?_, trivial⟩
    simp only [Array.getElem?_push] at found
    split at found
    · cases found
      exact fun st within => (hc st within).2
    · exact drawn j other found
  printed _ drawn := drawn
  read drawn := drawn
  rand drawn := drawn
  timed drawn := drawn
  entered drawn _ := drawn
  left drawn := drawn
  fault _ := trivial
  outOfFuel := trivial
  missingNode _ _ := trivial
  missingCode _ _ := trivial

namespace Moment

/-- A part begins with what is drawn from the tokens, and a call is on the line of one. -/
structure Drawn (W : Token → Prop) (m : Moment) : Prop where
  begins : (Discipline.drawn W).Begins m
  call : ∀ f vs line, m.part = .call f vs line → DrawnLine W line

lemma Drawn.leads {m m' : Moment} (h : m.Drawn W) (leads : m.Leads m') : m'.Drawn W := by
  refine ⟨h.begins.leads leads, ?_⟩
  cases leads with
  | call found run =>
    obtain ⟨-, nodes, -⟩ := h.begins
    rintro f vs line ⟨⟩
    exact (nodes _ (Array.mem_of_getElem? found)).lines _ (List.mem_singleton_self _)
  | _ => exact nofun

/-- The error of a part is on the line of one of the tokens. -/
lemma Drawn.raises {m : Moment} (h : m.Drawn W) (raises : m.Raises e) : DrawnLine W e.line := by
  obtain ⟨⟨-, allowed⟩, call⟩ := h
  cases raises with
  | name found _ | unary found _ _ | binary found _ _ =>
    exact (allowed.1 _ (Array.mem_of_getElem? found)).lines _ (List.mem_singleton_self _)
  | target found _ _ =>
    exact ((allowed.1 _ (Array.mem_of_getElem? found)).idents _ (List.mem_singleton_self _)).line
  | floor found _ run | substring found _ run =>
    rw [(Run.native_stops run).1]
    exact (allowed.1 _ (Array.mem_of_getElem? found)).lines _ (List.mem_singleton_self _)
  | native run =>
    rw [(Run.native_stops run).1]
    exact call _ _ _ rfl
  | entry _ run =>
    rw [Run.enter_stops run]
    exact call _ _ _ rfl
  | callee _ _ => exact call _ _ _ rfl
  | iterable _ _ =>
    obtain ⟨inside, admits⟩ := allowed
    exact (admits.statement.2.idents _ (.name (List.mem_singleton_self _))).line

lemma Drawn.onward {m m' : Moment} (h : m.Drawn W) (way : Relation.ReflTransGen Leads m m') :
    m'.Drawn W := by
  induction way with
  | refl => exact h
  | tail _ leads ih => exact ih.leads leads

lemma Drawn.arises {m : Moment} (h : m.Drawn W) (arises : m.Arises e) : DrawnLine W e.line := by
  obtain ⟨last, way, raises⟩ := arises
  exact (h.onward way).raises raises

end Moment

/-- An error of a program that is run before any other is on the line of a token, if all that is in
the program is drawn from the tokens. -/
lemma Run.program_error_drawn {ss : List Statement} (drawn : ∀ st ∈ ss, st.Drawn W) {fuel : Nat}
    {now : Clock} {console : Console}
    (run : Run.program fuel ss (State.fresh now console) = .error (.error e) t) :
    DrawnLine W e.line := by
  have arises : Moment.Arises ⟨.statements globalScope ss, 0, State.fresh now console⟩ e := by
    rcases Exec.bind_stops run with run | ⟨completion, u, -, run⟩
    · exact (Run.traced fuel).statements 0 run
    · cases completion <;> cases run
  have begins : (Discipline.drawn W).Begins
      ⟨.statements globalScope ss, 0, State.fresh now console⟩ :=
    ⟨nofun, true, fun st within => ⟨⟨rfl, drawn st within⟩, trivial, fun _ _ => trivial⟩⟩
  exact Moment.Drawn.arises ⟨begins, nofun⟩ arises

namespace Source

/-- Each identifier in a program stands in its text where it says, and each line in the program is
that of a token of the text. So an error of a run of the program, whatever it is given to read, is
on the line of a token, which is a line of the text: its span is that of the line. -/
theorem errors_on_lines {text : List Char} {ss : List Statement} (read : program text = .ok ss) :
    (∀ st ∈ ss, ∀ i, st.Mentions i → i.span.textIn? text = some i.name.toList) ∧
    (∀ st ∈ ss, ∀ line, st.Stores line →
      ∃ t ∈ Scan.tokens (Scan.items text), t.kind ≠ .eof ∧ t.line = line) ∧
    ∀ fuel now console e s,
      Run.program fuel ss (State.fresh now console) = .error (.error e) s →
      (∃ t ∈ Scan.tokens (Scan.items text), t.kind ≠ .eof ∧ t.line = e.line) ∧
      ∃ before line after, Lines.Cuts text before line after ∧
        e.line = before.count '\n' + 1 ∧ e.line ≤ (Lines.ofText text).ranges.length ∧
        (Lines.ofText text).spanOf e.line = ⟨utf8Length before, utf8Length line⟩ := by
  let W (t : Token) : Prop := t ∈ Scan.tokens (Scan.items text) ∧ t.kind ≠ .eof
  have drawn : ∀ st ∈ ss, st.Drawn W := by
    obtain ⟨s, start, rest, -, bare, -, kinds⟩ := start_items text
    have tokens : ∀ t ∈ s.rest, W t := by
      intro t within
      refine ⟨?_, kinds t within⟩
      rw [rest] at within
      exact List.dropLast_subset _ within
    have whole : Grammar.program s = .ok ss := by
      simp only [program, programOfTokens, start] at read
      split at read
      · split at read <;> cases read
        assumption
      · cases read
    exact Grammar.program_drawn tokens bare whole
  refine ⟨fun st within i mentions => ?_, fun st within line stores => ?_, ?_⟩
  · obtain ⟨t, ⟨found, -⟩, -, rfl⟩ := (drawn st within).idents i mentions
    exact (Scan.items_inText text _ (Scan.mem_tokens found)).lexeme
  · obtain ⟨t, ⟨found, proper⟩, here⟩ := (drawn st within).lines line stores
    exact ⟨t, found, proper, here⟩
  · intro fuel now console e s run
    obtain ⟨t, ⟨found, proper⟩, here⟩ := Run.program_error_drawn drawn run
    obtain ⟨before, line, after, cuts, number⟩ := Scan.token_on_line found proper
    have number := here.symm.trans number
    refine ⟨⟨t, found, proper, here⟩, before, line, after, cuts, number, ?_, ?_⟩
    · rw [number]
      exact cuts.number_le
    · rw [number]
      exact cuts.spanOf

/-- The second line of a text takes a name that means nothing. -/
theorem errors_on_lines_undefined :
    let text := "print nil;\n  print a;".toList
    ∃ ss s, program text = .ok ss ∧
      Run.program 9 ss (State.fresh 0 ⟨"", [], ""⟩) = .error (.error ⟨.undefined "a", 2⟩) s ∧
      (∀ st ∈ ss, ∀ i, st.Mentions i → i.span.textIn? text = some i.name.toList) ∧
      (∀ st ∈ ss, ∀ line, st.Stores line →
        ∃ t ∈ Scan.tokens (Scan.items text), t.kind ≠ .eof ∧ t.line = line) ∧
      (∃ t ∈ Scan.tokens (Scan.items text), t.kind ≠ .eof ∧ t.line = 2) ∧
      (Lines.ofText text).spanOf 2 = ⟨11, 10⟩ := by
  intro text
  have fails : (program text).toOption.bind (fun ss =>
      (Run.program 9 ss).stop? (State.fresh 0 ⟨"", [], ""⟩)) =
      some (.error ⟨.undefined "a", 2⟩) := by decide +kernel
  cases read : program text with
  | error ds => simp [read, Except.toOption] at fails
  | ok ss =>
    rw [read] at fails
    obtain ⟨s, run⟩ := Exec.stop?_eq_some.mp fails
    obtain ⟨names, lines, errors⟩ := errors_on_lines read
    exact ⟨ss, s, rfl, run, names, lines, (errors _ _ _ _ _ run).1, by decide⟩

end Source

end Lox
