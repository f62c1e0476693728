import Lox.Command
import Lox.Proofs.Interaction.Ledger
import Lox.Proofs.Text.Pieces

/-!
Interactive sessions. Their source lines and the lines that these read come from one stream; each
line of it is used once, and a session that is given the source lines and, apart from them, the lines
that they read goes in the same way.
-/

namespace Lox

variable {α : Type}

/-- The console after events that it has taken part in. -/
def Console.later (c : Console) (es : List Event) : Console :=
  ⟨c.written ++ Event.shown c.prompt es, c.unread.drop (Event.reads es).length, c.prompt⟩

lemma Event.Ledger.later {es : List Event} {c d : Console} {i j : Fin 12} (h : Ledger es c d i j) :
    d = c.later es := by
  obtain ⟨written, unread, prompt⟩ := d
  obtain rfl := h.written
  obtain rfl := h.unread
  obtain rfl := h.prompt
  rfl

lemma Console.later_unread (c : Console) (es : List Event) :
    (c.later es).unread = c.unread.drop (Event.reads es).length :=
  rfl

/-- A play goes alike on consoles that yield the same lines as far as it reads them. -/
lemma Play.perform_agrees (p : Play α) {c d : Console} (i : Fin 12)
    (agree : ∀ k < (Event.reads (p.perform Console.context c i).events).length,
      d.line k = c.line k) :
    (p.perform Console.context d i).events = (p.perform Console.context c i).events ∧
      (p.perform Console.context d i).result = (p.perform Console.context c i).result ∧
      (p.perform Console.context d i).cursor = (p.perform Console.context c i).cursor := by
  induction p generalizing c d i with
  | ends result => exact ⟨rfl, rfl, rfl⟩
  | print text rest ih =>
    obtain ⟨events, others⟩ := ih (c := Console.context.writeLine c text)
      (d := Console.context.writeLine d text) i agree
    exact ⟨congrArg (Event.print text :: ·) events, others⟩
  | read rest ih =>
    have first : d.line 0 = c.line 0 := agree 0 (Nat.succ_pos _)
    simp only [perform, Console.readLine_line, first]
    have shifted (x : Console) (k : Nat) :
        (Console.context.readLine x).2.line k = x.line (1 + k) :=
      Console.line_drop (congrArg Console.unread (Console.readLine_console x)) k
    obtain ⟨events, others⟩ := ih (c.line 0) (c := (Console.context.readLine c).2)
      (d := (Console.context.readLine d).2) i fun k below => by
        rw [shifted, shifted]
        refine agree (1 + k) ?_
        simp only [perform, Console.readLine_line]
        rw [Nat.add_comm]
        exact Nat.succ_lt_succ below
    exact ⟨congrArg (Event.read _ :: ·) events, others⟩
  | rand rest ih =>
    obtain ⟨events, others⟩ := ih (Rand.number i) (Rand.next i) agree
    exact ⟨congrArg (Event.rand _ :: ·) events, others⟩

lemma Play.perform_later (p : Play α) {c d : Console} (i : Fin 12)
    (agree : ∀ k < (Event.reads (p.perform Console.context c i).events).length,
      d.line k = c.line k) :
    p.perform Console.context d i = { p.perform Console.context c i with
      context := d.later (p.perform Console.context c i).events } := by
  obtain ⟨events, result, cursor⟩ := p.perform_agrees i agree
  have context := (p.perform_ledger d i).later
  rw [events] at context
  exact Performed.ext events result context cursor

namespace Session

variable {fuel : Nat} {text : List Char} {s : State}

lemma feed_console (fuel : Nat) (text : List Char) (s : State) :
    (feed fuel text s).2.console = s.console.later (eventsOf fuel text s) :=
  (feed_ledger fuel text s).later

/-- A text does the same on a console that yields the same lines as far as it reads them. -/
lemma feed_agrees (fuel : Nat) (text : List Char) (s : State) {c : Console}
    (agree : ∀ k < (Event.reads (eventsOf fuel text s)).length, c.line k = s.console.line k) :
    feed fuel text { s with console := c } =
      ((feed fuel text s).1,
        { (feed fuel text s).2 with console := c.later (eventsOf fuel text s) }) := by
  cases read : Source.program text with
  | error diagnostics =>
    simp [feed, eventsOf, read, Console.later, Event.shown, Event.reads]
  | ok ss =>
    simp only [eventsOf, read] at agree ⊢
    have same : Run.performed fuel ss { s with console := c } =
        { Run.performed fuel ss s with context := c.later (Run.events fuel ss s) } :=
      (Plan.program fuel ss s.bare).perform_later s.rand agree
    simp only [feed, read, Run.program_eq_outcome, same, Play.Performed.outcome]
    cases (Run.performed fuel ss s).result with
    | ok _ t => rfl
    | error stop t => cases stop <;> rfl

lemma feedAll_cons {outcome : Outcome} {t : State} (h : feed fuel text s = (outcome, t))
    (texts : List (List Char)) :
    feedAll fuel (text :: texts) s =
      ((outcome, t.console.written) :: (feedAll fuel texts (collect t).2).1,
        (feedAll fuel texts (collect t).2).2) := by
  rw [feedAll, h]
  rfl

end Session

/-- Lines from the front of the input, and then empty ones. -/
lemma Console.lines_eq (c : Console) (n : Nat) :
    (List.range n).map c.line = (c.unread.take n).map InputLine.content ++
      List.replicate (n - c.unread.length) "" := by
  obtain ⟨written, unread, prompt⟩ := c
  induction n generalizing unread with
  | zero => simp
  | succ n ih =>
    have others : (Console.mk written unread prompt).line ∘ Nat.succ =
        (Console.mk written unread.tail prompt).line := by
      funext k
      cases unread <;> simp [line]
    rw [List.range_succ_eq_map, List.map_cons, List.map_map, others, ih]
    cases unread <;> simp [line, List.replicate_succ]

namespace Command

/-- A turn of an interactive session: a source line, with the states in which it is run and in which
it ends. -/
structure Turn where
  source : String
  before : State
  outcome : Session.Outcome
  after : State

/-- What is done in a turn. -/
def Turn.events (fuel : Nat) (t : Turn) : List Event :=
  Session.eventsOf fuel t.source.toList t.before

/-- The lines of the input that are gone after a turn. -/
def Turn.consumed (t : Turn) : List InputLine :=
  t.before.console.unread.take
    (t.before.console.unread.length - t.after.console.unread.length)

/-- The turn of a source line, from the state in which the line has been taken. -/
def turn (fuel : Nat) (line : String) (s : State) : Turn :=
  ⟨line, s, (Session.feed fuel line.toList s).1, (Session.feed fuel line.toList s).2⟩

/-- The turns of an interactive session, at most so many. -/
def turns (fuel : Nat) : Nat → State → List Turn
  | 0, _ => []
  | n + 1, s =>
    match (s.console.write replPrompt).next with
    | (some (.text line), console) =>
      let t := turn fuel line { s with console }
      t :: turns fuel n t.after
    | _ => []

/-- The state when the first line of the input has been taken after a prompt. -/
def taken (s : State) (rest : List InputLine) : State :=
  { s with console := ⟨s.console.written ++ replPrompt, rest, s.console.prompt⟩ }

variable {fuel n : Nat} {s : State} {line : String} {rest : List InputLine} {t : Turn}

lemma turns_nil (n : Nat) (ended : s.console.unread = []) : turns fuel n s = [] := by
  cases n with
  | zero => rfl
  | succ n => simp [turns, Console.write, Console.next, ended]

lemma turns_cons (n : Nat) (more : s.console.unread = .text line :: rest) :
    turns fuel (n + 1) s =
      turn fuel line (taken s rest) :: turns fuel n (turn fuel line (taken s rest)).after := by
  simp [turns, Console.write, Console.next, more, taken]

lemma turn_after_console (fuel : Nat) (line : String) (s : State) :
    (turn fuel line s).after.console = s.console.later ((turn fuel line s).events fuel) :=
  Session.feed_console fuel line.toList s

lemma turn_after_unread (fuel : Nat) (line : String) (s : State) :
    (turn fuel line s).after.console.unread =
      s.console.unread.drop (Event.reads ((turn fuel line s).events fuel)).length := by
  rw [turn_after_console, Console.later_unread]

lemma turn_consumed (fuel : Nat) (line : String) (s : State) : (turn fuel line s).consumed =
    s.console.unread.take (Event.reads ((turn fuel line s).events fuel)).length := by
  have before : (turn fuel line s).before = s := rfl
  rw [Turn.consumed, turn_after_unread, before, List.length_drop, List.take_eq_take_iff]
  omega

lemma turn_events_reads (fuel : Nat) (line : String) (s : State) :
    Event.reads ((turn fuel line s).events fuel) =
      (List.range (Event.reads ((turn fuel line s).events fuel)).length).map s.console.line :=
  (Session.feed_ledger fuel line.toList s).lines

/-- A turn loses no line of the input: what it consumes is what is read in it, and if more is read,
then the input is at its end. -/
lemma turn_reads (fuel : Nat) (line : String) (s : State) :
    s.console.unread =
        (turn fuel line s).consumed ++ (turn fuel line s).after.console.unread ∧
      ∃ beyond, Event.reads ((turn fuel line s).events fuel) =
        (turn fuel line s).consumed.map InputLine.content ++ List.replicate beyond "" ∧
          (0 < beyond → (turn fuel line s).after.console.unread = []) := by
  have lines := turn_events_reads fuel line s
  rw [Console.lines_eq, ← turn_consumed] at lines
  refine ⟨?_, _, lines, fun more => ?_⟩
  · rw [turn_consumed, turn_after_unread, List.take_append_drop]
  · rw [turn_after_unread]
    exact List.drop_eq_nil_of_le (by omega)

lemma mem_turns (h : t ∈ turns fuel n s) : ∃ line u, t = turn fuel line u := by
  induction n generalizing s with
  | zero => cases h
  | succ n ih =>
    rw [turns] at h
    split at h
    · rcases List.mem_cons.mp h with rfl | later
      · exact ⟨_, _, rfl⟩
      · exact ih later
    · cases h

/-- Every turn runs its source line, and what is read in it is what it consumes. -/
lemma turns_read (h : t ∈ turns fuel n s) :
    Session.feed fuel t.source.toList t.before = (t.outcome, t.after) ∧
      t.before.console.unread = t.consumed ++ t.after.console.unread ∧
      ∃ beyond, Event.reads (t.events fuel) =
        t.consumed.map InputLine.content ++ List.replicate beyond "" ∧
          (0 < beyond → t.after.console.unread = []) := by
  obtain ⟨line, s, rfl⟩ := mem_turns h
  exact ⟨(Prod.eta _).symm, turn_reads fuel line s⟩

/-- Input that is text. -/
def Readable (s : State) : Prop :=
  ∀ l ∈ s.console.unread, ∃ line, l = .text line

/-- The source line of the next turn, if there is one. -/
lemma Readable.next (texts : Readable s) (fuel : Nat) : s.console.unread = [] ∨
    ∃ line rest, s.console.unread = .text line :: rest ∧
      Readable (turn fuel line (taken s rest)).after := by
  rw [Readable] at texts
  cases more : s.console.unread with
  | nil => exact .inl rfl
  | cons l rest =>
    rw [more, List.forall_mem_cons] at texts
    obtain ⟨⟨line, rfl⟩, texts⟩ := texts
    refine .inr ⟨line, rest, rfl, fun l there => ?_⟩
    rw [turn_after_unread] at there
    exact texts l (List.mem_of_mem_drop there)

lemma turn_length_le (fuel : Nat) (line : String) (s : State) :
    (turn fuel line s).after.console.unread.length ≤ s.console.unread.length := by
  rw [turn_after_unread, List.length_drop]
  exact Nat.sub_le _ _

/-- Every line of the input is the source of a turn or is consumed in one, in order. -/
lemma turns_lines (texts : Readable s) (enough : s.console.unread.length ≤ n) :
    s.console.unread = (turns fuel n s).flatMap fun t => .text t.source :: t.consumed := by
  induction n generalizing s with
  | zero =>
    rw [List.length_eq_zero_iff.mp (Nat.le_zero.mp enough)]
    rfl
  | succ n ih =>
    rcases texts.next fuel with ended | ⟨line, rest, more, texts⟩
    · rw [turns_nil _ ended, ended, List.flatMap_nil]
    · have less := turn_length_le fuel line (taken s rest)
      rw [more, List.length_cons] at enough
      have later := ih texts (Nat.le_trans less (Nat.le_of_succ_le_succ enough))
      rw [turns_cons n more, List.flatMap_cons, ← later, more, List.cons_append]
      exact congrArg _ (turn_reads fuel line (taken s rest)).1

/-- What is written in turns, with the prompts. -/
def transcript (fuel : Nat) (prompt : String) (ts : List Turn) : String :=
  String.join (ts.map fun t => replPrompt ++ Event.shown prompt (t.events fuel))

/-- What is said of turns. -/
def complaints (format : Format) (ts : List Turn) : String :=
  String.join (ts.map fun t => complaint format replPath t.source.toList t.outcome)

lemma transcript_cons (prompt : String) (t : Turn) (ts : List Turn) :
    transcript fuel prompt (t :: ts) =
      replPrompt ++ Event.shown prompt (t.events fuel) ++ transcript fuel prompt ts := by
  simp [transcript]

lemma complaints_cons (format : Format) (t : Turn) (ts : List Turn) :
    complaints format (t :: ts) =
      complaint format replPath t.source.toList t.outcome ++ complaints format ts := by
  simp [complaints]

lemma replLines_nil (format : Format) (n : Nat) (said : String) (ended : s.console.unread = []) :
    replLines format n s said = ⟨0, s.console.written ++ replPrompt, said⟩ := by
  rw [replLines]
  simp only [Console.write, Console.next, ended]

lemma replLines_cons (format : Format) (n : Nat) (said : String)
    (more : s.console.unread = .text line :: rest) :
    replLines format (n + 1) s said =
      replLines format n (turn Run.ampleFuel line (taken s rest)).after
        (said ++ complaint format replPath line.toList
          (turn Run.ampleFuel line (taken s rest)).outcome) := by
  rw [replLines]
  simp only [Console.write, Console.next, more]
  rfl

/-- An interactive session ends with its input, after all its turns. -/
lemma replLines_eq (format : Format) (texts : Readable s) (enough : s.console.unread.length ≤ n)
    (said : String) :
    replLines format n s said =
      ⟨0, s.console.written ++ transcript Run.ampleFuel s.console.prompt (turns Run.ampleFuel n s) ++
        replPrompt, said ++ complaints format (turns Run.ampleFuel n s)⟩ := by
  induction n generalizing s said with
  | zero =>
    have ended : s.console.unread = [] := List.length_eq_zero_iff.mp (Nat.le_zero.mp enough)
    simp [replLines_nil format 0 said ended, turns, transcript, complaints]
  | succ n ih =>
    rcases texts.next Run.ampleFuel with ended | ⟨line, rest, more, texts⟩
    · simp [replLines_nil format (n + 1) said ended, turns_nil _ ended, transcript, complaints]
    · have less := turn_length_le Run.ampleFuel line (taken s rest)
      rw [more, List.length_cons] at enough
      have source : (turn Run.ampleFuel line (taken s rest)).source = line := rfl
      rw [replLines_cons format n said more, turns_cons n more,
        ih texts (Nat.le_trans less (Nat.le_of_succ_le_succ enough)), turn_after_console,
        transcript_cons, complaints_cons, source]
      simp only [Console.later, taken, String.append_assoc]

/-- A turn goes in the same way where the lines that it consumes are all that is left of the input,
or are followed by others if they do not come to its end. -/
lemma turn_apart (fuel : Nat) (line : String) (s : State) {later : List InputLine}
    (last : (turn fuel line s).after.console.unread = [] → later = []) :
    let t := turn fuel line s
    Session.feed fuel line.toList { s with console := ⟨"", t.consumed ++ later, ""⟩ } =
      (t.outcome, { t.after with console := ⟨Event.shown "" (t.events fuel), later, ""⟩ }) := by
  intro t
  have consumed : t.consumed = _ := turn_consumed fuel line s
  rw [turn_after_unread] at last
  generalize hm : (Event.reads (t.events fuel)).length = m at consumed last
  have lines : ∀ k < m, (t.consumed ++ later)[k]? = s.console.unread[k]? := by
    intro k below
    rw [consumed]
    by_cases ends : s.console.unread.length ≤ m
    · rw [last (List.drop_eq_nil_of_le ends), List.append_nil, List.getElem?_take_of_lt below]
    · rw [List.getElem?_append_left (by rw [List.length_take]; omega),
        List.getElem?_take_of_lt below]
  have left : (t.consumed ++ later).drop m = later := by
    rw [consumed]
    by_cases ends : s.console.unread.length ≤ m
    · rw [last (List.drop_eq_nil_of_le ends), List.append_nil, List.drop_take, Nat.sub_self,
        List.take_zero]
    · exact List.drop_left' (by rw [List.length_take]; omega)
  have events : Session.eventsOf fuel line.toList s = t.events fuel := rfl
  have fed := Session.feed_agrees fuel line.toList s (c := ⟨"", t.consumed ++ later, ""⟩)
    fun k below => by
      rw [events, hm] at below
      simp only [Console.line, lines k below]
  rw [events, Console.later, hm, left, String.empty_append] at fed
  exact fed

/-- Texts that are run one after another as the turns of an interactive session are, apart from it,
with the lines that they consume as their input. -/
lemma feedAll_turns (fuel : Nat) (texts : Readable s) (enough : s.console.unread.length ≤ n) :
    let ts := turns fuel n s
    let apart : State := { s with console := ⟨"", ts.flatMap Turn.consumed, ""⟩ }
    (Session.feedAll fuel (ts.map fun t => t.source.toList) apart).1 =
        ts.map (fun t => (t.outcome, Event.shown "" (t.events fuel))) ∧
      ∀ k t, ts[k]? = some t →
        (Session.feedAll fuel ((ts.take (k + 1)).map fun t => t.source.toList) apart).2 =
          { t.after with console := ⟨"", (ts.drop (k + 1)).flatMap Turn.consumed, ""⟩ } := by
  induction n generalizing s with
  | zero => simp [turns, Session.feedAll]
  | succ n ih =>
    rcases texts.next fuel with ended | ⟨line, rest, more, texts⟩
    · simp [turns_nil _ ended, Session.feedAll]
    · have less := turn_length_le fuel line (taken s rest)
      rw [more, List.length_cons] at enough
      obtain ⟨outcomes, states⟩ := ih texts (Nat.le_trans less (Nat.le_of_succ_le_succ enough))
      rw [turns_cons n more]
      generalize hts : turns fuel n (turn fuel line (taken s rest)).after = ts at outcomes states
      have first : Session.feed fuel line.toList { s with console := ⟨"", (turn fuel line
          (taken s rest)).consumed ++ ts.flatMap Turn.consumed, ""⟩ } = _ :=
        turn_apart fuel line (taken s rest) fun ended => by
          rw [← hts, turns_nil n ended, List.flatMap_nil]
      have source : (turn fuel line (taken s rest)).source = line := rfl
      simp only [List.map_cons, List.flatMap_cons, List.take_succ_cons, List.drop_succ_cons, source,
        Session.feedAll_cons first, Session.collect]
      refine ⟨congrArg _ outcomes, fun k t found => ?_⟩
      cases k with
      | zero =>
        rw [List.getElem?_cons_zero, Option.some.injEq] at found
        rw [← found, List.take_zero, List.map_nil, Session.feedAll, List.drop_zero]
      | succ k =>
        rw [List.getElem?_cons_succ] at found
        exact states k t found

/-- An interactive session on the bytes of a text ends at the end of the text and with success,
whatever is said of its lines. In order and each of them once, the lines of the text are the source
of a turn or are consumed in the turn before the next source line, where they are what is read, and
if more is read, the text is at its end. What is said and printed in each turn, and the state that it
leaves, are as where the source lines are run one after another on a console that shows no prompt and
whose input are just the lines that are consumed; at each point those of the later turns are left
of it. -/
theorem repl_in_turns (format : Format) (content : Option (List UInt8)) (input : List Char)
    (now : Clock) :
    let lines := InputLine.ofText input
    let ts := turns Run.ampleFuel lines.length
      (State.fresh now ⟨"", lines, Console.inputPrompt⟩)
    let apart := State.fresh now ⟨"", ts.flatMap Turn.consumed, ""⟩
    execute content (InputLine.utf8 input) now (.repl format) =
        ⟨0, transcript Run.ampleFuel Console.inputPrompt ts ++ replPrompt, complaints format ts⟩ ∧
      lines = ts.flatMap (fun t => .text t.source :: t.consumed) ∧
      (∀ t ∈ ts, Session.feed Run.ampleFuel t.source.toList t.before = (t.outcome, t.after) ∧
        t.before.console.unread = t.consumed ++ t.after.console.unread ∧
        ∃ beyond, Event.reads (t.events Run.ampleFuel) =
          t.consumed.map InputLine.content ++ List.replicate beyond "" ∧
            (0 < beyond → t.after.console.unread = [])) ∧
      (Session.feedAll Run.ampleFuel (ts.map fun t => t.source.toList) apart).1 =
        ts.map (fun t => (t.outcome, Event.shown "" (t.events Run.ampleFuel))) ∧
      ∀ k t, ts[k]? = some t →
        (Session.feedAll Run.ampleFuel ((ts.take (k + 1)).map fun t => t.source.toList) apart).2 =
          { t.after with console := ⟨"", (ts.drop (k + 1)).flatMap Turn.consumed, ""⟩ } := by
  intro lines ts apart
  have texts : Readable (State.fresh now ⟨"", lines, Console.inputPrompt⟩) := by
    intro l there
    obtain ⟨piece, -, rfl⟩ := List.mem_map.mp there
    exact ⟨_, rfl⟩
  obtain ⟨outcomes, states⟩ := feedAll_turns Run.ampleFuel texts (Nat.le_refl lines.length)
  have said := replLines_eq format texts (Nat.le_refl lines.length) ""
  have start : (State.fresh now ⟨"", lines, Console.inputPrompt⟩).console =
      ⟨"", lines, Console.inputPrompt⟩ := rfl
  rw [start, String.empty_append, String.empty_append] at said
  refine ⟨?_, turns_lines texts (Nat.le_refl _), fun t there => turns_read there, outcomes, states⟩
  rw [execute, InputLine.ofBytes_utf8, interact]
  exact said

/-- The first line reads the second one, and the third one fails. -/
theorem repl_in_turns_echo :
    let input := "print read;\na\r\nprint -nil;\n".toList
    let apart := State.fresh 0 ⟨"", [.text "a\r\n"], ""⟩
    (execute none (InputLine.utf8 input) 0 (.repl .basic)).exit = 0 ∧
      (Session.feedAll Run.ampleFuel ["print read;\n".toList, "print -nil;\n".toList] apart).1.map
        Prod.fst = [.finished, .failed ⟨.notNumber .nil, 1⟩] := by
  intro input apart
  obtain ⟨said, -, -, outcomes, -⟩ := repl_in_turns .basic none input 0
  generalize hts : turns Run.ampleFuel (InputLine.ofText input).length (State.fresh 0
    ⟨"", InputLine.ofText input, Console.inputPrompt⟩) = ts at said outcomes
  have shape : ts.map (fun t => (t.source, t.consumed, t.outcome)) =
      [("print read;\n", [.text "a\r\n"], .finished),
        ("print -nil;\n", [], .failed ⟨.notNumber .nil, 1⟩)] := by
    rw [← hts]
    decide +kernel
  have sources : ts.map (fun t => t.source.toList) =
      ["print read;\n".toList, "print -nil;\n".toList] := by
    simpa [Function.comp_def] using congrArg (List.map fun turn => turn.1.toList) shape
  have consumed : ts.flatMap Turn.consumed = [.text "a\r\n"] := by
    simpa [List.flatMap_map] using congrArg (List.flatMap fun turn => turn.2.1) shape
  have ends : ts.map (fun t => t.outcome) = [.finished, .failed ⟨.notNumber .nil, 1⟩] := by
    simpa [Function.comp_def] using congrArg (List.map fun turn => turn.2.2) shape
  rw [sources, consumed] at outcomes
  refine ⟨by rw [said], ?_⟩
  rw [outcomes, List.map_map, ← ends]
  rfl

end Command

end Lox
