import Lox.Proofs.Evaluation.Failing
import Lox.Proofs.Interaction.Played
import Lox.Session

/-!
The ledger of a session. What programs print, read and draw is one sequence of events, from which the
output, the rest of the input and the place in the cycle of random numbers follow.
-/

namespace Lox

variable {α : Type}

namespace Event

/-- The texts that are printed. -/
def prints (es : List Event) : List String :=
  es.filterMap fun
    | print text => some text
    | _ => none

/-- The lines that are read. -/
def reads (es : List Event) : List String :=
  es.filterMap fun
    | read line => some line
    | _ => none

/-- The random numbers that are drawn. -/
def rands (es : List Event) : List Float :=
  es.filterMap fun
    | rand number => some number
    | _ => none

/-- What is written where a prompt is shown before each reading. -/
def shown (prompt : String) (es : List Event) : String :=
  String.join (es.map fun
    | print text => text ++ "\n"
    | read _ => prompt
    | rand _ => "")

section

variable (es es' : List Event) (prompt : String)

lemma reads_append : reads (es ++ es') = reads es ++ reads es' :=
  List.filterMap_append

lemma rands_append : rands (es ++ es') = rands es ++ rands es' :=
  List.filterMap_append

lemma shown_append : shown prompt (es ++ es') = shown prompt es ++ shown prompt es' := by
  simp [shown]

/-- Without a prompt nothing is written but what is printed. -/
lemma shown_empty : shown "" es = String.join ((prints es).map (· ++ "\n")) := by
  induction es with
  | nil => rfl
  | cons e es ih =>
    rw [← List.singleton_append, shown_append, ih]
    cases e <;> simp [shown, prints]

end

end Event

/-- The place of the cycle so many places further on. -/
def Rand.ahead (cursor : Fin 12) (k : Nat) : Fin 12 :=
  ⟨(cursor.val + k) % 12, Nat.mod_lt _ (by decide)⟩

/-- What the reading after so many others yields. -/
def Console.line (c : Console) (i : Nat) : String :=
  (c.unread[i]?.map InputLine.content).getD ""

/-- Events lead from a console and a cursor to others: everything that is written and nothing else
is among the events, lines are read from the front and numbers are drawn in the order of the cycle,
each of them once. -/
structure Event.Ledger (es : List Event) (c d : Console) (i j : Fin 12) : Prop where
  written : d.written = c.written ++ shown c.prompt es
  unread : d.unread = c.unread.drop (reads es).length
  prompt : d.prompt = c.prompt
  lines : reads es = (List.range (reads es).length).map c.line
  numbers : rands es = (List.range (rands es).length).map fun k => Rand.number (Rand.ahead i k)
  cursor : j = Rand.ahead i (rands es).length

section

variable {c d e : Console} {i j k : Fin 12} {es es' : List Event}

@[simp] lemma Rand.ahead_zero (i : Fin 12) : Rand.ahead i 0 = i :=
  Fin.ext (Nat.mod_eq_of_lt i.isLt)

lemma Rand.ahead_one (i : Fin 12) : Rand.ahead i 1 = Rand.next i :=
  Fin.ext (by simp [Rand.ahead, Rand.next, Fin.val_add])

lemma Rand.ahead_ahead (i : Fin 12) (m n : Nat) :
    Rand.ahead (Rand.ahead i m) n = Rand.ahead i (m + n) :=
  Fin.ext (by simp [Rand.ahead, Nat.add_assoc])

/-- What is read after `n` lines have been taken. -/
lemma Console.line_drop {n : Nat} (h : d.unread = c.unread.drop n) (m : Nat) :
    d.line m = c.line (n + m) := by
  simp [Console.line, h]

lemma Console.readLine_line (c : Console) : (Console.context.readLine c).1.getD "" = c.line 0 := by
  obtain ⟨written, unread, prompt⟩ := c
  cases unread <;> rfl

lemma Console.readLine_console (c : Console) :
    (Console.context.readLine c).2 = ⟨c.written ++ c.prompt, c.unread.drop 1, c.prompt⟩ := by
  obtain ⟨written, unread, prompt⟩ := c
  cases unread <;> rfl

namespace Event.Ledger

lemma nil (c : Console) (i : Fin 12) : Ledger [] c c i i :=
  ⟨by simp [shown], rfl, rfl, rfl, rfl, (Rand.ahead_zero i).symm⟩

/-- One ledger after another one. -/
lemma append (h : Ledger es c d i j) (h' : Ledger es' d e j k) : Ledger (es ++ es') c e i k := by
  constructor
  · rw [h'.written, h.written, h.prompt, shown_append, String.append_assoc]
  · rw [h'.unread, h.unread, reads_append, List.length_append, List.drop_drop]
  · rw [h'.prompt, h.prompt]
  · rw [reads_append, List.length_append, List.range_add, List.map_append, ← h.lines, List.map_map]
    refine congrArg (reads es ++ ·) (h'.lines.trans (List.map_congr_left fun m _ => ?_))
    exact Console.line_drop h.unread m
  · rw [rands_append, List.length_append, List.range_add, List.map_append, ← h.numbers,
      List.map_map]
    refine congrArg (rands es ++ ·) (h'.numbers.trans (List.map_congr_left fun m _ => ?_))
    rw [h.cursor, Rand.ahead_ahead, Function.comp_apply]
  · rw [h'.cursor, h.cursor, Rand.ahead_ahead, rands_append, List.length_append]

lemma print (c : Console) (i : Fin 12) (text : String) :
    Ledger [.print text] c (Console.context.writeLine c text) i i := by
  refine ⟨?_, rfl, rfl, rfl, rfl, (Rand.ahead_zero i).symm⟩
  simp [shown, Console.context, Console.writeLine, String.append_assoc]

lemma read (c : Console) (i : Fin 12) :
    Ledger [.read ((Console.context.readLine c).1.getD "")] c (Console.context.readLine c).2 i i := by
  rw [Console.readLine_line, Console.readLine_console]
  exact ⟨by simp [shown], rfl, rfl, rfl, rfl, (Rand.ahead_zero i).symm⟩

lemma rand (c : Console) (i : Fin 12) : Ledger [.rand (Rand.number i)] c c i (Rand.next i) := by
  refine ⟨by simp [shown], rfl, rfl, rfl, ?_, (Rand.ahead_one i).symm⟩
  simp [rands]

end Event.Ledger

/-- What a play does on a console is a ledger. -/
theorem Play.perform_ledger (p : Play α) (c : Console) (i : Fin 12) :
    Event.Ledger (p.perform Console.context c i).events c (p.perform Console.context c i).context i
      (p.perform Console.context c i).cursor := by
  induction p generalizing c i with
  | ends result => exact .nil c i
  | print text rest ih => exact (Event.Ledger.print c i text).append (ih _ i)
  | read rest ih => exact (Event.Ledger.read c i).append (ih _ _ i)
  | rand rest ih => exact (Event.Ledger.rand c i).append (ih _ c _)

end

namespace Play.Performed

variable {p : Performed Console α} {s t : State} {a : α} {e : Stop}

lemma outcome_congr {q : Performed Console α} (result : p.result = q.result)
    (context : p.context = q.context) (cursor : p.cursor = q.cursor) : p.outcome = q.outcome := by
  rw [outcome, outcome, result, context, cursor]

end Play.Performed

namespace Run

/-- The run of a program on the console of a state. -/
def performed (fuel : Nat) (ss : List Statement) (s : State) : Play.Performed Console Unit :=
  (Plan.program fuel ss s.bare).perform Console.context s.console s.rand

/-- What the run of a program does, in order. -/
def events (fuel : Nat) (ss : List Statement) (s : State) : List Event :=
  (performed fuel ss s).events

variable {s t : State}

lemma program_eq_outcome (fuel : Nat) (ss : List Statement) (s : State) :
    Run.program fuel ss s = (performed fuel ss s).outcome :=
  Plan.program_describes fuel ss s.bare s.console s.rand

lemma program_after (fuel : Nat) (ss : List Statement) (s : State) :
    ((Run.program fuel ss).after s).console = (performed fuel ss s).context ∧
      ((Run.program fuel ss).after s).rand = (performed fuel ss s).cursor := by
  simp only [Exec.after, program_eq_outcome, Play.Performed.outcome]
  cases (performed fuel ss s).result <;> exact ⟨rfl, rfl⟩

lemma program_ledger (fuel : Nat) (ss : List Statement) (s : State) :
    Event.Ledger (events fuel ss s) s.console ((Run.program fuel ss).after s).console s.rand
      ((Run.program fuel ss).after s).rand := by
  obtain ⟨console, cursor⟩ := program_after fuel ss s
  rw [console, cursor]
  exact (Plan.program fuel ss s.bare).perform_ledger s.console s.rand

end Run

/-- A console without a prompt, whose input are texts. -/
def Console.buffered (written : String) (lines : List String) : Console :=
  ⟨written, lines.map .text, ""⟩

namespace Session

/-- The state after texts have been run one after another on one interpreter. -/
def after (fuel : Nat) (texts : List (List Char)) (s : State) : State :=
  texts.foldl (fun s text => (feed fuel text s).2) s

/-- What one text does when it is run, in order. -/
def eventsOf (fuel : Nat) (text : List Char) (s : State) : List Event :=
  match Source.program text with
  | .error _ => []
  | .ok ss => Run.events fuel ss s

variable {fuel : Nat} {s t : State}

lemma feed_ledger (fuel : Nat) (text : List Char) (s : State) :
    Event.Ledger (eventsOf fuel text s) s.console (feed fuel text s).2.console s.rand
      (feed fuel text s).2.rand := by
  cases read : Source.program text with
  | error diagnostics =>
    simp only [eventsOf, feed, read]
    exact .nil s.console s.rand
  | ok ss =>
    simp only [eventsOf, feed_of_program read, read]
    exact Run.program_ledger fuel ss s

end Session

end Lox
