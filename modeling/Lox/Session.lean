import Lox.Evaluation.Run
import Lox.Program.Source

/-!
A session: texts that are run one after another on one state, whatever becomes of each of them.
-/

namespace Lox

/-- What becomes of one text. -/
inductive Session.Outcome
  /-- The text is no program, and nothing was run. -/
  | rejected (diagnostics : List Diagnostic)
  | finished
  | failed (e : RuntimeError)
  /-- The fuel gave out, or the program is none that a text can have. -/
  | abandoned (stop : Stop)
deriving DecidableEq, Inhabited

namespace Session

/-- Runs one text. -/
def feed (fuel : Nat) (text : List Char) (s : State) : Outcome × State :=
  match Source.program text with
  | .error diagnostics => (.rejected diagnostics, s)
  | .ok statements =>
    match Run.program fuel statements s with
    | .ok _ t => (.finished, t)
    | .error (.error e) t => (.failed e, t)
    | .error stop t => (.abandoned stop, t)

/-- Takes away what was written, so that what is written next stands alone. -/
def collect (s : State) : String × State :=
  (s.console.written, { s with console := { s.console with written := "" } })

/-- Runs texts in order. Each outcome comes with what was written meanwhile. -/
def feedAll (fuel : Nat) : List (List Char) → State → List (Outcome × String) × State
  | [], s => ([], s)
  | text :: rest, s =>
    let (outcome, t) := feed fuel text s
    let (written, u) := collect t
    let (others, v) := feedAll fuel rest u
    ((outcome, written) :: others, v)

end Session

end Lox
