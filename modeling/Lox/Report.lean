import Lox.Evaluation.State
import Lox.Program.Source
import Lox.Value.Printer

/-!
Mistakes and runtime errors as they are reported: in one of three formats, of which the last points
into the text.
-/

namespace Lox

/-- The formats in which results and errors are written. -/
inductive Format
  | basic | pretty | debug
deriving DecidableEq, Inhabited

namespace Format

def name : Format → String
  | .basic => "basic"
  | .pretty => "pretty"
  | .debug => "debug"

/-- The format of a name. -/
def ofName? (name : String) : Option Format :=
  [Format.basic, .pretty, .debug].find? (·.name == name)

end Format

/-- A report that points into a text: what is wrong, where, and what to say about that place. -/
structure Report where
  head : String
  place : String
  label : String
deriving DecidableEq, Inhabited

namespace Report

/-- The first line of a report. -/
def heading (code message : String) : String :=
  "[" ++ code ++ "] Error: " ++ message

/-- The place of an offset, with the name of the text. -/
def placeText (path : String) (lines : Lines) (offset : Nat) : String :=
  let (line, column) := lines.placeOf offset
  path ++ ":" ++ Nat.repr line ++ ":" ++ Nat.repr column

/-- Points at the span of a mistake. -/
def ofDiagnostic (path : String) (lines : Lines) (d : Diagnostic) : Report :=
  ⟨heading d.code d.message, placeText path lines d.span.start, d.label⟩

/-- Points at the whole line of a runtime error, which is all it knows of its place. -/
def ofRuntimeError (path : String) (lines : Lines) (e : RuntimeError) : Report :=
  ⟨heading e.fault.code e.fault.message, placeText path lines (lines.spanOf e.line).start,
    e.fault.label⟩

/-- The report as text. -/
def text (r : Report) : String :=
  r.head ++ "\n  at " ++ r.place ++ "\n  " ++ r.label

end Report

namespace Diagnostic

/-- A mistake in a format. -/
def inFormat (format : Format) (path : String) (lines : Lines) (d : Diagnostic) : String :=
  match format with
  | .basic => d.plain
  | .debug => d.dump
  | .pretty => (Report.ofDiagnostic path lines d).text

end Diagnostic

namespace RuntimeError

/-- A runtime error in a format. -/
def inFormat (format : Format) (path : String) (lines : Lines) (e : RuntimeError) : String :=
  match format with
  | .basic => e.plain
  | .debug => e.dump
  | .pretty => (Report.ofRuntimeError path lines e).text

end RuntimeError

namespace Token

/-- A token in a format. -/
def inFormat (format : Format) (lines : Lines) (t : Token) : String :=
  match format with
  | .basic => t.plain
  | .debug => t.dump
  | .pretty => t.numbered lines

end Token

end Lox
