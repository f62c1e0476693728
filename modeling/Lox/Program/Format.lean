import Lox.Program.Dump
import Lox.Program.Printer
import Lox.Report

/-!
Statements in the formats of reports.
-/

namespace Lox.Statement

/-- A statement in a format; only the dump differs. -/
def inFormat (format : Format) (s : Statement) : String :=
  match format with
  | .basic | .pretty => s.listing
  | .debug => s.dump

end Lox.Statement
