import LoxTokens.Report
import LoxTokens.Writer

/-!
# The console

The sink that prints every report and remembers that there was one.
-/

namespace LoxTokens

/-- A printing sink: where it prints, and whether anything was reported since the last reset. -/
structure Console where
  writer : Writer
  hadError : Bool

namespace Console

/-- A console that has reported nothing. -/
def onto (writer : Writer) : Console where
  writer := writer
  hadError := false

/-- Prints a report.  That the writer may be full is of no concern here. -/
def report (console : Console) (d : Diagnostic) : Console where
  writer := (console.writer.print d.render).2
  hadError := true

instance : Reporter Console where
  report := report

/-- Forgets that anything was reported; what is printed stays. -/
def reset (console : Console) : Console :=
  { console with hadError := false }

end Console

end LoxTokens
