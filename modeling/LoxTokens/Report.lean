/-!
# Reports

A scanner hands what it finds wrong to a sink that it knows nothing about.

- `Diagnostic` is one report, and `Diagnostic.render` its printed line
- `Reporter` is the interface of a sink
- an array of diagnostics is the sink that records
-/

namespace LoxTokens

universe u

/-- One report: the line it is about, a remark on the place, and the message. -/
structure Diagnostic where
  line : Nat
  place : String
  message : String
  deriving DecidableEq

/-- The printed form of a report, which ends its line. -/
def Diagnostic.render (d : Diagnostic) : String :=
  "[line " ++ d.line.repr ++ "] Error" ++ d.place ++ ": " ++ d.message ++ "\n"

/-- A sink for reports, by the way its state changes.  An error is a report without a remark on
the place, unless the sink treats errors in a way of its own. -/
class Reporter (σ : Type u) where
  report : σ → Diagnostic → σ
  error : σ → Nat → String → σ :=
    fun sink line message => report sink { line := line, place := "", message := message }

/-- The recording sink keeps the reports in the order of their arrival. -/
instance : Reporter (Array Diagnostic) where
  report := Array.push

end LoxTokens
