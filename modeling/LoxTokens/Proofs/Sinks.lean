import LoxTokens.Proofs.Findings
import LoxTokens.Proofs.Writing

/-!
# Sinks

A scan tells its sink of every fault, in the order of the source, and asks nothing back.  So the
tokens are the same whatever the sink is, and the sink is left as if the recorded reports had been
sent to it one by one.

- `renderAll` and `dump` are the whole texts that a scan sends to the console and to the output
- `scan_console` and `run_eq` say what becomes of them
- `scan_any_sink` is the result for sinks
-/

namespace LoxTokens

universe u

/-! ## Whole texts -/

/-- The printed form of reports. -/
def renderAll (reports : List Diagnostic) : String :=
  .join (reports.map Diagnostic.render)

theorem renderAll_nil : renderAll [] = "" :=
  rfl

theorem renderAll_append (reports more : List Diagnostic) :
    renderAll (reports ++ more) = renderAll reports ++ renderAll more := by
  simp [renderAll]

theorem renderAll_singleton (d : Diagnostic) : renderAll [d] = d.render := by
  simp [renderAll]

/-- The printed form of the tokens of a source. -/
def dump (source : String) : String :=
  .join ((tokensOf source).map Token.dumpLine)

/-! ## Reports one by one -/

/-- A scan is what it is for the recording sink, with the reports sent on. -/
theorem scan_eq_foldl {σ : Type u} [Reporter σ] (source : String) (sink : σ) :
    scan source sink =
      (tokensOf source,
        (reportsOf source).foldl (fun sink d => Reporter.error sink d.line d.message) sink) := by
  rw [scan_eq, tokensOf_eq, reportsOf_eq, foundAfter_report, List.foldl_map]
  rfl

/-- The console prints reports one after the other, also when its writer is full, and remembers that
there was one. -/
theorem reportAll_console (console : Console) (errors : List LexicalError) :
    reportAll console errors =
      { writer := (console.writer.print (renderAll (errors.map LexicalError.diagnostic))).2
        hadError := console.hadError || !errors.isEmpty } := by
  induction errors generalizing console with
  | nil => simp [reportAll, renderAll, Writer.print_empty]
  | cons error others ih =>
    have hfirst : reportAll console (error :: others) =
        reportAll (console.report error.diagnostic) others := rfl
    have hprint : (console.report error.diagnostic).writer =
        (console.writer.print error.diagnostic.render).2 := rfl
    have hflag : (console.report error.diagnostic).hadError = true := rfl
    have hrender : renderAll ((error :: others).map LexicalError.diagnostic) =
        error.diagnostic.render ++ renderAll (others.map LexicalError.diagnostic) :=
      String.join_cons
    rw [hfirst, ih, hprint, hflag, hrender, Writer.print_print_snd]
    simp

/-- What a scan leaves of a console. -/
theorem scan_console (source : String) (console : Console) :
    scan source console =
      (tokensOf source,
        { writer := (console.writer.print (renderAll (reportsOf source))).2
          hadError := console.hadError || !(reportsOf source).isEmpty }) := by
  rw [scan_eq, reportAll_console, tokensOf_eq, reportsOf_eq, foundAfter_report, List.isEmpty_map]

/-- What a run leaves: the reports are printed to the console in full before the tokens are printed,
as one text, to the output. -/
theorem run_eq (source : String) (console : Console) (out : Writer) :
    run source console out =
      { ok := (out.print (dump source)).1
        console := (scan source console).2
        out := (out.print (dump source)).2 } := by
  unfold run
  rw [scan_console]
  simp only [Writer.printAll_eq]
  rfl

/-! ## Any sink -/

/-- A scan does not depend on its sink.  Whatever a sink does with reports and whatever state it
begins in, the tokens are those of the recording sink, and the sink is sent one error for each
recorded report, in order, and nothing else.  A console keeps of the printed reports what its writer
has room for; it remembers an error just if there was one before or there is a report, and neither
this nor the tokens depend on the writer. -/
theorem scan_any_sink (source : String) :
    (∀ {σ : Type u} [Reporter σ] (sink : σ),
      scan source sink =
        (tokensOf source,
          (reportsOf source).foldl (fun sink d => Reporter.error sink d.line d.message) sink)) ∧
      ∀ console : Console,
        (scan source console).2.writer.written =
            console.writer.written ++
              firstBytes console.writer.remaining (renderAll (reportsOf source)).toUTF8 ∧
          ((scan source console).2.hadError = true ↔
            console.hadError = true ∨ reportsOf source ≠ []) ∧
          ∀ other : Writer,
            (scan source { console with writer := other }).1 = (scan source console).1 ∧
              (scan source { console with writer := other }).2.hadError =
                (scan source console).2.hadError := by
  refine ⟨fun sink => scan_eq_foldl source sink, fun console => ⟨?_, ?_, fun other => ?_⟩⟩
  · rw [scan_console, Writer.print_eq]
    rfl
  · rw [scan_console]
    simp
  · rw [scan_console, scan_console]
    exact ⟨rfl, rfl⟩

end LoxTokens
