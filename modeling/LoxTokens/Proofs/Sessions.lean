import Mathlib.Data.List.Induction
import LoxTokens.Proofs.Sinks
import LoxTokens.Session

/-!
# Sessions

What a console and a recording list hold after any steps.  Each step sends its reports to one of the
two, so either is settled by the reports sent to it; only the flag of the console can be taken back.

- `Session.Step.toConsole` and `Session.Step.toRecord` are the reports that a step sends
- `Session.Accounts` says what a session holds after some steps, `Session.Accounts.perform` adds one
- `performAll_state` is the result for whole sessions
-/

namespace LoxTokens

namespace Session

/-! ## What a step sends -/

namespace Step

/-- The reports that a step sends to the console. -/
def toConsole : Step → List Diagnostic
  | .scan source => reportsOf source
  | .run source _ => reportsOf source
  | .error line message => [{ line := line, place := "", message := message }]
  | .report d => [d]
  | .record _ | .recordError .. | .recordReport _ | .reset => []

/-- The reports that a step sends to the recording list. -/
def toRecord : Step → List Diagnostic
  | .record source => reportsOf source
  | .recordError line message => [{ line := line, place := "", message := message }]
  | .recordReport d => [d]
  | .scan _ | .run .. | .error .. | .report _ | .reset => []

/-- Whether a step is one on the recording list. -/
def onList : Step → Bool
  | .record _ | .recordError .. | .recordReport _ => true
  | .scan _ | .run .. | .error .. | .report _ | .reset => false

/-- Whether a step is a reset of the console. -/
def isReset : Step → Bool
  | .reset => true
  | _ => false

end Step

/-! ## One step -/

/-- A step leaves the side alone that it is not on. -/
theorem perform_frame (session : Session) (step : Step) :
    if step.onList then (session.perform step).2.console = session.console
    else (session.perform step).2.recorded = session.recorded := by
  cases step <;> rfl

/-- A run leaves a session as a scan does, whatever becomes of its output. -/
theorem perform_run (session : Session) (source : String) (out : Writer) :
    (session.perform (.run source out)).2 = (session.perform (.scan source)).2 := by
  have hconsole : (run source session.console out).console = (scan source session.console).2 := by
    simp only [run_eq]
  simp only [perform, hconsole]

/-- A scan adds its reports to a recording list. -/
theorem toList_scan (source : String) (recorded : Array Diagnostic) :
    (scan source recorded).2.toList = recorded.toList ++ reportsOf source := by
  rw [scan_eq, toList_reportAll, reportsOf_eq, foundAfter_report]

/-- The console prints what a step sends to it. -/
theorem perform_writer (session : Session) (step : Step) :
    (session.perform step).2.console.writer =
      (session.console.writer.print (renderAll step.toConsole)).2 := by
  have hscan : ∀ source, (scan source session.console).2.writer =
      (session.console.writer.print (renderAll (reportsOf source))).2 := by
    intro source
    rw [scan_console]
  have hnone : session.console.writer = (session.console.writer.print (renderAll [])).2 := by
    rw [renderAll_nil, Writer.print_empty]
  cases step with
  | scan source => exact hscan source
  | run source out =>
    rw [perform_run]
    exact hscan source
  | error line message =>
    simp only [Step.toConsole, renderAll_singleton]
    rfl
  | report d =>
    simp only [Step.toConsole, renderAll_singleton]
    rfl
  | _ => exact hnone

/-- The flag is set by a report and cleared by a reset. -/
theorem perform_hadError (session : Session) (step : Step) :
    (session.perform step).2.console.hadError = true ↔
      step.toConsole ≠ [] ∨ session.console.hadError = true ∧ step.isReset = false := by
  have hscan : ∀ source, (scan source session.console).2.hadError = true ↔
      reportsOf source ≠ [] ∨
        session.console.hadError = true ∧ (Step.scan source).isReset = false := by
    intro source
    rw [scan_console]
    simp [Step.isReset, or_comm]
  cases step with
  | scan source => exact hscan source
  | run source out =>
    rw [perform_run]
    exact hscan source
  | reset => simp [perform, Console.reset, Step.toConsole, Step.isReset]
  | error line message =>
    have hflag : (session.perform (.error line message)).2.console.hadError = true := rfl
    simp [hflag, Step.toConsole]
  | report d =>
    have hflag : (session.perform (.report d)).2.console.hadError = true := rfl
    simp [hflag, Step.toConsole]
  | record source => simp [perform, Step.toConsole, Step.isReset]
  | recordError line message => simp [perform, Step.toConsole, Step.isReset]
  | recordReport d => simp [perform, Step.toConsole, Step.isReset]

/-- The recording list takes what a step sends to it. -/
theorem perform_recorded (session : Session) (step : Step) :
    (session.perform step).2.recorded.toList = session.recorded.toList ++ step.toRecord := by
  cases step with
  | record source => exact toList_scan source session.recorded
  | recordError line message => exact Array.toList_push
  | recordReport d => exact Array.toList_push
  | _ => exact (List.append_nil _).symm

/-! ## All steps -/

/-- A report reached the console, and no reset followed it. -/
def Flagged (steps : List Step) : Prop :=
  ∃ before step later, steps = before ++ step :: later ∧ step.toConsole ≠ [] ∧
    ∀ other ∈ later, other.isReset = false

theorem not_flagged_nil : ¬ Flagged [] := by
  rintro ⟨before, step, later, hsteps, -⟩
  simp at hsteps

theorem flagged_concat_iff {steps : List Step} {last : Step} :
    Flagged (steps ++ [last]) ↔
      last.toConsole ≠ [] ∨ Flagged steps ∧ last.isReset = false := by
  constructor
  · rintro ⟨before, step, later, hsteps, hsent, hlater⟩
    -- the report is that of the last step, or the last step is among those behind it
    cases later using List.reverseRecOn with
    | nil =>
      rcases List.append_inj' hsteps rfl with ⟨-, hlast⟩
      cases hlast
      exact Or.inl hsent
    | append_singleton others final =>
      have hsplit : steps ++ [last] = (before ++ step :: others) ++ [final] := by
        simpa using hsteps
      rcases List.append_inj' hsplit rfl with ⟨hfirst, hlast⟩
      cases hlast
      have hothers : ∀ other ∈ others, other.isReset = false := by
        intro other hother
        exact hlater other (List.mem_append_left _ hother)
      have hlastKept : last.isReset = false := hlater last (by simp)
      exact Or.inr ⟨⟨before, step, others, hfirst, hsent, hothers⟩, hlastKept⟩
  · rintro (hsent | ⟨⟨before, step, later, rfl, hsent, hlater⟩, hkept⟩)
    · exact ⟨steps, last, [], rfl, hsent, nofun⟩
    · refine ⟨before, step, later ++ [last], by simp, hsent, ?_⟩
      intro other hother
      rcases List.mem_append.mp hother with hother | hother
      · exact hlater other hother
      · rw [List.mem_singleton.mp hother]
        exact hkept

/-- What a session holds that began with this writer and took these steps. -/
structure Accounts (writer : Writer) (steps : List Step) (session : Session) : Prop where
  printed : session.console.writer = (writer.print (renderAll (steps.flatMap Step.toConsole))).2
  recorded : session.recorded.toList = steps.flatMap Step.toRecord
  hadError : session.console.hadError = true ↔ Flagged steps

theorem accounts_onto (writer : Writer) : Accounts writer [] (.onto writer) where
  printed := by
    rw [List.flatMap_nil, renderAll_nil, Writer.print_empty]
    rfl
  recorded := rfl
  hadError := by
    exact iff_of_false nofun not_flagged_nil

theorem Accounts.perform {writer : Writer} {steps : List Step} {session : Session}
    (h : Accounts writer steps session) (step : Step) :
    Accounts writer (steps ++ [step]) (session.perform step).2 where
  printed := by
    calc
      (session.perform step).2.console.writer
          = (session.console.writer.print (renderAll step.toConsole)).2 :=
            perform_writer session step
      _ = ((writer.print (renderAll (steps.flatMap Step.toConsole))).2.print
            (renderAll step.toConsole)).2 := by rw [h.printed]
      _ = (writer.print (renderAll ((steps ++ [step]).flatMap Step.toConsole))).2 := by
            rw [Writer.print_print_snd, ← renderAll_append]
            simp
  recorded := by
    calc
      (session.perform step).2.recorded.toList
          = session.recorded.toList ++ step.toRecord := perform_recorded session step
      _ = (steps ++ [step]).flatMap Step.toRecord := by simp [h.recorded]
  hadError := by
    rw [perform_hadError, flagged_concat_iff, h.hadError]

/-- The steps are taken one after the other, so the induction is on their number. -/
theorem accounts_performAll (writer : Writer) (steps : List Step) :
    Accounts writer steps ((onto writer).performAll steps) := by
  induction steps using List.reverseRecOn with
  | nil => exact accounts_onto writer
  | append_singleton steps last ih =>
    have hlast : (onto writer).performAll (steps ++ [last]) =
        (((onto writer).performAll steps).perform last).2 := by
      simp [performAll]
    rw [hlast]
    exact ih.perform last

end Session

/-- What a session holds after any steps.  The console has the first bytes of all reports ever sent
to it, whatever was reset and whatever became of the output of runs; it remembers an error just if
a report was sent to it behind the last reset; the list has all reports sent to it, in order.  A
step on one of the two leaves the other as it is, and a run leaves both as a scan does. -/
theorem performAll_state (capacity flushes : Option Nat) (steps : List Session.Step) :
    ∃ session, (Session.onto (.fresh capacity flushes)).performAll steps = session ∧
      session.console.writer.written =
        firstBytes capacity (renderAll (steps.flatMap Session.Step.toConsole)).toUTF8 ∧
      session.recorded.toList = steps.flatMap Session.Step.toRecord ∧
      (session.console.hadError = true ↔
        ∃ before step later, steps = before ++ step :: later ∧ step.toConsole ≠ [] ∧
          ∀ other ∈ later, other.isReset = false) ∧
      (∀ step : Session.Step,
        if step.onList then (session.perform step).2.console = session.console
        else (session.perform step).2.recorded = session.recorded) ∧
      ∀ source out, (session.perform (.run source out)).2 = (session.perform (.scan source)).2 := by
  have haccounts := Session.accounts_performAll (.fresh capacity flushes) steps
  refine ⟨_, rfl, ?_, haccounts.recorded, haccounts.hadError, ?_, ?_⟩
  · rw [haccounts.printed, Writer.print_eq, Writer.remaining_fresh, Writer.written_hold_fresh]
  · intro step
    exact Session.perform_frame _ step
  · intro source out
    exact Session.perform_run _ source out

end LoxTokens
