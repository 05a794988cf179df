import LoxTokens.Run

/-!
# Sessions

One console and one recording list, used step by step.

- `Session.Step` lists the steps
- `Session.perform` takes one step
-/

namespace LoxTokens

/-- A console and a list of recorded reports that live side by side. -/
structure Session where
  console : Console
  recorded : Array Diagnostic

namespace Session

/-- A step of a session: each scans a source, reports directly, or resets the console. -/
inductive Step where
  | scan (source : String)
  | record (source : String)
  | run (source : String) (out : Writer)
  | error (line : Nat) (message : String)
  | report (d : Diagnostic)
  | recordError (line : Nat) (message : String)
  | recordReport (d : Diagnostic)
  | reset

/-- What a step hands back besides the session: the tokens of a scan, or how printing went. -/
inductive Answer where
  | done
  | tokens (tokens : List Token)
  | printed (ok : Bool) (out : Writer)

/-- A session with nothing reported, whose console prints to this writer. -/
def onto (writer : Writer) : Session where
  console := .onto writer
  recorded := #[]

/-- Takes one step. -/
def perform (session : Session) : Step → Answer × Session
  | .scan source =>
    let (tokens, console) := LoxTokens.scan source session.console
    (.tokens tokens, { session with console := console })
  | .record source =>
    let (tokens, recorded) := LoxTokens.scan source session.recorded
    (.tokens tokens, { session with recorded := recorded })
  | .run source out =>
    let result := LoxTokens.run source session.console out
    (.printed result.ok result.out, { session with console := result.console })
  | .error line message =>
    (.done, { session with console := Reporter.error session.console line message })
  | .report d => (.done, { session with console := Reporter.report session.console d })
  | .recordError line message =>
    (.done, { session with recorded := Reporter.error session.recorded line message })
  | .recordReport d =>
    (.done, { session with recorded := Reporter.report session.recorded d })
  | .reset => (.done, { session with console := session.console.reset })

/-- The session after these steps. -/
def performAll (session : Session) (steps : List Step) : Session :=
  steps.foldl (fun session step => (session.perform step).2) session

end Session

end LoxTokens
