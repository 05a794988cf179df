import LoxTokens.CommandLine.Request
import LoxTokens.Directory
import LoxTokens.Modes

/-!
# The program as a whole

What the program answers to its arguments, its standard input and the directory it is run in.

- `perform` carries a request out
- `execute` takes the arguments first
-/

namespace LoxTokens

/-- What a run of the program leaves behind. -/
structure Outcome where
  status : Status
  stdout : ByteArray
  stderr : ByteArray

/-- The notice that something cannot be read. -/
def unreadNotice (name : String) (error : ReadError) : String :=
  "could not read " ++ name ++ ": " ++ error.message ++ "\n"

/-- The outcome of a mode that reads from a place of this name. -/
def Ending.outcome (ending : Ending) (name : String) : Outcome where
  status := ending.status
  stdout := ending.out.written
  stderr :=
    match ending.unread with
    | none => ending.console.writer.written
    | some error => ending.console.writer.written ++ (unreadNotice name error).toUTF8

/-- An outcome that only prints a text. -/
def Outcome.text (text : String) : Outcome where
  status := .success
  stdout := text.toUTF8
  stderr := .empty

/-- Carries a request out.  `read` reads the file of a path. -/
def perform (read : String → Except ReadError ByteArray) (stdin : ByteArray) :
    Request → Outcome
  | .help => .text helpText
  | .version => .text versionText
  | .tokenize script =>
    (tokenizeFile (read script) (.onto .unbounded) .unbounded).outcome script
  | .repl => (repl stdin (.onto .unbounded) .unbounded).outcome "stdin"

/-- The line in which a usage error is answered. -/
def UsageError.headline (error : UsageError) : String :=
  .ofList (error.message.toList.takeWhile (· != '\n'))

/-- Runs the program. -/
def execute (arguments : List String) (stdin : ByteArray) (directory : Directory) : Outcome :=
  match Request.ofArguments arguments with
  | .error error =>
    { status := .usageError, stdout := .empty, stderr := error.headline.toUTF8 }
  | .ok request => perform directory.read stdin request

end LoxTokens
