import LoxTokens.InputLines
import LoxTokens.ReadError
import LoxTokens.Run

/-!
# The two modes

- `tokenizeFile` prints the tokens of a whole file
- `repl` prompts for lines and prints the tokens of each
- `Writer.prompt` and `takeTurn` are the two halves of a round at the prompt
-/

namespace LoxTokens

/-- How a program ends. -/
inductive Status where
  | success
  | usageError
  | dataError
  | ioError
  deriving DecidableEq

/-- The number an ending is known by. -/
def Status.code : Status → UInt8
  | success => 0
  | usageError => 2
  | dataError => 65
  | ioError => 74

/-- What a mode leaves behind: how it ended, the console and the output, and what it could not
read if that is what ended it. -/
structure Ending where
  status : Status
  console : Console
  out : Writer
  unread : Option ReadError

/-- Prints the tokens of a file, given what came of reading it.  A file that cannot be read as
text leaves both writers alone. -/
def tokenizeFile (content : Except ReadError ByteArray) (console : Console) (out : Writer) :
    Ending :=
  match content.bind decodeText with
  | .error e => { status := .ioError, console := console, out := out, unread := some e }
  | .ok source =>
    let result := run source console out
    let status :=
      if !result.ok then .ioError
      else if result.console.hadError then .dataError
      else .success
    { status := status, console := result.console, out := result.out, unread := none }

/-- Shows the prompt and sees to it that it arrives, and says whether both succeeded. -/
def Writer.prompt (w : Writer) : Bool × Writer :=
  match w.print "> " with
  | (true, w) => w.flush
  | (false, w) => (false, w)

/-- What comes of a line at the prompt: the session goes on with a console and an output, or it
ends. -/
inductive Turn where
  | goesOn (console : Console) (out : Writer)
  | ends (ending : Ending)

/-- Answers a line with its tokens.  What the line reported is forgotten once they are printed. -/
def takeTurn (console : Console) (out : Writer) (line : ByteArray) : Turn :=
  match decodeText line with
  | .error e => .ends { status := .ioError, console := console, out := out, unread := some e }
  | .ok source =>
    let result := run source console out
    if result.ok then .goesOn result.console.reset result.out
    else
      .ends { status := .ioError, console := result.console, out := result.out, unread := none }

/-- Goes through lines of input: a prompt before each and before the end, and a turn for each. -/
def replLines (console : Console) (out : Writer) (lines : List ByteArray) : Ending :=
  match out.prompt, lines with
  | (false, out), _ => { status := .ioError, console := console, out := out, unread := none }
  | (true, out), [] => { status := .success, console := console, out := out, unread := none }
  | (true, out), line :: others =>
    match takeTurn console out line with
    | .ends ending => ending
    | .goesOn console out => replLines console out others

/-- Reads an input line by line and prints the tokens of each line. -/
def repl (input : ByteArray) (console : Console) (out : Writer) : Ending :=
  replLines console out (inputLines input)

end LoxTokens
