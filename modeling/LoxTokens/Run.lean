import LoxTokens.Console
import LoxTokens.Scan

/-!
# Printing the tokens of a source

- `Token.dumpLine` is the printed form of one token
- `run` scans a source and prints its tokens, one after the other
-/

namespace LoxTokens

/-- One printed token: the token itself, then its literal, then the end of the line. -/
def Token.dumpLine (token : Token) : String :=
  token.display ++ " " ++ token.literal.display ++ "\n"

/-- Writes texts in order, up to the first that cannot be written in full, and says whether
all were. -/
def Writer.printAll (w : Writer) : List String → Bool × Writer
  | [] => (true, w)
  | text :: others =>
    match w.print text with
    | (true, w) => w.printAll others
    | (false, w) => (false, w)

/-- What a run leaves behind: whether all was printed, the console and the output. -/
structure Run where
  ok : Bool
  console : Console
  out : Writer

/-- Scans a source, reporting to the console, and then prints the tokens.  The whole source is
scanned before anything is printed, so output that fails takes no report away. -/
def run (source : String) (console : Console) (out : Writer) : Run :=
  let (tokens, console) := scan source console
  let (ok, out) := out.printAll (tokens.map Token.dumpLine)
  { ok := ok, console := console, out := out }

end LoxTokens
