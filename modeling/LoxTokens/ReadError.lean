/-!
# Reading

What can go wrong when a file or an input is read as text.
-/

namespace LoxTokens

/-- Why nothing can be read from a place. -/
inductive ReadError where
  | notFound
  | notDirectory
  | isDirectory
  | notText
  deriving DecidableEq

def ReadError.message : ReadError → String
  | notFound => "No such file or directory (os error 2)"
  | notDirectory => "Not a directory (os error 20)"
  | isDirectory => "Is a directory (os error 21)"
  | notText => "stream did not contain valid UTF-8"

/-- Reads bytes as text. -/
def decodeText (bytes : ByteArray) : Except ReadError String :=
  match String.fromUTF8? bytes with
  | some text => .ok text
  | none => .error .notText

end LoxTokens
