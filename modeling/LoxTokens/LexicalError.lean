/-!
# Lexical errors

What can be wrong with a source text, and the message for it.
-/

namespace LoxTokens

/-- A fault in a source text, with the line on which it is noticed. -/
inductive LexicalError where
  | unexpectedCharacter (line : Nat) (character : Char)
  | unterminatedString (line : Nat)
  deriving DecidableEq

namespace LexicalError

def line : LexicalError → Nat
  | unexpectedCharacter line _ => line
  | unterminatedString line => line

def message : LexicalError → String
  | unexpectedCharacter _ character =>
    "Unexpected character '" ++ String.singleton character ++ "'."
  | unterminatedString _ => "Unterminated string."

end LexicalError

end LoxTokens
