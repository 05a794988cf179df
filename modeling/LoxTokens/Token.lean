import LoxTokens.Literal
import LoxTokens.TokenKind

/-!
# Tokens

A token and its text form.
-/

namespace LoxTokens

/-- A token: its kind, the piece of the source it was read from, the value of that piece, and
the line on which the piece starts, counted from one. -/
structure Token where
  kind : TokenKind
  lexeme : String
  literal : Literal
  line : Nat
  deriving DecidableEq

namespace Token

/-- The token that ends every scan. -/
def eof (line : Nat) : Token where
  kind := .eof
  lexeme := ""
  literal := .absent
  line := line

/-- Two tokens agree if all four fields do, where literals are compared by value. -/
def sameValue (a b : Token) : Bool :=
  a.kind == b.kind && a.lexeme == b.lexeme && a.literal == b.literal && a.line == b.line

instance : BEq Token := ⟨sameValue⟩

/-- The kind, the lexeme and the line, with single spaces between them. -/
def display (token : Token) : String :=
  token.kind.name ++ " " ++ token.lexeme ++ " " ++ token.line.repr

end Token

end LoxTokens
