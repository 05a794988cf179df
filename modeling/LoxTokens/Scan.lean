import LoxTokens.LexicalError
import LoxTokens.Report
import LoxTokens.Segment
import LoxTokens.Token

/-!
# Scanning

The tokens of a source text, with every fault of the text reported on the way.  A fault ends
nothing: scanning goes on behind it.

- `Scan.absorb` adds one segment to what is found so far
- `scan` goes through a whole text
-/

namespace LoxTokens

universe u

/-- The value of a token: a number's is that of its numeral, a text's what its quotes enclose. -/
def Literal.ofLexeme (kind : TokenKind) (lexeme : List Char) : Literal :=
  match kind with
  | .number => .number (Decimal.ofNumeral lexeme).toBinary64
  | .text => .text (.ofList lexeme.tail.dropLast)
  | _ => .absent

/-- The token of a segment that starts on this line. -/
def Token.ofLexeme (kind : TokenKind) (lexeme : List Char) (line : Nat) : Token where
  kind := kind
  lexeme := .ofList lexeme
  literal := .ofLexeme kind lexeme
  line := line

/-- How far a scan has come: the line it is on, the tokens found, and the sink it reports to. -/
structure Scan (σ : Type u) where
  line : Nat
  tokens : Array Token
  sink : σ

namespace Scan

variable {σ : Type u}

/-- The scan that begins on the first line. -/
def start (sink : σ) : Scan σ where
  line := 1
  tokens := #[]
  sink := sink

def addToken (state : Scan σ) (token : Token) : Scan σ :=
  { state with tokens := state.tokens.push token }

def addError [Reporter σ] (state : Scan σ) (error : LexicalError) : Scan σ :=
  { state with sink := Reporter.error state.sink error.line error.message }

def addLines (state : Scan σ) (count : Nat) : Scan σ :=
  { state with line := state.line + count }

/-- Adds one segment.  A token stands on the line on which it starts, while a text without its
closing quote is noticed on the last line. -/
def absorb [Reporter σ] (state : Scan σ) (s : Segment) : Scan σ :=
  match s.shape with
  | .blank | .comment => state.addLines s.newlines
  | .token kind => (state.addToken (.ofLexeme kind s.text state.line)).addLines s.newlines
  | .stray character =>
    (state.addError (.unexpectedCharacter state.line character)).addLines s.newlines
  | .openText =>
    (state.addError (.unterminatedString (state.line + s.newlines))).addLines s.newlines

/-- Adds the token that ends every scan. -/
def finish (state : Scan σ) : List Token × σ :=
  ((state.tokens.push (.eof state.line)).toList, state.sink)

end Scan

/-- The tokens of a source text, the last one marking its end, and the sink after every fault
of the text was reported to it, in the order of the text. -/
def scan {σ : Type u} [Reporter σ] (source : String) (sink : σ) : List Token × σ :=
  ((segments source).foldl Scan.absorb (.start sink)).finish

end LoxTokens
