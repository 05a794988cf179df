/-!
# Plain text

What remains of a text that no terminal interprets: control characters are left out, and so are
whole control sequences.

- `ControlState` is where in a control sequence a reader stands, if it stands in one
- `ControlState.next` is how one character moves the reader
- `plainText` keeps the plain characters
-/

namespace LoxTokens

/-- Where a reader stands: in plain text, right behind an escape character, behind characters
that follow it, among the parameters of a sequence, in one of the three parts of the head of a
device string, in a string, or in a title, which is a string of its own kind. -/
inductive ControlState where
  | ground
  | escape
  | intermediate
  | parameters
  | deviceEntry
  | deviceParameters
  | deviceIntermediate
  | string
  | title
  deriving DecidableEq

/-- The control characters that only lay out a text. -/
def isLayout (c : Char) : Bool :=
  c == '\t' || c == '\n' || c == '\x0c' || c == '\r'

/-- The characters that stand for themselves. -/
def isPlain (c : Char) : Bool :=
  isLayout c || (' ' ≤ c && c ≤ '~') || '\x80' ≤ c

/-- Whether the encoding of this character has the byte that terminates a string.  The byte counts
wherever it stands, also as a part of a longer character. -/
def hasTerminator (c : Char) : Bool :=
  (String.utf8EncodeChar c).contains 0x9c

namespace ControlState

/-- Cancelling and a new escape act everywhere; what else ends a sequence depends on its kind. -/
def next (state : ControlState) (c : Char) : ControlState :=
  if c = '\x18' ∨ c = '\x1a' then ground
  else if c = '\x1b' then escape
  else
    match state with
    | ground => ground
    | escape =>
      if ' ' ≤ c ∧ c ≤ '/' then intermediate
      else if c = '[' then parameters
      else if c = ']' then title
      else if c = 'P' then deviceEntry
      else if c = 'X' ∨ c = '^' ∨ c = '_' then string
      else if '0' ≤ c ∧ c ≤ '~' then ground
      else escape
    | intermediate => if '0' ≤ c ∧ c ≤ '~' then ground else intermediate
    | parameters => if '@' ≤ c ∧ c ≤ '~' then ground else parameters
    | deviceEntry =>
      if ' ' ≤ c ∧ c ≤ '/' then deviceIntermediate
      else if '0' ≤ c ∧ c ≤ '?' then deviceParameters
      else if '@' ≤ c ∧ c ≤ '~' then string
      else deviceEntry
    | deviceParameters =>
      if ' ' ≤ c ∧ c ≤ '/' then deviceIntermediate
      else if '<' ≤ c ∧ c ≤ '~' then string
      else deviceParameters
    | deviceIntermediate => if '0' ≤ c ∧ c ≤ '~' then string else deviceIntermediate
    | string => if hasTerminator c then ground else string
    | title => if c = '\x07' then ground else title

/-- Whether layout shows through a sequence of this kind: strings swallow it, and so do their
heads. -/
def showsLayout : ControlState → Bool
  | ground | escape | intermediate | parameters => true
  | deviceEntry | deviceParameters | deviceIntermediate | string | title => false

/-- The plain characters of a text read from this state on.  Layout inside a sequence interrupts
it (`interrupted`): what follows is plain, up to the next control character, which goes on with
the sequence. -/
def plain (state : ControlState) (interrupted : Bool) : List Char → List Char
  | [] => []
  | c :: rest =>
    if state = ground ∨ interrupted = true then
      if isPlain c then
        if '\x80' ≤ c then c :: plain ground false rest else c :: plain state interrupted rest
      else plain (state.next c) false rest
    else if isLayout c && state.showsLayout then c :: plain state true rest
    else plain (state.next c) false rest

end ControlState

/-- A text without its control characters and control sequences. -/
def plainText (text : String) : String :=
  .ofList (ControlState.ground.plain false text.toList)

end LoxTokens
