import LoxTokens.Cursor
import LoxTokens.TokenKind

/-!
# Segments

A source text is cut, from left to right, into segments: blanks, comments, tokens and faults.
The first character of a segment tells how it is read on, and each is read as far as it goes.

- `Lead` is what a first character announces
- `Cursor.next?` reads one segment
- `segments` cuts a whole text
-/

namespace LoxTokens

/-- What a segment is.  A fault is a character that begins nothing, or a text that lacks its
closing quote. -/
inductive Shape where
  | blank
  | comment
  | token (kind : TokenKind)
  | stray (character : Char)
  | openText
  deriving DecidableEq

/-- A piece of a source text and what it is. -/
structure Segment where
  shape : Shape
  text : List Char
  deriving DecidableEq

/-- How many lines end inside the segment. -/
def Segment.newlines (s : Segment) : Nat :=
  s.text.count '\n'

/-! ## First characters -/

/-- The characters that only separate: space, tab, carriage return and newline. -/
def isBlank (c : Char) : Bool :=
  c == ' ' || c == '\t' || c == '\r' || c == '\n'

/-- A word begins with a letter of the English alphabet or an underscore. -/
def isWordStart (c : Char) : Bool :=
  c.isAlpha || c == '_'

/-- After its first character a word may also have decimal digits. -/
def isWordPart (c : Char) : Bool :=
  c.isAlphanum || c == '_'

/-- What the first character of a segment announces. -/
inductive Lead where
  | blank
  | punctuation (kind : TokenKind)
  | comparison (alone joined : TokenKind)
  | slash
  | quote
  | digit
  | letter
  | stray (character : Char)
  deriving DecidableEq

/-- What this character announces as the first of a segment. -/
def Lead.ofChar (c : Char) : Lead :=
  if isBlank c then .blank
  else if c = '/' then .slash
  else if c = '"' then .quote
  else if c.isDigit then .digit
  else if isWordStart c then .letter
  else
    match TokenKind.ofPunctuation? c, TokenKind.ofComparison? c with
    | some kind, _ => .punctuation kind
    | none, some (alone, joined) => .comparison alone joined
    | none, none => .stray c

/-! ## Reading a segment -/

namespace Cursor

/-- Reads a number on after its first digit.  A point belongs to it only if a digit follows. -/
def finishNumber (c : Cursor) : Cursor :=
  let c := c.advanceWhile Char.isDigit
  if c.peek? == some '.' && c.peekNext?.any Char.isDigit then
    (c.advanceIf '.').2.advanceWhile Char.isDigit
  else c

/-- Reads a segment on after its first character, as far as it goes. -/
def finishSegment (c : Cursor) : Lead → Shape × Cursor
  | .blank => (.blank, c)
  | .punctuation kind => (.token kind, c)
  | .comparison alone joined =>
    match c.advanceIf '=' with
    | (true, c) => (.token joined, c)
    | (false, c) => (.token alone, c)
  | .slash =>
    match c.advanceIf '/' with
    | (true, c) => (.comment, c.advanceWhile (· != '\n'))
    | (false, c) => (.token .slash, c)
  | .quote =>
    match (c.advanceWhile (· != '"')).advanceIf '"' with
    | (true, c) => (.token .text, c)
    | (false, c) => (.openText, c)
  | .digit => (.token .number, c.finishNumber)
  | .letter =>
    let c := c.advanceWhile isWordPart
    (.token (.ofWord (.ofList c.lexeme)), c)
  | .stray character => (.stray character, c)

/-- Reads the next segment, if the text has not come to its end. -/
def next? (c : Cursor) : Option (Segment × Cursor) :=
  match c.restart.advance? with
  | none => none
  | some (first, c) =>
    let (shape, c) := c.finishSegment (.ofChar first)
    some ({ shape := shape, text := c.lexeme }, c)

theorem length_finishNumber_rest_le (c : Cursor) :
    c.finishNumber.rest.length ≤ c.rest.length := by
  have whole := c.length_advanceWhile_rest_le Char.isDigit
  unfold finishNumber
  dsimp only
  split
  · exact Nat.le_trans (length_advanceWhile_rest_le ..)
      (Nat.le_trans (length_advanceIf_rest_le ..) whole)
  · exact whole

theorem length_finishSegment_rest_le (c : Cursor) (lead : Lead) :
    (c.finishSegment lead).2.rest.length ≤ c.rest.length := by
  cases lead with
  | blank => exact Nat.le_refl _
  | punctuation => exact Nat.le_refl _
  | stray => exact Nat.le_refl _
  | comparison alone joined =>
    have moved := c.length_advanceIf_rest_le '='
    simp only [finishSegment]
    split <;> simp_all
  | slash =>
    have moved := c.length_advanceIf_rest_le '/'
    simp only [finishSegment]
    split
    · next after h =>
      rw [h] at moved
      exact Nat.le_trans (length_advanceWhile_rest_le ..) moved
    · next after h =>
      rw [h] at moved
      exact moved
  | quote =>
    have moved := Nat.le_trans ((c.advanceWhile (· != '"')).length_advanceIf_rest_le '"')
      (length_advanceWhile_rest_le ..)
    simp only [finishSegment]
    split <;> simp_all
  | digit => exact length_finishNumber_rest_le c
  | letter => exact length_advanceWhile_rest_le ..

/-- Each segment takes at least one character. -/
theorem length_next?_rest_lt {c after : Cursor} {s : Segment} (h : c.next? = some (s, after)) :
    after.rest.length < c.rest.length := by
  unfold next? at h
  split at h
  · exact nomatch h
  · next first moved hfirst =>
    cases h
    have split := advance?_rest hfirst
    have shorter := moved.length_finishSegment_rest_le (.ofChar first)
    rw [restart_rest] at split
    rw [split, List.length_cons]
    exact Nat.lt_succ_of_le shorter

/-- The segments from here to the end, after those already done. -/
def segmentsOnto (done : Array Segment) (c : Cursor) : Array Segment :=
  match _h : c.next? with
  | none => done
  | some (s, after) => segmentsOnto (done.push s) after
termination_by c.rest.length
decreasing_by exact length_next?_rest_lt _h

end Cursor

/-- Cuts a source text into its segments. -/
def segments (source : String) : List Segment :=
  ((Cursor.ofText source.toList).segmentsOnto #[]).toList

end LoxTokens
