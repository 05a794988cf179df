/-!
# Cursors

A cursor reads a text from left to right, one lexeme after the other.

- `Cursor.peek?` and `Cursor.peekNext?` look one and two characters ahead
- `Cursor.advance?`, `Cursor.advanceIf` and `Cursor.advanceWhile` move over characters
- `Cursor.restart` begins a new lexeme
-/

namespace LoxTokens

/-- A place in a text: the byte offsets at which the current lexeme starts and stops, the
characters of that lexeme, the latest first, and the characters after it. -/
structure Cursor where
  start : Nat
  stop : Nat
  taken : List Char
  rest : List Char

namespace Cursor

/-- The cursor at the beginning of a text. -/
def ofText (text : List Char) : Cursor where
  start := 0
  stop := 0
  taken := []
  rest := text

/-- The characters from the start of the lexeme up to here. -/
def lexeme (c : Cursor) : List Char :=
  c.taken.reverse

/-- Begins a new lexeme where the current one stops. -/
def restart (c : Cursor) : Cursor :=
  { c with start := c.stop, taken := [] }

/-- The next character, if there is one. -/
def peek? (c : Cursor) : Option Char :=
  c.rest.head?

/-- The character after the next one, if there is one. -/
def peekNext? (c : Cursor) : Option Char :=
  c.rest.tail.head?

/-- Takes the next character into the lexeme, if there is one. -/
def advance? (c : Cursor) : Option (Char × Cursor) :=
  match c.rest with
  | [] => none
  | next :: rest =>
    some (next,
      { c with stop := c.stop + next.utf8Size, taken := next :: c.taken, rest := rest })

/-- Takes the next character if it is the expected one, and says whether it was. -/
def advanceIf (c : Cursor) (expected : Char) : Bool × Cursor :=
  match c.advance? with
  | none => (false, c)
  | some (next, moved) => if next = expected then (true, moved) else (false, c)

/-- Takes characters as long as they pass the test. -/
def advanceWhile (c : Cursor) (passes : Char → Bool) : Cursor :=
  go c.stop c.taken c.rest
where
  go (stop : Nat) (taken : List Char) : List Char → Cursor
    | [] => { start := c.start, stop := stop, taken := taken, rest := [] }
    | next :: rest =>
      if passes next then go (stop + next.utf8Size) (next :: taken) rest
      else { start := c.start, stop := stop, taken := taken, rest := next :: rest }

/-! ## What is left to read -/

@[simp] theorem restart_rest (c : Cursor) : c.restart.rest = c.rest :=
  rfl

theorem advance?_rest {c moved : Cursor} {next : Char} (h : c.advance? = some (next, moved)) :
    c.rest = next :: moved.rest := by
  unfold advance? at h
  split at h
  · exact nomatch h
  · cases h
    assumption

theorem length_advanceIf_rest_le (c : Cursor) (expected : Char) :
    (c.advanceIf expected).2.rest.length ≤ c.rest.length := by
  unfold advanceIf
  split
  · exact Nat.le_refl _
  · next moved h =>
    split
    · simp [advance?_rest h]
    · exact Nat.le_refl _

theorem advanceWhile_go_rest (c : Cursor) (passes : Char → Bool) (stop : Nat)
    (taken text : List Char) :
    (advanceWhile.go c passes stop taken text).rest = text.dropWhile passes := by
  induction text generalizing stop taken with
  | nil => rfl
  | cons next rest ih =>
    by_cases h : passes next <;> simp [advanceWhile.go, h, ih]

@[simp] theorem advanceWhile_rest (c : Cursor) (passes : Char → Bool) :
    (c.advanceWhile passes).rest = c.rest.dropWhile passes :=
  advanceWhile_go_rest ..

theorem length_advanceWhile_rest_le (c : Cursor) (passes : Char → Bool) :
    (c.advanceWhile passes).rest.length ≤ c.rest.length := by
  simpa using (List.dropWhile_sublist passes).length_le

/-! ## What the lexeme gains -/

@[simp] theorem lexeme_restart (c : Cursor) : c.restart.lexeme = [] :=
  rfl

theorem lexeme_of_advance? {c moved : Cursor} {next : Char}
    (h : c.advance? = some (next, moved)) : moved.lexeme = c.lexeme ++ [next] := by
  unfold advance? at h
  split at h
  · exact nomatch h
  · cases h
    simp [lexeme]

theorem advanceWhile_go_lexeme (c : Cursor) (passes : Char → Bool) (stop : Nat)
    (taken text : List Char) :
    (advanceWhile.go c passes stop taken text).lexeme =
      taken.reverse ++ text.takeWhile passes := by
  induction text generalizing stop taken with
  | nil => simp [advanceWhile.go, lexeme]
  | cons next rest ih =>
    by_cases h : passes next
    · simp [advanceWhile.go, h, ih]
    · simp [advanceWhile.go, h, lexeme]

/-- The characters that pass the test go over from the rest to the lexeme. -/
@[simp] theorem lexeme_advanceWhile (c : Cursor) (passes : Char → Bool) :
    (c.advanceWhile passes).lexeme = c.lexeme ++ c.rest.takeWhile passes :=
  advanceWhile_go_lexeme ..

end Cursor

end LoxTokens
