import Mathlib.Algebra.Ring.Nat
import LoxTokens.Segment

/-!
# Movements of a cursor

Whatever a cursor does while it reads a segment, it moves over a piece of the text: that piece
goes from the rest to the lexeme, and the offset grows by its size in bytes.

- `Cursor.Moves` says so for two cursors
- each operation of a cursor has a lemma that names the piece
-/

namespace LoxTokens

namespace Cursor

/-- The cursor `after` is the cursor `c` moved on over `text`. -/
structure Moves (c : Cursor) (text : List Char) (after : Cursor) : Prop where
  start : after.start = c.start
  stop : after.stop = c.stop + (text.map Char.utf8Size).sum
  lexeme : after.lexeme = c.lexeme ++ text
  rest : c.rest = text ++ after.rest

theorem Moves.refl (c : Cursor) : c.Moves [] c where
  start := rfl
  stop := by simp
  lexeme := by simp
  rest := rfl

theorem Moves.trans {c mid after : Cursor} {text more : List Char} (h : c.Moves text mid)
    (h' : mid.Moves more after) : c.Moves (text ++ more) after where
  start := h'.start.trans h.start
  stop := by rw [h'.stop, h.stop, List.map_append, List.sum_append, Nat.add_assoc]
  lexeme := by rw [h'.lexeme, h.lexeme, List.append_assoc]
  rest := by rw [h.rest, h'.rest, List.append_assoc]

theorem Moves.starts {c after : Cursor} {text : List Char} (h : c.Moves text after) :
    text <+: c.rest :=
  ⟨after.rest, h.rest.symm⟩

/-! ## Single characters -/

theorem moves_of_advance? {c moved : Cursor} {next : Char}
    (h : c.advance? = some (next, moved)) : c.Moves [next] moved where
  start := by
    unfold advance? at h
    split at h
    · exact nomatch h
    · cases h
      rfl
  stop := by
    unfold advance? at h
    split at h
    · exact nomatch h
    · cases h
      simp
  lexeme := lexeme_of_advance? h
  rest := advance?_rest h

theorem advance?_of_rest {c : Cursor} {next : Char} {rest : List Char}
    (h : c.rest = next :: rest) :
    ∃ moved, c.advance? = some (next, moved) ∧ c.Moves [next] moved := by
  have hadvance : ∃ moved, c.advance? = some (next, moved) := by
    unfold advance?
    rw [h]
    exact ⟨_, rfl⟩
  rcases hadvance with ⟨moved, hmoved⟩
  exact ⟨moved, hmoved, moves_of_advance? hmoved⟩

theorem advanceIf_of_rest {c : Cursor} {expected : Char} {rest : List Char}
    (h : c.rest = expected :: rest) :
    ∃ moved, c.advanceIf expected = (true, moved) ∧ c.Moves [expected] moved := by
  rcases advance?_of_rest h with ⟨moved, hadvance, hmoves⟩
  refine ⟨moved, ?_, hmoves⟩
  simp [advanceIf, hadvance]

/-- A cursor that does not find what it expects stays where it is. -/
theorem advanceIf_of_head?_ne {c : Cursor} {expected : Char}
    (h : c.rest.head? ≠ some expected) : c.advanceIf expected = (false, c) := by
  unfold advanceIf
  split
  · rfl
  · next next moved hadvance =>
    have hne : next ≠ expected := by
      rintro rfl
      exact h (by simp [advance?_rest hadvance])
    rw [if_neg hne]

/-! ## Runs of characters -/

theorem advanceWhile_go_stop (c : Cursor) (passes : Char → Bool) (stop : Nat)
    (taken text : List Char) :
    (advanceWhile.go c passes stop taken text).stop =
      stop + ((text.takeWhile passes).map Char.utf8Size).sum := by
  induction text generalizing stop taken with
  | nil => rfl
  | cons next rest ih =>
    -- a character that does not pass ends the run
    by_cases h : passes next
    · simp [advanceWhile.go, h, ih, Nat.add_assoc]
    · simp [advanceWhile.go, h]

theorem advanceWhile_go_start (c : Cursor) (passes : Char → Bool) (stop : Nat)
    (taken text : List Char) : (advanceWhile.go c passes stop taken text).start = c.start := by
  induction text generalizing stop taken with
  | nil => rfl
  | cons next rest ih =>
    by_cases h : passes next <;> simp [advanceWhile.go, h, ih]

theorem moves_advanceWhile (c : Cursor) (passes : Char → Bool) :
    c.Moves (c.rest.takeWhile passes) (c.advanceWhile passes) where
  start := advanceWhile_go_start ..
  stop := advanceWhile_go_stop ..
  lexeme := lexeme_advanceWhile c passes
  rest := by simp

end Cursor

end LoxTokens
