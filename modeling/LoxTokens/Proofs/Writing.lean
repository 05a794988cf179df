import LoxTokens.Run

/-!
# Writing within a limit

A writer that runs full holds the first bytes of all that it was given.  So it does not matter into
how many pieces a text is cut before it is written, as long as nothing is written behind a failure.

- `Fits` and `firstBytes` are what a limit lets through
- `Writer.print_append` takes a text apart
- `Writer.printAll_eq` puts many texts together
-/

namespace LoxTokens

/-! ## Limits -/

/-- A limit lets these bytes through in full. -/
def Fits (limit : Option Nat) (bytes : ByteArray) : Prop :=
  ∀ count ∈ limit, bytes.size ≤ count

instance (limit : Option Nat) (bytes : ByteArray) : Decidable (Fits limit bytes) :=
  inferInstanceAs (Decidable (∀ count ∈ limit, bytes.size ≤ count))

/-- As many of these bytes, from the first one on, as a limit lets through. -/
def firstBytes (limit : Option Nat) (bytes : ByteArray) : ByteArray :=
  match limit with
  | none => bytes
  | some count => bytes.extract 0 count

/-- What is left of a limit behind this many bytes. -/
def limitAfter (limit : Option Nat) (size : Nat) : Option Nat :=
  limit.map fun count => count - size

theorem fits_empty (limit : Option Nat) : Fits limit .empty := by
  intro count _
  exact Nat.zero_le count

theorem fits_append_iff {limit : Option Nat} {bytes more : ByteArray} :
    Fits limit (bytes ++ more) ↔ Fits limit bytes ∧ Fits (limitAfter limit bytes.size) more := by
  cases limit with
  | none => simp [Fits, limitAfter]
  | some count =>
    simp only [Fits, limitAfter, Option.mem_def, Option.map_some, Option.some.injEq, forall_eq',
      ByteArray.size_append]
    omega

theorem firstBytes_of_fits {limit : Option Nat} {bytes : ByteArray} (h : Fits limit bytes) :
    firstBytes limit bytes = bytes := by
  cases limit with
  | none => rfl
  | some count =>
    have hsize : bytes.size ≤ count := h count rfl
    have hall : bytes.extract 0 (max count bytes.size) = bytes := ByteArray.extract_zero_max_size
    rwa [Nat.max_eq_left hsize] at hall

/-- The first bytes of two pieces are those of the first piece, and those of the second one as far
as there is room. -/
theorem firstBytes_append (limit : Option Nat) (bytes more : ByteArray) :
    firstBytes limit (bytes ++ more) =
      firstBytes limit bytes ++ firstBytes (limitAfter limit bytes.size) more := by
  cases limit with
  | none => rfl
  | some count =>
    have hsplit : (bytes ++ more).extract 0 count =
        bytes.extract 0 count ++ more.extract (0 - bytes.size) (count - bytes.size) :=
      ByteArray.extract_append
    rwa [Nat.zero_sub] at hsplit

/-- Nothing more comes through behind bytes that are too many already. -/
theorem firstBytes_append_of_not_fits {limit : Option Nat} {bytes : ByteArray}
    (h : ¬ Fits limit bytes) (more : ByteArray) :
    firstBytes limit (bytes ++ more) = firstBytes limit bytes := by
  cases limit with
  | none => exact absurd nofun h
  | some count =>
    have hsize : count < bytes.size := by
      simpa [Fits] using h
    have hnone : more.extract 0 (count - bytes.size) = .empty := by
      rw [Nat.sub_eq_zero_of_le (Nat.le_of_lt hsize)]
      exact ByteArray.extract_same
    rw [firstBytes_append]
    simp only [limitAfter, Option.map_some, firstBytes, hnone]
    exact ByteArray.append_empty

/-- What is left of a limit is the same whether the bytes beyond it are counted or not. -/
theorem limitAfter_firstBytes (limit : Option Nat) (bytes : ByteArray) :
    limitAfter limit (firstBytes limit bytes).size = limitAfter limit bytes.size := by
  cases limit with
  | none => rfl
  | some count =>
    simp only [limitAfter, firstBytes, Option.map_some, ByteArray.size_extract, Option.some.injEq]
    omega

theorem toUTF8_append (text more : String) :
    (text ++ more).toUTF8 = text.toUTF8 ++ more.toUTF8 :=
  String.toByteArray_append

theorem limitAfter_limitAfter (limit : Option Nat) (size more : Nat) :
    limitAfter (limitAfter limit size) more = limitAfter limit (size + more) := by
  cases limit with
  | none => rfl
  | some count => simp [limitAfter, Nat.sub_sub]

/-! ## Writers -/

namespace Writer

/-- The limit on what is still to be written. -/
def remaining (w : Writer) : Option Nat :=
  limitAfter w.capacity w.written.size

/-- The writer with these bytes behind what it holds. -/
def hold (w : Writer) (bytes : ByteArray) : Writer :=
  { w with written := w.written ++ bytes }

theorem remaining_fresh (capacity flushes : Option Nat) :
    (fresh capacity flushes).remaining = capacity := by
  cases capacity <;> rfl

theorem remaining_hold (w : Writer) (bytes : ByteArray) :
    (w.hold bytes).remaining = limitAfter w.remaining bytes.size := by
  unfold remaining
  rw [limitAfter_limitAfter]
  simp only [hold, ByteArray.size_append]

theorem hold_hold (w : Writer) (bytes more : ByteArray) :
    (w.hold bytes).hold more = w.hold (bytes ++ more) := by
  simp [hold, ByteArray.append_assoc]

theorem written_hold_fresh (capacity flushes : Option Nat) (bytes : ByteArray) :
    ((fresh capacity flushes).hold bytes).written = bytes :=
  ByteArray.empty_append

theorem size_le_room_iff (w : Writer) (bytes : ByteArray) :
    bytes.size ≤ w.room bytes.size ↔ Fits w.remaining bytes := by
  unfold room remaining
  cases w.capacity with
  | none => simp [Fits, limitAfter]
  | some capacity =>
    simp only [Fits, limitAfter, Option.mem_def, Option.map_some, Option.some.injEq, forall_eq']
    omega

theorem extract_room (w : Writer) (bytes : ByteArray) :
    bytes.extract 0 (w.room bytes.size) = firstBytes w.remaining bytes := by
  unfold room remaining
  cases w.capacity with
  | none => exact ByteArray.extract_zero_size
  | some capacity =>
    -- the room ends where the bytes end, which cuts nothing off
    have hcut : (bytes.extract 0 bytes.size).extract 0 (capacity - w.written.size) =
        bytes.extract (0 + 0) (min (0 + (capacity - w.written.size)) bytes.size) :=
      ByteArray.extract_extract
    rw [ByteArray.extract_zero_size, Nat.zero_add, Nat.zero_add, Nat.min_comm] at hcut
    exact hcut.symm

/-- A write succeeds just if the bytes fit what remains, and keeps the first bytes in any case. -/
theorem write_eq (w : Writer) (bytes : ByteArray) :
    w.write bytes = (decide (Fits w.remaining bytes), w.hold (firstBytes w.remaining bytes)) := by
  unfold write hold
  simp only [extract_room, size_le_room_iff]

theorem print_eq (w : Writer) (text : String) :
    w.print text =
      (decide (Fits w.remaining text.toUTF8), w.hold (firstBytes w.remaining text.toUTF8)) :=
  write_eq w text.toUTF8

/-- Whoever goes on writing after a failure ends up with the same bytes as whoever writes the two
pieces as one. -/
theorem print_print_snd (w : Writer) (text more : String) :
    ((w.print text).2.print more).2 = (w.print (text ++ more)).2 := by
  simp only [print_eq, remaining_hold, limitAfter_firstBytes, hold_hold, toUTF8_append,
    firstBytes_append]

/-- A text may be written in two pieces, of which the second one is written only if the first one
was written in full. -/
theorem print_append (w : Writer) (text more : String) :
    w.print (text ++ more) =
      if (w.print text).1 then (w.print text).2.print more else w.print text := by
  simp only [print_eq, toUTF8_append, decide_eq_true_eq]
  by_cases hfits : Fits w.remaining text.toUTF8
  · rw [if_pos hfits, firstBytes_of_fits hfits, remaining_hold, hold_hold, firstBytes_append,
      firstBytes_of_fits hfits]
    simp only [fits_append_iff, hfits, true_and]
  · rw [if_neg hfits, firstBytes_append_of_not_fits hfits]
    simp only [fits_append_iff, hfits, false_and]

theorem print_empty (w : Writer) : w.print "" = (true, w) := by
  have hfits : Fits w.remaining "".toUTF8 := fits_empty w.remaining
  have hnone : w.hold "".toUTF8 = w := by
    unfold hold
    rw [show "".toUTF8 = ByteArray.empty from rfl, ByteArray.append_empty]
  rw [print_eq, firstBytes_of_fits hfits, hnone, decide_eq_true hfits]

/-- Texts written one after the other, up to a failure, are one text that is written. -/
theorem printAll_eq (w : Writer) (texts : List String) :
    w.printAll texts = w.print (.join texts) := by
  induction texts generalizing w with
  | nil => rw [printAll, String.join_nil, print_empty]
  | cons text others ih =>
    rw [printAll, String.join_cons, print_append]
    rcases hprint : w.print text with ⟨ok, after⟩
    cases ok with
    | true => simp [ih]
    | false => simp

end Writer

end LoxTokens
