import LoxTokens.Proofs.Extension
import LoxTokens.Proofs.Lines

/-!
# Scanning a text in two parts

Where a segment begins, a scan knows nothing of what it has read but the line.  So a text may be
split there, and its parts scanned apart.

- `BeginsAt` says that a segment begins, or the end is found, between two texts
- `beginsAt_iff` says that this is where the segments fall apart
- `MovesDown` is said of what notices only newlines in front of it
- `scan_append` is the result for tokens and reports
-/

namespace LoxTokens

universe u

open Grammar

/-! ## Where segments begin -/

namespace Cursor

/-- The cursors from which the segments are read, in a scan that begins at `c`; the last one is the
one that finds the end. -/
inductive Heads (c : Cursor) : Cursor → Prop where
  | start : Heads c c
  | next {head after : Cursor} {s : Segment} :
      Heads c head → head.next? = some (s, after) → Heads c after

theorem Heads.cutTo {c head : Cursor} (h : c.Heads head) : ∃ cut, CutTo c.rest cut head.rest := by
  induction h with
  | start => exact ⟨[], .here⟩
  | @next head after s _ hnext ih =>
    rcases ih with ⟨cut, hcut⟩
    exact ⟨cut ++ [s], hcut.append (.next (next?_spec hnext).1 .here)⟩

theorem Heads.of_next? {c after head : Cursor} {s : Segment} (hnext : c.next? = some (s, after))
    (h : after.Heads head) : c.Heads head := by
  induction h with
  | start => exact .next .start hnext
  | next _ hlast ih => exact .next ih hlast

theorem exists_heads_of_cutTo {c : Cursor} {cut : List Segment} {rest : List Char}
    (h : CutTo c.rest cut rest) : ∃ head, c.Heads head ∧ head.rest = rest := by
  -- The induction is on the cut, and the cursor moves along with it.
  generalize hinput : c.rest = input at h
  induction h generalizing c with
  | here => exact ⟨c, .start, hinput⟩
  | @next input mid rest s others hbegins _ ih =>
    cases hnext : c.next? with
    | none =>
      rw [(next?_eq_none_iff c).mp hnext] at hinput
      exact absurd hinput.symm hbegins.input_ne_nil
    | some found =>
      rcases found with ⟨s', after⟩
      -- the cursor reads the segment that the cut has
      have hspec := (next?_spec hnext).1
      rw [hinput] at hspec
      rcases hbegins.unique hspec with ⟨-, hmid⟩
      rcases ih hmid.symm with ⟨head, hheads, hrest⟩
      exact ⟨head, hheads.of_next? hnext, hrest⟩

end Cursor

/-- In a scan of `a ++ b` a segment begins, or the end is found, exactly at the end of `a`. -/
def BeginsAt (a b : String) : Prop :=
  ∃ head, (Cursor.ofText (a ++ b).toList).Heads head ∧ head.rest = b.toList

theorem beginsAt_iff_cutTo {a b : String} :
    BeginsAt a b ↔ CutTo (a ++ b).toList (segments a) b.toList := by
  constructor
  · rintro ⟨head, hheads, hrest⟩
    rcases hheads.cutTo with ⟨cut, hcut⟩
    have hall : (Cursor.ofText (a ++ b).toList).rest = a.toList ++ b.toList :=
      String.toList_append
    rw [hrest, hall] at hcut
    -- what is cut up to `b` is a cut of `a`, and there is one only
    have hsegments : cut = segments a := cut_iff.mp hcut.cut_of_append
    rw [hsegments] at hcut
    rwa [String.toList_append]
  · intro h
    exact Cursor.exists_heads_of_cutTo h

/-- A segment begins wherever a cut may be divided. -/
theorem beginsAt_of_cutTo {input rest : List Char} {cut : List Segment}
    (h : CutTo input cut rest) :
    BeginsAt (.ofList (cut.flatMap Segment.text)) (.ofList rest) := by
  have hinput :
      (String.ofList (cut.flatMap Segment.text) ++ String.ofList rest).toList = input := by
    rw [String.toList_append, String.toList_ofList, String.toList_ofList, h.text_append]
  unfold BeginsAt
  rw [hinput, String.toList_ofList]
  exact Cursor.exists_heads_of_cutTo h

/-- A segment begins between two texts just if the segments of the whole are those of the parts. -/
theorem beginsAt_iff {a b : String} :
    BeginsAt a b ↔ segments (a ++ b) = segments a ++ segments b := by
  rw [beginsAt_iff_cutTo]
  constructor
  · intro h
    exact (cut_iff.mp (h.cut (cut_segments b))).symm
  · intro h
    have hcut := cut_segments (a ++ b)
    rw [h] at hcut
    rcases hcut.split with ⟨rest, hfirst, hrest⟩
    -- the second half of the segments is made of `b`, so the first half ends where `b` begins
    have hb : rest = b.toList := by
      rw [← hrest.flatMap_text, flatMap_text_segments]
    rwa [hb] at hfirst

/-! ## Contributions farther down -/

/-- A token a number of lines farther down. -/
def Token.shift (count : Nat) (t : Token) : Token :=
  { t with line := t.line + count }

/-- A report a number of lines farther down. -/
def Diagnostic.shift (count : Nat) (d : Diagnostic) : Diagnostic :=
  { d with line := d.line + count }

theorem lineAfter_prepend (front before : List Char) :
    lineAfter (front ++ before) = lineAfter before + front.count '\n' := by
  unfold lineAfter
  rw [List.count_append]
  omega

/-- Contributions that notice of the text in front of them only the newlines: behind more text they
are the same as many lines farther down. -/
structure MovesDown {β : Type u} (found? : Segment → List Char → Option β)
    (down : Nat → β → β) : Prop where
  zero : down 0 = id
  comp : ∀ count more, down more ∘ down count = down (count + more)
  prepend : ∀ s front before,
    found? s (front ++ before) = (found? s before).map (down (front.count '\n'))

theorem movesDown_token : MovesDown Segment.token? Token.shift where
  zero := rfl
  comp count more := by
    funext t
    simp [Token.shift, Nat.add_assoc]
  prepend s front before := by
    unfold Segment.token?
    rw [lineAfter_prepend]
    cases s.shape <;> rfl

theorem movesDown_report : MovesDown Segment.report? Diagnostic.shift where
  zero := rfl
  comp count more := by
    funext d
    simp [Diagnostic.shift, Nat.add_assoc]
  prepend s front before := by
    unfold Segment.report? Segment.error?
    rw [List.append_assoc, lineAfter_prepend, lineAfter_prepend]
    cases s.shape <;> rfl

namespace MovesDown

variable {β : Type u} {found? : Segment → List Char → Option β} {down : Nat → β → β}

theorem foundAfter_prepend (h : MovesDown found? down) (front before : List Char)
    (cut : List Segment) :
    foundAfter found? (front ++ before) cut =
      (foundAfter found? before cut).map (down (front.count '\n')) := by
  induction cut generalizing before with
  | nil => rfl
  | cons s others ih =>
    rw [foundAfter_cons, foundAfter_cons, List.append_assoc, ih, h.prepend]
    cases found? s before <;> simp

/-- Of the text in front of segments only the newlines are noticed. -/
theorem foundAfter_eq_map (h : MovesDown found? down) (before : List Char) (cut : List Segment) :
    foundAfter found? before cut = (foundAfter found? [] cut).map (down (before.count '\n')) := by
  have hfront := h.foundAfter_prepend before [] cut
  rwa [List.append_nil] at hfront

/-- Segments behind more text find the same as many lines farther down as that text has newlines. -/
theorem foundAfter_append_text (h : MovesDown found? down) (before text : List Char)
    (cut : List Segment) :
    foundAfter found? (before ++ text) cut =
      (foundAfter found? before cut).map (down (text.count '\n')) := by
  rw [h.foundAfter_eq_map (before ++ text), h.foundAfter_eq_map before, List.map_map, h.comp,
    List.count_append]

/-- A segment without a newline leaves the others on their lines. -/
theorem foundAfter_cons_of_notMem (h : MovesDown found? down) {s : Segment}
    (hfree : '\n' ∉ s.text) (before : List Char) (others : List Segment) :
    foundAfter found? before (s :: others) =
      (found? s before).toList ++ foundAfter found? before others := by
  rw [foundAfter_cons, h.foundAfter_append_text, List.count_eq_zero_of_not_mem hfree, h.zero,
    List.map_id]

end MovesDown

/-! ## Texts without their closing quotes -/

/-- A scan of this source finds a text that lacks its closing quote. -/
def ReportsUnterminated (source : String) : Prop :=
  ∃ d ∈ reportsOf source, d.message = "Unterminated string."

instance : DecidablePred ReportsUnterminated :=
  fun source => inferInstanceAs
    (Decidable (∃ d ∈ reportsOf source, d.message = "Unterminated string."))

/-- The two messages differ in their third character. -/
theorem unexpected_ne_unterminated (character : Char) :
    "Unexpected character '" ++ String.singleton character ++ "'." ≠ "Unterminated string." := by
  intro heq
  have hlist := congrArg String.toList heq
  simp [String.toList_append] at hlist

theorem complaint?_eq_unterminated_iff {s : Segment} :
    s.complaint? = some "Unterminated string." ↔ s.shape = .openText := by
  unfold Segment.complaint?
  cases hshape : s.shape with
  | stray character =>
    simp only [Option.some.injEq, unexpected_ne_unterminated character, reduceCtorEq]
  | _ => simp

theorem reportsUnterminated_iff {source : String} :
    ReportsUnterminated source ↔ ∃ s ∈ segments source, s.shape = .openText := by
  unfold ReportsUnterminated
  rw [← List.mem_map, map_message_reportsOf, List.mem_filterMap]
  simp only [complaint?_eq_unterminated_iff]

theorem closed_segments {source : String} (h : ¬ ReportsUnterminated source) :
    Closed (segments source) := by
  intro s hs hshape
  exact h (reportsUnterminated_iff.mpr ⟨s, hs, hshape⟩)

/-! ## Scanning in two parts -/

/-- A segment begins behind a newline, if no text is open there. -/
theorem beginsAt_of_newline {a : String} (hlast : a.toList.getLast? = some '\n')
    (hclosed : ¬ ReportsUnterminated a) (b : String) : BeginsAt a b := by
  rw [beginsAt_iff_cutTo, String.toList_append]
  refine (cut_segments a).cutTo_of_newline (closed_segments hclosed) ?_ b.toList
  intro c hc
  rw [hlast] at hc
  cases hc
  rfl

/-- What is found in two parts is found in the first one, and then in the second one as many lines
farther down as the first one has newlines. -/
theorem MovesDown.foundAfter_segments {β : Type u} {found? : Segment → List Char → Option β}
    {down : Nat → β → β} (hdown : MovesDown found? down) {a b : String} (h : BeginsAt a b) :
    foundAfter found? [] (segments (a ++ b)) =
      foundAfter found? [] (segments a) ++
        (foundAfter found? [] (segments b)).map (down (a.toList.count '\n')) := by
  calc
    foundAfter found? [] (segments (a ++ b))
        = foundAfter found? [] (segments a) ++ foundAfter found? a.toList (segments b) := by
          rw [beginsAt_iff.mp h, foundAfter_append, List.nil_append, flatMap_text_segments]
    _ = foundAfter found? [] (segments a) ++
            (foundAfter found? [] (segments b)).map (down (a.toList.count '\n')) := by
          rw [hdown.foundAfter_eq_map a.toList]

theorem tokensOf_append {a b : String} (h : BeginsAt a b) :
    tokensOf (a ++ b) =
      (tokensOf a).dropLast ++ (tokensOf b).map (Token.shift (a.toList.count '\n')) := by
  -- the end token is that of the second part
  rw [dropLast_tokensOf, tokensOf_eq, tokensOf_eq, movesDown_token.foundAfter_segments h,
    String.toList_append, lineAfter_prepend, List.map_append, List.append_assoc]
  rfl

theorem reportsOf_append {a b : String} (h : BeginsAt a b) :
    reportsOf (a ++ b) =
      reportsOf a ++ (reportsOf b).map (Diagnostic.shift (a.toList.count '\n')) := by
  rw [reportsOf_eq, reportsOf_eq, reportsOf_eq, movesDown_report.foundAfter_segments h]

/-- Scanning is compositional.  If a segment begins, or the end is found, between two texts, then a
scan of both finds what a scan of the first one finds, its end token apart, and then what a scan of
the second one finds, as many lines farther down as the first one has newlines.  This is so
whenever the first text ends with a newline and leaves no text open. -/
theorem scan_append (a b : String) :
    (BeginsAt a b →
      tokensOf (a ++ b) =
          (tokensOf a).dropLast ++ (tokensOf b).map (Token.shift (a.toList.count '\n')) ∧
        reportsOf (a ++ b) =
          reportsOf a ++ (reportsOf b).map (Diagnostic.shift (a.toList.count '\n'))) ∧
      (a.toList.getLast? = some '\n' → ¬ ReportsUnterminated a → BeginsAt a b) :=
  ⟨fun h => ⟨tokensOf_append h, reportsOf_append h⟩,
    fun hlast hclosed => beginsAt_of_newline hlast hclosed b⟩

/-- The first text has a text over two lines, a comment with a quote and a stray character. -/
theorem scan_append_lines :
    BeginsAt "var a = \"x\ny\"; # // \"\n" "1.\n2 @" ∧
      tokensOf ("var a = \"x\ny\"; # // \"\n" ++ "1.\n2 @") =
        (tokensOf "var a = \"x\ny\"; # // \"\n").dropLast ++
          (tokensOf "1.\n2 @").map (Token.shift 2) ∧
      reportsOf ("var a = \"x\ny\"; # // \"\n" ++ "1.\n2 @") =
        reportsOf "var a = \"x\ny\"; # // \"\n" ++
          (reportsOf "1.\n2 @").map (Diagnostic.shift 2) := by
  have happend := scan_append "var a = \"x\ny\"; # // \"\n" "1.\n2 @"
  have hbegins := happend.2 (by decide +kernel) (by decide +kernel)
  exact ⟨hbegins, happend.1 hbegins⟩

end LoxTokens
