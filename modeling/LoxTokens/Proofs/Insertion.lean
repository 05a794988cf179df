import LoxTokens.Proofs.Composition
import LoxTokens.Proofs.Lookahead

/-!
# Blanks between segments

Where a segment begins, blanks may be put in front of it.  Nothing else is found then, and only what
stands behind the blanks stands on other lines.

- `Grammar.SameFindings` compares cuts by what is found in them
- `Grammar.CutTo.insert_blank` puts in one blank, which a comment in front of it may take in
- `placedTokens` and `placedReports` tell where the tokens and the faults begin
- `scan_insert_blanks` is the result
-/

namespace LoxTokens

universe u

open Grammar

namespace Grammar

/-! ## Cuts in which the same is found -/

/-- Segments that find the same as others, wherever they stand. -/
def SameFindings (cut cut' : List Segment) : Prop :=
  ∀ before,
    foundAfter Segment.token? before cut = foundAfter Segment.token? before cut' ∧
      foundAfter Segment.report? before cut = foundAfter Segment.report? before cut'

theorem SameFindings.refl (cut : List Segment) : SameFindings cut cut :=
  fun _ => ⟨rfl, rfl⟩

theorem SameFindings.trans {cut cut' cut'' : List Segment} (h : SameFindings cut cut')
    (h' : SameFindings cut' cut'') : SameFindings cut cut'' :=
  fun before => ⟨(h before).1.trans (h' before).1, (h before).2.trans (h' before).2⟩

theorem SameFindings.append_left {cut cut' : List Segment} (h : SameFindings cut cut')
    (front : List Segment) : SameFindings (front ++ cut) (front ++ cut') := by
  intro before
  rcases h (before ++ front.flatMap Segment.text) with ⟨htokens, hreports⟩
  simp only [foundAfter_append, htokens, hreports, and_self]

/-! ## Putting blanks in -/

/-- A blank in front of a segment is a segment by itself, or a comment in front of it takes it in.
Either way nothing else is found. -/
theorem CutTo.insert_blank {input more : List Char} {cut : List Segment}
    (h : CutTo (input ++ more) cut more) (hclosed : Closed cut) {c : Char}
    (hblank : c ∈ [' ', '\r', '\t', '\n']) :
    ∃ cut', CutTo (input ++ c :: more) cut' more ∧ Closed cut' ∧ SameFindings cut' cut := by
  have hinput : Cut input cut := h.cut_of_append
  have hsep := separates_of_mem_blanks hblank
  by_cases hcomment : EndsWithComment cut ∧ c ≠ '\n'
  · rcases hcomment with ⟨⟨front, text, rfl⟩, hne⟩
    rcases List.forall_mem_append.mp hclosed with ⟨hclosedFront, -⟩
    rcases hinput.split with ⟨comment, hfront, hcut⟩
    have htext : text = comment := by simpa using hcut.flatMap_text
    subst htext
    -- the comment goes no further than it went before
    have hlonger :
        Begins (text ++ [c] ++ more) { shape := .comment, text := text ++ [c] } more := by
      rcases h.split with ⟨mid, -, hend⟩
      have hbegins := hend.begins
      rw [← hbegins.text_append] at hbegins
      exact hbegins.comment_concat hne
    have hne' : text ≠ [] := hcut.text_ne_nil _ List.mem_cons_self
    have hbefore := hfront.append_separator hclosedFront hsep (fun _ hnil => absurd hnil hne') more
    rw [List.append_cons text] at hbefore
    refine ⟨_, hbefore.append (.next hlonger .here), ?_, ?_⟩
    · exact List.forall_mem_append.mpr ⟨hclosedFront, closed_singleton nofun⟩
    · have hsame : SameFindings [{ shape := .comment, text := text ++ [c] }]
          [{ shape := .comment, text := text }] := fun before => ⟨rfl, rfl⟩
      exact hsame.append_left front
  · have hbefore : CutTo (input ++ c :: more) cut (c :: more) := by
      refine hinput.cutTo.append_separator hclosed hsep (fun hends _ => ?_) more
      by_contra hne
      exact hcomment ⟨hends, hne⟩
    refine ⟨_, hbefore.append (.next (begins_blank hblank more) .here), ?_, ?_⟩
    · exact List.forall_mem_append.mpr ⟨hclosed, closed_singleton nofun⟩
    · have hnone : SameFindings [{ shape := .blank, text := [c] }] [] := fun before => ⟨rfl, rfl⟩
      simpa using hnone.append_left cut

/-- The induction is on the blanks, each of which stands in front of a segment when it is put in. -/
theorem CutTo.insert_blanks {input more : List Char} {cut : List Segment}
    (h : CutTo (input ++ more) cut more) (hclosed : Closed cut) {blanks : List Char}
    (hblanks : ∀ c ∈ blanks, c ∈ [' ', '\r', '\t', '\n']) :
    ∃ cut', CutTo (input ++ blanks ++ more) cut' more ∧ Closed cut' ∧ SameFindings cut' cut := by
  induction blanks generalizing input cut with
  | nil =>
    rw [List.append_nil]
    exact ⟨cut, h, hclosed, .refl cut⟩
  | cons c blanks ih =>
    rcases h.insert_blank hclosed (hblanks c List.mem_cons_self) with
      ⟨middle, hmiddle, hclosedMiddle, hsameMiddle⟩
    rw [List.append_cons] at hmiddle
    rcases ih hmiddle hclosedMiddle fun c' hc' => hblanks c' (List.mem_cons_of_mem c hc') with
      ⟨cut', hcut, hclosed', hsame⟩
    rw [← List.append_cons] at hcut
    exact ⟨cut', hcut, hclosed', hsame.trans hsameMiddle⟩

end Grammar

/-! ## Where findings begin -/

section Places

variable {β : Type u} (found? : Segment → List Char → Option β)

/-- What segments contribute, each contribution beside the text in front of its segment. -/
def contributions (before : List Char) (cut : List Segment) : List (List Char × β) :=
  foundAfter (fun s front => (found? s front).map (Prod.mk front)) before cut

theorem map_snd_contributions (before : List Char) (cut : List Segment) :
    (contributions found? before cut).map Prod.snd = foundAfter found? before cut := by
  unfold contributions foundAfter
  rw [List.map_filterMap]
  apply List.filterMap_congr
  intro place _
  cases hfound : found? place.2 place.1 <;> simp [hfound]

theorem contributions_append (before : List Char) (cut more : List Segment) :
    contributions found? before (cut ++ more) =
      contributions found? before cut ++
        contributions found? (before ++ cut.flatMap Segment.text) more :=
  foundAfter_append _ before cut more

/-- Segments begin behind the text in front of all of them, and not behind the last of them. -/
theorem length_of_mem_placed {before : List Char} {cut : List Segment}
    (hne : ∀ s ∈ cut, s.text ≠ []) {place : List Char × Segment} (h : place ∈ placed before cut) :
    before.length ≤ place.1.length ∧
      place.1.length < (before ++ cut.flatMap Segment.text).length := by
  induction cut generalizing before with
  | nil => exact nomatch h
  | cons s others ih =>
    have hpos := List.length_pos_of_ne_nil (hne s List.mem_cons_self)
    rw [List.flatMap_cons, ← List.append_assoc]
    rcases List.mem_cons.mp h with rfl | h
    · simp only [List.length_append]
      omega
    · have hlater := ih (fun s' hs' => hne s' (List.mem_cons_of_mem s hs')) h
      simp only [List.length_append] at hlater ⊢
      omega

theorem length_of_mem_contributions {before : List Char} {cut : List Segment}
    (hne : ∀ s ∈ cut, s.text ≠ []) {found : List Char × β}
    (h : found ∈ contributions found? before cut) :
    before.length ≤ found.1.length ∧
      found.1.length < (before ++ cut.flatMap Segment.text).length := by
  rcases List.mem_filterMap.mp h with ⟨place, hplace, hfound⟩
  rcases Option.map_eq_some_iff.mp hfound with ⟨_, -, rfl⟩
  exact length_of_mem_placed hne hplace

/-- A change of what begins behind some segments leaves the contributions of these alone. -/
theorem map_contributions_append {cut more : List Segment} (hcut : ∀ s ∈ cut, s.text ≠ [])
    (hmore : ∀ s ∈ more, s.text ≠ []) (down : β → β) :
    ((contributions found? [] (cut ++ more)).map fun found =>
        if found.1.length < (cut.flatMap Segment.text).length then found.2 else down found.2) =
      foundAfter found? [] cut ++
        (foundAfter found? (cut.flatMap Segment.text) more).map down := by
  rw [contributions_append, List.map_append, List.nil_append, ← map_snd_contributions,
    ← map_snd_contributions, List.map_map]
  congr 1
  · apply List.map_congr_left
    intro found hfound
    exact if_pos (length_of_mem_contributions found? hcut hfound).2
  · apply List.map_congr_left
    intro found hfound
    exact if_neg (Nat.not_lt.mpr (length_of_mem_contributions found? hmore hfound).1)

end Places

/-- The tokens of a source in front of the end token, each beside the text in front of it. -/
def placedTokens (source : String) : List (List Char × Token) :=
  contributions Segment.token? [] (segments source)

/-- The reports about a source, each beside the text in front of what it is about. -/
def placedReports (source : String) : List (List Char × Diagnostic) :=
  contributions Segment.report? [] (segments source)

theorem tokensOf_eq_placed (source : String) :
    tokensOf source =
      (placedTokens source).map Prod.snd ++ [.eof (lineAfter source.toList)] := by
  unfold placedTokens
  rw [map_snd_contributions, tokensOf_eq]

theorem reportsOf_eq_placed (source : String) :
    reportsOf source = (placedReports source).map Prod.snd := by
  unfold placedReports
  rw [map_snd_contributions, reportsOf_eq]

/-! ## Blanks between two texts -/

/-- Blanks between two texts become part of the segments of the first one, in which the same is
found. -/
theorem segments_insert_blanks {a b blanks : String} (hb : b ≠ "") (h : BeginsAt a b)
    (hblanks : ∀ c ∈ blanks.toList, c ∈ [' ', '\r', '\t', '\n']) :
    ∃ cut, segments (a ++ blanks ++ b) = cut ++ segments b ∧
      cut.flatMap Segment.text = (a ++ blanks).toList ∧ SameFindings cut (segments a) := by
  have hcut := beginsAt_iff_cutTo.mp h
  have hclosed := hcut.closed fun hnil => hb (String.toList_eq_nil_iff.mp hnil)
  rw [String.toList_append] at hcut
  rcases hcut.insert_blanks hclosed hblanks with ⟨cut, hinserted, -, hsame⟩
  rw [← String.toList_append, ← String.toList_append] at hinserted
  refine ⟨cut, (cut_iff.mp (hinserted.cut (cut_segments b))).symm, ?_, hsame⟩
  have htext := hinserted.text_append
  rw [String.toList_append] at htext
  exact List.append_cancel_right htext

/-- Blanks between segments are not noticed.  Take a text in two parts, the second of which is not
empty and begins with a segment, and put blanks between them.  A scan finds the same tokens and
reports the same, in the same order: what begins in the first part stays on its line, and what
begins in the second part stands, like the end token, as many lines farther down as there are
newlines among the blanks. -/
theorem scan_insert_blanks (a b blanks : String) (hb : b ≠ "") (h : BeginsAt a b)
    (hblanks : ∀ c ∈ blanks.toList, c ∈ [' ', '\r', '\t', '\n']) :
    ∃ line,
      tokensOf (a ++ b) = (placedTokens (a ++ b)).map Prod.snd ++ [.eof line] ∧
      tokensOf (a ++ blanks ++ b) =
        ((placedTokens (a ++ b)).map fun found =>
            if found.1.length < a.length then found.2
            else found.2.shift (blanks.toList.count '\n')) ++
          [.eof (line + blanks.toList.count '\n')] ∧
      reportsOf (a ++ b) = (placedReports (a ++ b)).map Prod.snd ∧
      reportsOf (a ++ blanks ++ b) =
        (placedReports (a ++ b)).map fun found =>
          if found.1.length < a.length then found.2
          else found.2.shift (blanks.toList.count '\n') := by
  rcases segments_insert_blanks hb h hblanks with ⟨cut, hsegments, htext, hsame⟩
  rcases hsame [] with ⟨htokens, hreports⟩
  have hparts := beginsAt_iff.mp h
  have hlength : a.length = ((segments a).flatMap Segment.text).length := by
    rw [flatMap_text_segments, String.length_toList]
  have ha := (cut_segments a).text_ne_nil
  have hb' := (cut_segments b).text_ne_nil
  have hlast : lineAfter (a ++ blanks ++ b).toList =
      lineAfter (a ++ b).toList + blanks.toList.count '\n' := by
    simp only [lineAfter, String.toList_append, List.count_append]
    omega
  refine ⟨lineAfter (a ++ b).toList, tokensOf_eq_placed (a ++ b), ?_, reportsOf_eq_placed (a ++ b),
    ?_⟩
  · unfold placedTokens
    rw [hparts, hlength, map_contributions_append _ ha hb', tokensOf_eq, hsegments, hlast,
      foundAfter_append, htext, htokens, String.toList_append, List.nil_append,
      movesDown_token.foundAfter_append_text, flatMap_text_segments]
  · unfold placedReports
    rw [hparts, hlength, map_contributions_append _ ha hb', reportsOf_eq, hsegments,
      foundAfter_append, htext, hreports, String.toList_append, List.nil_append,
      movesDown_report.foundAfter_append_text, flatMap_text_segments]

/-- Blanks with a newline behind a comment, which takes in the first of them.  The number, the
second stray character and the open text stand one line farther down. -/
theorem scan_insert_blanks_comment :
    BeginsAt "@ 1// x" "\n.5 @ \"" ∧
      (tokensOf ("@ 1// x" ++ " \n\t" ++ "\n.5 @ \"")).map (fun t => (t.lexeme, t.line)) =
        [("1", 1), (".", 3), ("5", 3), ("", 3)] ∧
      (reportsOf ("@ 1// x" ++ " \n\t" ++ "\n.5 @ \"")).map (fun d => (d.message, d.line)) =
        [("Unexpected character '@'.", 1), ("Unexpected character '@'.", 3),
          ("Unterminated string.", 3)] := by
  have hbegins : BeginsAt "@ 1// x" "\n.5 @ \"" := beginsAt_iff.mpr (by decide +kernel)
  rcases scan_insert_blanks "@ 1// x" "\n.5 @ \"" " \n\t" (by decide) hbegins (by simp) with
    ⟨line, hwhole, htokens, -, hreports⟩
  have hend : tokensOf ("@ 1// x" ++ "\n.5 @ \"") =
      (placedTokens ("@ 1// x" ++ "\n.5 @ \"")).map Prod.snd ++ [.eof 2] := by
    decide +kernel
  have hline : line = 2 := by
    rw [hwhole, List.append_cancel_left_eq, List.cons.injEq] at hend
    exact congrArg Token.line hend.1
  refine ⟨hbegins, ?_, ?_⟩
  · rw [htokens, hline]
    decide +kernel
  · rw [hreports]
    decide +kernel

end LoxTokens
