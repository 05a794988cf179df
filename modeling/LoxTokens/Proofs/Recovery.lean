import LoxTokens.Proofs.Composition
import LoxTokens.Proofs.Lookahead

/-!
# Sources without faults

A fault is a matter of its own place.  An unexpected character may as well be a space, and a comment
may as well be missing: a scan finds the same tokens then, on the same lines.

- `clean` is a source without its comments and with spaces for its unexpected characters
- `Grammar.Cut.head_cleaned` and `Grammar.Cut.point_cleaned` say what a token may see behind it
- `Grammar.Cut.cleaned` says that the other segments stay as they are
- `Grammar.Cut.findings_cleaned` compares what is found
- `scan_clean` is the result
-/

namespace LoxTokens

open Grammar

/-! ## Cleaning -/

/-- What becomes of a segment: a comment is deleted, an unexpected character becomes a space, and
everything else stays as it is, a text without its closing quote included. -/
def Segment.cleaned? (s : Segment) : Option Segment :=
  match s.shape with
  | .comment => none
  | .stray _ => some { shape := .blank, text := [' '] }
  | _ => some s

/-- The text of segments after cleaning. -/
def cleanedText (cut : List Segment) : List Char :=
  (cut.filterMap Segment.cleaned?).flatMap Segment.text

/-- A source without its comments, and with a space for each character that a scan of it reports as
unexpected. -/
def clean (source : String) : String :=
  .ofList (cleanedText (segments source))

/-- The three things that may become of a segment. -/
theorem Segment.cleaned?_cases (s : Segment) :
    (s.shape = .comment ∧ s.cleaned? = none) ∨
      (∃ c, s.shape = .stray c ∧ s.cleaned? = some { shape := .blank, text := [' '] }) ∨
      (s.shape ≠ .comment ∧ (∀ c, s.shape ≠ .stray c) ∧ s.cleaned? = some s) := by
  unfold cleaned?
  cases s.shape <;> simp

theorem cleanedText_of_none {s : Segment} (h : s.cleaned? = none) (others : List Segment) :
    cleanedText (s :: others) = cleanedText others := by
  unfold cleanedText
  rw [List.filterMap_cons_none h]

theorem cleanedText_of_some {s s' : Segment} (h : s.cleaned? = some s') (others : List Segment) :
    cleanedText (s :: others) = s'.text ++ cleanedText others := by
  unfold cleanedText
  rw [List.filterMap_cons_some h, List.flatMap_cons]

namespace Grammar

/-- A comment ends in front of the first newline, or at the end. -/
theorem Begins.extent_of_comment {input rest : List Char} {s : Segment} (h : Begins input s rest)
    (hshape : s.shape = .comment) : '\n' ∉ s.text ∧ ∀ c ∈ rest.head?, c = '\n' := by
  rcases s with ⟨shape, text⟩
  cases hshape
  have hmatches : Matches .comment text := h.grammatical nofun nofun
  refine ⟨?_, ?_⟩
  · rcases matches_comment_iff.mp hmatches with ⟨body, hbody, rfl⟩
    simpa using hbody
  · rw [← h.text_append, hmatches.begins_iff_within, within_comment hmatches] at h
    exact h

/-! ## What stands behind a token after cleaning -/

/-- The first character after cleaning is a blank, or it was the first one before. -/
theorem Cut.head_cleaned {input : List Char} {cut : List Segment} (h : Cut input cut) :
    ∀ c ∈ (cleanedText cut).head?, c ∈ [' ', '\r', '\t', '\n'] ∨ input.head? = some c := by
  induction h with
  | done => exact nofun
  | @next input rest s others hbegins _ ih =>
    intro c hc
    rcases s.cleaned?_cases with ⟨hshape, hnone⟩ | ⟨_, _, hspace⟩ | ⟨-, -, hsame⟩
    · -- what follows a comment begins with a newline
      rw [cleanedText_of_none hnone] at hc
      rcases ih c hc with hblank | hrest
      · exact Or.inl hblank
      · rw [(hbegins.extent_of_comment hshape).2 c hrest]
        exact Or.inl (by decide)
    · rw [cleanedText_of_some hspace] at hc
      cases hc
      exact Or.inl (by decide)
    · rw [cleanedText_of_some hsame] at hc
      rcases List.exists_cons_of_ne_nil hbegins.text_ne_nil with ⟨first, text, htext⟩
      rw [htext] at hc
      rw [← hbegins.text_append, htext]
      exact Or.inr hc

/-- A segment that begins with a point is a point. -/
theorem Begins.text_eq_point {input rest text : List Char} {s : Segment} (h : Begins input s rest)
    (hstray : ∀ c, s.shape ≠ .stray c) (htext : s.text = '.' :: text) : s.text = ['.'] := by
  have hopen : s.shape ≠ .openText := by
    intro hshape
    rcases h.eq_of_openText hshape with ⟨_, -, -, rfl, -⟩
    cases htext
  have hmatches := h.grammatical hopen hstray
  rw [htext] at hmatches
  have hcontinues : (Lead.punctuation .dot).Continues '.' s.shape text :=
    continues_of_matches hmatches
  rw [htext, hcontinues.2]

/-- A point and a digit after cleaning were a point and a digit before. -/
theorem Cut.point_cleaned {input : List Char} {cut : List Segment} (h : Cut input cut) {d : Char}
    (hd : IsDigit d) (hstarts : ['.', d] <+: cleanedText cut) : ['.', d] <+: input := by
  induction h with
  | done => exact absurd (List.prefix_nil.mp hstarts) (List.cons_ne_nil _ _)
  | @next input rest s others hbegins hothers ih =>
    rcases s.cleaned?_cases with ⟨hshape, hnone⟩ | ⟨_, _, hspace⟩ | ⟨-, hstray, hsame⟩
    · -- behind a comment there is no point
      rw [cleanedText_of_none hnone] at hstarts
      have hpoint := (hbegins.extent_of_comment hshape).2 '.' (head?_of_starts (ih hstarts))
      exact absurd hpoint (by decide)
    · rw [cleanedText_of_some hspace] at hstarts
      exact absurd (head?_of_starts hstarts) (by simp)
    · rw [cleanedText_of_some hsame] at hstarts
      rcases List.exists_cons_of_ne_nil hbegins.text_ne_nil with ⟨first, text, htext⟩
      have hfirst : first = '.' := by
        have hhead := head?_of_starts hstarts
        rw [htext] at hhead
        exact Option.some.inj hhead
      subst hfirst
      -- the point is a segment, so the digit begins the next one
      have hpoint := hbegins.text_eq_point hstray htext
      rw [hpoint, List.singleton_append, List.prefix_cons_inj] at hstarts
      rw [← hbegins.text_append, hpoint, List.singleton_append, List.prefix_cons_inj]
      rcases hothers.head_cleaned d (head?_of_starts hstarts) with hblank | hrest
      · exact absurd hd (separates_of_mem_blanks hblank).2.1
      · exact singleton_starts hrest

/-! ## The cut after cleaning -/

/-- A segment that stays as it is still is the first segment after cleaning. -/
theorem Begins.cleaned {input rest : List Char} {s : Segment} {others : List Segment}
    (h : Begins input s rest) (hothers : Cut rest others) (hcomment : s.shape ≠ .comment)
    (hstray : ∀ c, s.shape ≠ .stray c) :
    Begins (s.text ++ cleanedText others) s (cleanedText others) := by
  have htext := h.text_append
  rcases s with ⟨shape, text⟩
  cases shape with
  | blank =>
    have hmatches : Matches .blank text := h.grammatical nofun hstray
    cases hmatches with
    | blank hblank => exact begins_blank hblank _
  | comment => exact absurd rfl hcomment
  | token kind =>
    have hmatches : Matches (.token kind) text := h.grammatical nofun hstray
    rw [← htext, hmatches.begins_iff_within] at h
    refine hmatches.begins_iff_within.mpr ?_
    exact Within.of_alike h hmatches hothers.head_cleaned fun d hd => hothers.point_cleaned hd
  | stray c => exact absurd rfl (hstray c)
  | openText =>
    -- nothing stands behind an open text
    have hrest := h.rest_of_openText rfl
    subst hrest
    have hnone : cleanedText [] = [] := rfl
    rw [hothers.unique .done, hnone, htext]
    exact h

/-- After cleaning, the segments are those that stay, and a blank for each unexpected character. -/
theorem Cut.cleaned {input : List Char} {cut : List Segment} (h : Cut input cut) :
    Cut (cleanedText cut) (cut.filterMap Segment.cleaned?) := by
  induction h with
  | done => exact .done
  | @next input rest s others hbegins hothers ih =>
    rcases s.cleaned?_cases with ⟨-, hnone⟩ | ⟨_, _, hspace⟩ | ⟨hcomment, hstray, hsame⟩
    · rw [cleanedText_of_none hnone, List.filterMap_cons_none hnone]
      exact ih
    · rw [cleanedText_of_some hspace, List.filterMap_cons_some hspace]
      exact .next (begins_blank (by decide) _) ih
    · rw [cleanedText_of_some hsame, List.filterMap_cons_some hsame]
      exact .next (hbegins.cleaned hothers hcomment hstray) ih

/-! ## Findings after cleaning -/

theorem Begins.notMem_newline_of_stray {input rest : List Char} {s : Segment} {c : Char}
    (h : Begins input s rest) (hshape : s.shape = .stray c) : '\n' ∉ s.text := by
  have hne := h.ne_newline_of_stray hshape
  rcases h.eq_of_stray hshape with ⟨-, -, rfl⟩
  simpa using hne.symm

end Grammar

/-- The only report about a segment that stays is that it lacks its closing quote. -/
theorem filter_report? {s : Segment} (hstray : ∀ c, s.shape ≠ .stray c) (before : List Char) :
    (s.report? before).toList.filter (fun d => d.message = "Unterminated string.") =
      (s.report? before).toList := by
  unfold Segment.report? Segment.error?
  cases hshape : s.shape with
  | stray c => exact absurd hshape (hstray c)
  | _ => rfl

theorem filter_unexpected (line : Nat) (character : Char) :
    [(LexicalError.unexpectedCharacter line character).diagnostic].filter
      (fun d => d.message = "Unterminated string.") = [] :=
  List.filter_cons_of_neg fun h => unexpected_ne_unterminated character (of_decide_eq_true h)

/-- The induction is on the cut.  What is deleted or replaced is no token and has no newline, so it
does not matter to the others whether it stands in front of them. -/
theorem Grammar.Cut.findings_cleaned {input : List Char} {cut : List Segment} (h : Cut input cut)
    (before : List Char) :
    foundAfter Segment.token? before (cut.filterMap Segment.cleaned?) =
        foundAfter Segment.token? before cut ∧
      foundAfter Segment.report? before (cut.filterMap Segment.cleaned?) =
        (foundAfter Segment.report? before cut).filter
          (fun d => d.message = "Unterminated string.") ∧
      (cleanedText cut).count '\n' = input.count '\n' := by
  induction h generalizing before with
  | done => exact ⟨rfl, rfl, rfl⟩
  | @next input rest s others hbegins _ ih =>
    rw [← hbegins.text_append, List.count_append]
    rcases s.cleaned?_cases with ⟨hshape, hnone⟩ | ⟨c, hshape, hspace⟩ | ⟨-, hstray, hsame⟩
    · have hfree := (hbegins.extent_of_comment hshape).1
      have htoken : s.token? before = none := by simp [Segment.token?, hshape]
      have hreport : s.report? before = none := by simp [Segment.report?, Segment.error?, hshape]
      rcases ih before with ⟨htokens, hreports, hcount⟩
      rw [List.filterMap_cons_none hnone, cleanedText_of_none hnone]
      refine ⟨?_, ?_, ?_⟩
      · rw [movesDown_token.foundAfter_cons_of_notMem hfree, htoken, htokens]
        rfl
      · rw [movesDown_report.foundAfter_cons_of_notMem hfree, hreport, hreports]
        rfl
      · rw [List.count_eq_zero_of_not_mem hfree, hcount, Nat.zero_add]
    · have hfree := hbegins.notMem_newline_of_stray hshape
      have hspaceFree : '\n' ∉ ({ shape := .blank, text := [' '] } : Segment).text := by decide
      have htoken : s.token? before = none := by simp [Segment.token?, hshape]
      have hreport : s.report? before =
          some (LexicalError.unexpectedCharacter (lineAfter before) c).diagnostic := by
        simp [Segment.report?, Segment.error?, hshape]
      rcases ih before with ⟨htokens, hreports, hcount⟩
      rw [List.filterMap_cons_some hspace, cleanedText_of_some hspace]
      refine ⟨?_, ?_, ?_⟩
      · rw [movesDown_token.foundAfter_cons_of_notMem hfree,
          movesDown_token.foundAfter_cons_of_notMem hspaceFree, htoken, htokens]
        rfl
      · rw [movesDown_report.foundAfter_cons_of_notMem hfree,
          movesDown_report.foundAfter_cons_of_notMem hspaceFree, hreport, hreports,
          List.filter_append, Option.toList_some, filter_unexpected]
        rfl
      · rw [List.count_append, List.count_eq_zero_of_not_mem hfree,
          List.count_eq_zero_of_not_mem hspaceFree, hcount]
    · rcases ih (before ++ s.text) with ⟨htokens, hreports, hcount⟩
      rw [List.filterMap_cons_some hsame, cleanedText_of_some hsame, List.count_append, hcount]
      refine ⟨?_, ?_, rfl⟩
      · rw [foundAfter_cons, foundAfter_cons, htokens]
      · rw [foundAfter_cons, foundAfter_cons, List.filter_append, filter_report? hstray, hreports]

/-! ## Cleaning a source -/

theorem segments_clean (source : String) :
    segments (clean source) = (segments source).filterMap Segment.cleaned? := by
  have hcut := (cut_segments source).cleaned
  unfold clean
  rw [← String.toList_ofList (l := cleanedText (segments source))] at hcut
  exact (cut_iff.mp hcut).symm

/-- A fault does not reach beyond its place.  The segments of a source are those that the grammar
tells.  When each unexpected character is replaced by a space, and each comment is deleted, a scan
finds the same tokens, on the same lines.  No unexpected character is reported any more, but a text
without its closing quote still is, on the same line. -/
theorem scan_clean (source : String) :
    Cut source.toList (segments source) ∧
      tokensOf (clean source) = tokensOf source ∧
      reportsOf (clean source) =
        (reportsOf source).filter fun d => d.message = "Unterminated string." := by
  have hcut := cut_segments source
  rcases hcut.findings_cleaned [] with ⟨htokens, hreports, hcount⟩
  refine ⟨hcut, ?_, ?_⟩
  · have hline : lineAfter (clean source).toList = lineAfter source.toList := by
      unfold lineAfter clean
      rw [String.toList_ofList, hcount]
    rw [tokensOf_eq, tokensOf_eq, segments_clean, htokens, hline]
  · rw [reportsOf_eq, reportsOf_eq, segments_clean, hreports]

/-- The comment between a number and a point goes, and so do the characters that stand where an
operator could be joined; the text keeps all it has. -/
example : clean "1// x\n.5 <@= /#/ \"// @" = "1\n.5 < = / / \"// @" := by
  decide +kernel

end LoxTokens
