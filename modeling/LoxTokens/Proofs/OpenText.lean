import LoxTokens.Proofs.Appending

/-!
# Open texts

A text that lacks its closing quote takes all there is, so it is reported last.  One quote behind
the source closes it.  Where no text is open, the same quote opens one, unless it becomes part of a
comment.

- `Grammar.Cut.closed_or_openText` says where an open text stands
- `Grammar.CutTo.close_text` and `Grammar.Cut.open_text` put a quote behind an input
- `EndsInComment` is said of sources whose last line ends with a comment
- `scan_append_quote` is the result
-/

namespace LoxTokens

open Grammar

namespace Grammar

/-! ## Open texts in a cut -/

/-- If a quote is no beginning of a text, then it is the last quote. -/
theorem quote_notMem_of_noMatch {rest : List Char} (h : NoMatch ('"' :: rest)) : '"' ∉ rest := by
  intro hmem
  rcases List.eq_append_cons_of_mem hmem with ⟨body, more, rfl, hbody⟩
  exact h _ _ (Matches.text hbody) ⟨more, by simp⟩

/-- An open text is the last segment if there is one, and it begins with the last quote. -/
theorem Cut.closed_or_openText {input : List Char} {cut : List Segment} (h : Cut input cut) :
    Closed cut ∨ ∃ front body, cut = front ++ [{ shape := .openText, text := '"' :: body }] ∧
      '"' ∉ body ∧ CutTo input front ('"' :: body) := by
  induction h with
  | done => exact Or.inl nofun
  | @next input rest s others hbegins hothers ih =>
    by_cases hopen : s.shape = .openText
    · rcases hbegins.eq_of_openText hopen with ⟨body, hnone, rfl, rfl, rfl⟩
      rw [hothers.unique .done]
      exact Or.inr ⟨[], body, rfl, quote_notMem_of_noMatch hnone, .here⟩
    · rcases ih with hclosed | ⟨front, body, rfl, hbody, hfront⟩
      · exact Or.inl (hclosed.cons hopen)
      · exact Or.inr ⟨s :: front, body, rfl, hbody, .next hbegins hfront⟩

/-! ## One more quote -/

theorem separates_quote : Separates '"' := by
  decide

/-- A quote behind an open text closes it. -/
theorem CutTo.close_text {input body : List Char} {front : List Segment}
    (h : CutTo input front ('"' :: body)) (hbody : '"' ∉ body) :
    Cut (input ++ ['"'])
      (front ++ [{ shape := .token .text, text := '"' :: (body ++ ['"']) }]) := by
  have hne : '"' :: body ≠ [] := List.cons_ne_nil _ _
  have hfront := h.append_separator (h.closed hne) separates_quote
    (fun _ hnil => absurd hnil hne) []
  exact hfront.cut (.next (Matches.text hbody).begins .done)

/-- A quote behind anything else opens a text, if no comment takes it in. -/
theorem Cut.open_text {input : List Char} {cut : List Segment} (h : Cut input cut)
    (hclosed : Closed cut) (hcomment : ¬ EndsWithComment cut) :
    Cut (input ++ ['"']) (cut ++ [{ shape := .openText, text := ['"'] }]) := by
  have hfront := h.cutTo.append_separator hclosed separates_quote
    (fun hends _ => absurd hends hcomment) []
  exact hfront.cut (.next (Begins.openText (Lead.noMatch_of_openText List.not_mem_nil)) .done)

instance : DecidablePred EndsWithComment :=
  fun cut => decidable_of_iff ((cut.getLast?.map Segment.shape) = some .comment) <| by
    rw [Option.map_eq_some_iff]
    constructor
    · rintro ⟨s, hlast, hshape⟩
      rcases List.getLast?_eq_some_iff.mp hlast with ⟨front, rfl⟩
      exact ⟨front, s.text, by rw [← hshape]⟩
    · rintro ⟨front, text, rfl⟩
      exact ⟨_, List.getLast?_concat, rfl⟩

end Grammar

/-! ## Sources that end with a comment -/

/-- The end of a source is inside a comment: a segment begins with two slashes, and no newline comes
behind them. -/
def EndsInComment (source : String) : Prop :=
  ∃ before body : String, source = before ++ ("//" ++ body) ∧ '\n' ∉ body.toList ∧
    BeginsAt before ("//" ++ body)

theorem endsInComment_iff {source : String} :
    EndsInComment source ↔ EndsWithComment (segments source) := by
  constructor
  · rintro ⟨before, body, rfl, hbody, hbegins⟩
    have hcomment : Cut ("//" ++ body).toList
        [{ shape := .comment, text := ("//" ++ body).toList }] := by
      rw [String.toList_append]
      exact .next (Matches.comment hbody).begins .done
    rw [beginsAt_iff.mp hbegins, ← cut_iff.mp hcomment]
    exact ⟨_, _, rfl⟩
  · rintro ⟨front, text, hsegments⟩
    have hcut := cut_segments source
    rw [hsegments] at hcut
    rcases hcut.split with ⟨rest, hfront, hlast⟩
    have htext : text = rest := by simpa using hlast.flatMap_text
    have hmatches : Matches .comment rest := by
      rw [← htext]
      exact hlast.cutTo.begins.grammatical nofun nofun
    rcases matches_comment_iff.mp hmatches with ⟨body, hbody, rfl⟩
    have hbegins := beginsAt_of_cutTo hfront
    have hslashes : String.ofList ('/' :: '/' :: body) = "//" ++ .ofList body := by
      simp [← String.toList_inj]
    rw [hslashes] at hbegins
    refine ⟨_, .ofList body, ?_, by rwa [String.toList_ofList], hbegins⟩
    rw [← String.toList_inj, String.toList_append, ← hslashes, String.toList_ofList,
      String.toList_ofList, hfront.text_append]

instance : DecidablePred EndsInComment :=
  fun _ => decidable_of_iff _ endsInComment_iff.symm

/-! ## Findings -/

theorem message_ne_of_closed {before : List Char} {cut : List Segment} (hclosed : Closed cut) :
    ∀ d ∈ foundAfter Segment.report? before cut, d.message ≠ "Unterminated string." := by
  intro d hd
  rcases isUnexpected_of_closed hclosed hd with ⟨c, hmessage⟩
  rw [hmessage]
  exact unexpected_ne_unterminated c

theorem tokens_concat_openText (front : List Segment) (text : List Char) :
    foundAfter Segment.token? [] (front ++ [{ shape := .openText, text := text }]) =
      foundAfter Segment.token? [] front := by
  rw [foundAfter_append]
  exact List.append_nil _

/-- What is reported about an open text comes behind the reports about what stands in front. -/
theorem reports_concat_openText (front : List Segment) (text : List Char) :
    foundAfter Segment.report? [] (front ++ [{ shape := .openText, text := text }]) =
      foundAfter Segment.report? [] front ++
        [{ line := lineAfter (front.flatMap Segment.text ++ text), place := "",
           message := "Unterminated string." }] := by
  rw [foundAfter_append]
  rfl

theorem tokens_concat_text (front : List Segment) (body : List Char) :
    foundAfter Segment.token? []
        (front ++ [{ shape := .token .text, text := '"' :: (body ++ ['"']) }]) =
      foundAfter Segment.token? [] front ++
        [{ kind := .text, lexeme := "\"" ++ .ofList body ++ "\"", literal := .text (.ofList body),
           line := lineAfter (front.flatMap Segment.text) }] := by
  have hlexeme : String.ofList ('"' :: (body ++ ['"'])) = "\"" ++ .ofList body ++ "\"" := by
    simp [← String.toList_inj]
  rw [foundAfter_append, foundAfter_cons, ← hlexeme]
  simp [Segment.token?, Token.ofLexeme, Literal.ofLexeme]

theorem reports_concat_text (front : List Segment) (text : List Char) :
    foundAfter Segment.report? [] (front ++ [{ shape := .token .text, text := text }]) =
      foundAfter Segment.report? [] front := by
  rw [foundAfter_append]
  exact List.append_nil _

/-! ## One more quote behind a source -/

section Quote

variable {source : String}

theorem toList_append_quote (source : String) :
    (source ++ "\"").toList = source.toList ++ ['"'] :=
  String.toList_append

theorem lineAfter_append_quote (source : String) :
    lineAfter (source ++ "\"").toList = lineAfter source.toList := by
  rw [toList_append_quote, lineAfter_append]
  rfl

theorem segments_close_text {front : List Segment} {body : List Char} (hbody : '"' ∉ body)
    (hfront : CutTo source.toList front ('"' :: body)) :
    segments (source ++ "\"") =
      front ++ [{ shape := .token .text, text := '"' :: (body ++ ['"']) }] := by
  have hcut := hfront.close_text hbody
  rw [← toList_append_quote] at hcut
  exact (cut_iff.mp hcut).symm

theorem segments_open_text (hclosed : Closed (segments source))
    (hcomment : ¬ EndsInComment source) :
    segments (source ++ "\"") = segments source ++ [{ shape := .openText, text := ['"'] }] := by
  rw [endsInComment_iff] at hcomment
  have hcut := (cut_segments source).open_text hclosed hcomment
  rw [← toList_append_quote] at hcut
  exact (cut_iff.mp hcut).symm

theorem dropLast_reports_ne (source : String) :
    ∀ d ∈ (reportsOf source).dropLast, d.message ≠ "Unterminated string." := by
  rw [reportsOf_eq]
  rcases (cut_segments source).closed_or_openText with
    hclosed | ⟨front, body, hsegments, -, hfront⟩
  · intro d hd
    exact message_ne_of_closed hclosed d (List.dropLast_subset _ hd)
  · rw [hsegments, reports_concat_openText, List.dropLast_concat]
    exact message_ne_of_closed (hfront.closed (List.cons_ne_nil _ _))

theorem scan_close_text {front : List Segment} {body : List Char}
    (hsegments : segments source = front ++ [{ shape := .openText, text := '"' :: body }])
    (hbody : '"' ∉ body) (hfront : CutTo source.toList front ('"' :: body)) :
    tokensOf source = foundAfter Segment.token? [] front ++ [.eof (lineAfter source.toList)] ∧
      tokensOf (source ++ "\"") =
        foundAfter Segment.token? [] front ++
          [{ kind := .text, lexeme := "\"" ++ .ofList body ++ "\"",
             literal := .text (.ofList body), line := lineAfter (front.flatMap Segment.text) },
            .eof (lineAfter source.toList)] ∧
      reportsOf (source ++ "\"") = (reportsOf source).dropLast := by
  refine ⟨?_, ?_, ?_⟩
  · rw [tokensOf_eq, hsegments, tokens_concat_openText]
  · rw [tokensOf_eq, segments_close_text hbody hfront, tokens_concat_text,
      lineAfter_append_quote, List.append_assoc]
    rfl
  · rw [reportsOf_eq, reportsOf_eq, segments_close_text hbody hfront, reports_concat_text,
      hsegments, reports_concat_openText, List.dropLast_concat]

theorem scan_open_text (hclosed : Closed (segments source))
    (hcomment : ¬ EndsInComment source) :
    tokensOf (source ++ "\"") = tokensOf source ∧
      reportsOf (source ++ "\"") =
        reportsOf source ++
          [{ line := lineAfter source.toList, place := "",
             message := "Unterminated string." }] := by
  have hsegments := segments_open_text hclosed hcomment
  refine ⟨?_, ?_⟩
  · rw [tokensOf_eq, hsegments, tokens_concat_openText, lineAfter_append_quote, tokensOf_eq]
  · rw [reportsOf_eq, hsegments, reports_concat_openText, flatMap_text_segments,
      ← toList_append_quote, lineAfter_append_quote, reportsOf_eq]

end Quote

/-- An open text is reported once at most, and last.  If it is reported, then one quote behind the
source makes a text of it: the tokens are the same, with this text in front of the end token, on
the line of its first quote, and the reports are the same without the last one.  If it is not
reported and the source does not end inside a comment, then one quote behind the source leaves the
tokens alone, and an open text is reported on the last line, behind all other reports. -/
theorem scan_append_quote (source : String) :
    (∀ d ∈ (reportsOf source).dropLast, d.message ≠ "Unterminated string.") ∧
      (ReportsUnterminated source →
        ∃ before body found line,
          source = before ++ ("\"" ++ body) ∧ '"' ∉ body.toList ∧
          BeginsAt before ("\"" ++ body) ∧
          tokensOf source = found ++ [.eof line] ∧
          tokensOf (source ++ "\"") =
            found ++
              [{ kind := .text, lexeme := "\"" ++ body ++ "\"", literal := .text body,
                 line := lineAfter before.toList }, .eof line] ∧
          reportsOf (source ++ "\"") = (reportsOf source).dropLast) ∧
      (¬ ReportsUnterminated source → ¬ EndsInComment source →
        ∃ found line,
          tokensOf source = found ++ [.eof line] ∧
          tokensOf (source ++ "\"") = found ++ [.eof line] ∧
          reportsOf (source ++ "\"") =
            reportsOf source ++
              [{ line := line, place := "", message := "Unterminated string." }]) := by
  refine ⟨dropLast_reports_ne source, fun hreports => ?_, fun hnone hcomment => ?_⟩
  · rcases (cut_segments source).closed_or_openText with
      hclosed | ⟨front, body, hsegments, hbody, hfront⟩
    · rcases reportsUnterminated_iff.mp hreports with ⟨s, hs, hshape⟩
      exact absurd hshape (hclosed s hs)
    · have hquote : String.ofList ('"' :: body) = "\"" ++ .ofList body := by
        simp
      have hsource : source = .ofList (front.flatMap Segment.text) ++ .ofList ('"' :: body) := by
        rw [← String.ofList_append, hfront.text_append, String.ofList_toList]
      have hbegins := beginsAt_of_cutTo hfront
      have hscan := scan_close_text hsegments hbody hfront
      rw [hquote] at hsource hbegins
      refine ⟨.ofList (front.flatMap Segment.text), .ofList body,
        foundAfter Segment.token? [] front, lineAfter source.toList, hsource, ?_, hbegins, ?_⟩
      · rwa [String.toList_ofList]
      · rwa [String.toList_ofList]
  · rcases scan_open_text (closed_segments hnone) hcomment with ⟨htokens, hreports⟩
    refine ⟨foundAfter Segment.token? [] (segments source), lineAfter source.toList,
      tokensOf_eq source, ?_, hreports⟩
    rw [htokens, tokensOf_eq]

/-- A text that is open over two lines, with what looks like a comment in it, behind a quote in a
comment; and a source without an open text that has a quote in a comment, too. -/
theorem scan_append_quote_comments :
    ReportsUnterminated "// \"\nx@\"a // b\nc" ∧
      (tokensOf ("// \"\nx@\"a // b\nc" ++ "\"")).map (fun t => (t.lexeme, t.line)) =
        [("x", 2), ("\"a // b\nc\"", 2), ("", 3)] ∧
      reportsOf ("// \"\nx@\"a // b\nc" ++ "\"") =
        [{ line := 2, place := "", message := "Unexpected character '@'." }] ∧
      ¬ ReportsUnterminated "@1.// \"\n" ∧ ¬ EndsInComment "@1.// \"\n" ∧
      tokensOf ("@1.// \"\n" ++ "\"") = tokensOf "@1.// \"\n" ∧
      reportsOf ("@1.// \"\n" ++ "\"") =
        [{ line := 1, place := "", message := "Unexpected character '@'." },
          { line := 2, place := "", message := "Unterminated string." }] := by
  have hopen : ReportsUnterminated "// \"\nx@\"a // b\nc" := by decide +kernel
  have hnone : ¬ ReportsUnterminated "@1.// \"\n" := by decide +kernel
  have hcomment : ¬ EndsInComment "@1.// \"\n" := by decide +kernel
  rcases (scan_append_quote "// \"\nx@\"a // b\nc").2.1 hopen with
    ⟨before, body, found, line, -, -, -, -, -, hreports⟩
  rcases (scan_append_quote "@1.// \"\n").2.2 hnone hcomment with
    ⟨found', line', htokens, htokens', hreports'⟩
  refine ⟨hopen, ?_, ?_, hnone, hcomment, ?_, ?_⟩
  · decide +kernel
  · rw [hreports]
    decide +kernel
  · rw [htokens', htokens]
  · decide +kernel

end LoxTokens
