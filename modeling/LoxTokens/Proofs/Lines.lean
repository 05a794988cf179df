import LoxTokens.Proofs.Tokenisation

/-!
# Lines

Every token stands on the line on which it starts, and every fault on the line on which it is
noticed.

- `lines_foundAfter` says that lines never decrease, whatever is found in the segments
- `counter_eq` is the counter whenever a segment begins
- `lines_exact` is the result for tokens and reports
-/

namespace LoxTokens

universe u

open Grammar

/-! ## Places -/

/-- A placed segment stands in the text behind its place. -/
theorem exists_after_of_mem_placed {before : List Char} {cut : List Segment}
    {place : List Char × Segment} (h : place ∈ placed before cut) :
    ∃ after, before ++ cut.flatMap Segment.text = place.1 ++ (place.2.text ++ after) := by
  induction cut generalizing before with
  | nil => simp [placed] at h
  | cons s others ih =>
    rw [placed, List.mem_cons] at h
    rcases h with rfl | h
    · exact ⟨others.flatMap Segment.text, rfl⟩
    · rcases ih h with ⟨after, hafter⟩
      refine ⟨after, ?_⟩
      rw [← hafter]
      simp

/-! ## Lines never decrease -/

theorem lineAfter_le_append (before text : List Char) :
    lineAfter before ≤ lineAfter (before ++ text) := by
  rw [lineAfter_append]
  exact Nat.le_add_right _ _

theorem lineAfter_le_length (text : List Char) : lineAfter text ≤ 1 + text.length := by
  have := List.count_le_length (a := '\n') (l := text)
  unfold lineAfter
  omega

/-- What segments contribute stands in order, if each contribution stands on a line of its own
segment. -/
theorem lines_foundAfter {β : Type u} {found? : Segment → List Char → Option β} {line : β → Nat}
    (h : ∀ s before b, found? s before = some b →
      lineAfter before ≤ line b ∧ line b ≤ lineAfter (before ++ s.text))
    (before : List Char) (cut : List Segment) :
    (∀ b ∈ foundAfter found? before cut,
        lineAfter before ≤ line b ∧ line b ≤ lineAfter (before ++ cut.flatMap Segment.text)) ∧
      ((foundAfter found? before cut).map line).Pairwise (· ≤ ·) := by
  induction cut generalizing before with
  | nil => simp
  | cons s others ih =>
    rcases ih (before ++ s.text) with ⟨hbounds, hsorted⟩
    have hstep := lineAfter_le_append before s.text
    have hrest := lineAfter_le_append (before ++ s.text) (others.flatMap Segment.text)
    rw [foundAfter_cons, List.flatMap_cons, ← List.append_assoc]
    cases hfound : found? s before with
    | none =>
      -- the bounds of the others are inside those of the whole
      refine ⟨fun b hb => ?_, hsorted⟩
      have := hbounds b hb
      omega
    | some found =>
      have hline := h s before found hfound
      simp only [Option.toList_some, List.singleton_append, List.mem_cons, List.map_cons,
        List.pairwise_cons]
      -- what is found first stands on a line of the first segment, and the others start behind it
      refine ⟨?_, ?_, hsorted⟩
      · rintro b (rfl | hb)
        · omega
        · have := hbounds b hb
          omega
      · intro later hmem
        rcases List.mem_map.mp hmem with ⟨b, hb, rfl⟩
        have := hbounds b hb
        omega

theorem line_of_token? {s : Segment} {before : List Char} {t : Token}
    (h : s.token? before = some t) : t.line = lineAfter before := by
  unfold Segment.token? at h
  split at h
  · cases h
    rfl
  · cases h

theorem line_of_report? {s : Segment} {before : List Char} {d : Diagnostic}
    (h : s.report? before = some d) :
    d.line = lineAfter before ∨ d.line = lineAfter (before ++ s.text) := by
  unfold Segment.report? Segment.error? at h
  cases hshape : s.shape with rw [hshape] at h
  | stray character =>
    cases h
    exact Or.inl rfl
  | openText =>
    cases h
    exact Or.inr rfl
  | _ => cases h

/-! ## Faults and their lines -/

/-- The line on which a fault is noticed: a text without its closing quote is noticed at the end of
the input, and any other character where it stands. -/
def faultLine (input : List Char) (place : List Char × Segment) : Nat :=
  if place.2.shape = .openText then lineAfter input else lineAfter place.1

theorem line_eq_faultLine {input rest before : List Char} {s : Segment} {d : Diagnostic}
    (h : Begins input s rest) (hreport : s.report? before = some d) :
    d.line = faultLine (before ++ input) (before, s) := by
  unfold faultLine
  unfold Segment.report? Segment.error? at hreport
  cases hshape : s.shape with rw [hshape] at hreport
  | stray character =>
    cases hreport
    rw [if_neg (by simp)]
    rfl
  | openText =>
    -- the end of the segment is the end of the input
    cases hreport
    have hinput := h.text_append
    rw [h.rest_of_openText hshape, List.append_nil] at hinput
    rw [if_pos rfl, hinput]
    rfl
  | _ => cases hreport

/-- The reports about a cut, each beside its segment and the text in front of it. -/
theorem forall₂_reports {input : List Char} {cut : List Segment} (h : Cut input cut)
    (before : List Char) :
    List.Forall₂
      (fun place d => place.2.complaint? = some (Diagnostic.message d) ∧
        d.line = faultLine (before ++ input) place)
      ((placed before cut).filter fun place => place.2.complaint?.isSome)
      (foundAfter Segment.report? before cut) := by
  induction h generalizing before with
  | done => exact .nil
  | @next input rest s others hbegins _ ih =>
    -- the others see the same whole text from one segment farther on
    have hothers := ih (before ++ s.text)
    rw [List.append_assoc, hbegins.text_append] at hothers
    have hcomplaint := report?_message s before
    rw [foundAfter_cons, placed, List.filter_cons]
    cases hreport : s.report? before with
    | none =>
      rw [hreport, Option.map_none] at hcomplaint
      rw [if_neg (by simp [← hcomplaint])]
      exact hothers
    | some d =>
      rw [hreport, Option.map_some] at hcomplaint
      rw [if_pos (by simp [← hcomplaint])]
      exact .cons ⟨hcomplaint.symm, line_eq_faultLine hbegins hreport⟩ hothers

/-! ## The lines of a scan -/

theorem exists_after_segments {source : String} {place : List Char × Segment}
    (h : place ∈ placed [] (segments source)) :
    ∃ after, source.toList = place.1 ++ (place.2.text ++ after) := by
  rcases exists_after_of_mem_placed h with ⟨after, hafter⟩
  rw [List.nil_append, flatMap_text_segments] at hafter
  exact ⟨after, hafter⟩

/-- Whenever a segment begins, the counter is one more than the newlines passed, and these are
among the newlines of the source. -/
theorem counter_eq {σ : Type u} [Reporter σ] (source : String) (sink : σ) (count : Nat) :
    (((segments source).take count).foldl Scan.absorb (.start sink)).line =
        lineAfter (((segments source).take count).flatMap Segment.text) ∧
      lineAfter (((segments source).take count).flatMap Segment.text) ≤
        lineAfter source.toList := by
  have hstart : (Scan.start sink).line = lineAfter [] := rfl
  have hsource : source.toList =
      ((segments source).take count).flatMap Segment.text ++
        ((segments source).drop count).flatMap Segment.text := by
    rw [← List.flatMap_append, List.take_append_drop, flatMap_text_segments]
  refine ⟨(Scan.foldl_absorb hstart ((segments source).take count)).1, ?_⟩
  rw [hsource]
  exact lineAfter_le_append _ _

theorem lines_scan {σ : Type u} [Reporter σ] (source : String) (sink : σ) :
    (∀ t ∈ (scan source sink).1, 1 ≤ t.line ∧ t.line ≤ lineAfter source.toList) ∧
      ((scan source sink).1.map Token.line).Pairwise (· ≤ ·) := by
  have hfirst : 1 ≤ lineAfter source.toList := Nat.le_add_left 1 _
  have hlines : ∀ s before t, Segment.token? s before = some t →
      lineAfter before ≤ t.line ∧ t.line ≤ lineAfter (before ++ s.text) := by
    intro s before t ht
    rw [line_of_token? ht]
    exact ⟨Nat.le_refl _, lineAfter_le_append _ _⟩
  rcases lines_foundAfter hlines [] (segments source) with ⟨htokens, hsorted⟩
  rw [List.nil_append, flatMap_text_segments] at htokens
  rw [scan_eq]
  refine ⟨?_, ?_⟩
  · intro t ht
    rcases List.mem_append.mp ht with ht | ht
    · exact htokens t ht
    · rw [List.mem_singleton.mp ht]
      exact ⟨hfirst, Nat.le_refl _⟩
  · -- the end token stands on the last line
    rw [List.map_append, List.pairwise_append]
    refine ⟨hsorted, List.pairwise_singleton _ _, ?_⟩
    intro line hline last hlast
    rcases List.mem_map.mp hline with ⟨t, ht, rfl⟩
    rw [List.mem_singleton.mp hlast]
    exact (htokens t ht).2

theorem lines_reportsOf (source : String) :
    (∀ d ∈ reportsOf source, 1 ≤ d.line ∧ d.line ≤ lineAfter source.toList) ∧
      ((reportsOf source).map Diagnostic.line).Pairwise (· ≤ ·) := by
  have hlines : ∀ s before d, Segment.report? s before = some d →
      lineAfter before ≤ d.line ∧ d.line ≤ lineAfter (before ++ s.text) := by
    intro s before d hd
    have hstep := lineAfter_le_append before s.text
    rcases line_of_report? hd with hline | hline
    · omega
    · omega
  have hfound := lines_foundAfter hlines [] (segments source)
  rw [List.nil_append, flatMap_text_segments] at hfound
  rw [reportsOf_eq]
  exact hfound

/-- Line bookkeeping is exact.  A token stands on the line of the place where its segment starts, an
unexpected character on the line where it stands, and an open text and the end token on the last
line; the counter has this value whenever a segment begins.  So the lines of tokens and those of
reports never decrease, and none exceeds the length of the source by more than one. -/
theorem lines_exact {σ : Type u} [Reporter σ] (source : String) (sink : σ) :
    (∀ place ∈ placed [] (segments source),
        ∃ after, source.toList = place.1 ++ (place.2.text ++ after)) ∧
      (∃ tokens, (scan source sink).1 = tokens ++ [.eof (lineAfter source.toList)] ∧
        List.Forall₂
          (fun place t => t.lexeme = .ofList place.2.text ∧ t.line = lineAfter place.1)
          ((placed [] (segments source)).filter fun place => place.2.isToken) tokens) ∧
      List.Forall₂
        (fun place d => place.2.complaint? = some (Diagnostic.message d) ∧
          d.line = faultLine source.toList place)
        ((placed [] (segments source)).filter fun place => place.2.complaint?.isSome)
        (reportsOf source) ∧
      (∀ count, (((segments source).take count).foldl Scan.absorb (.start sink)).line =
          lineAfter (((segments source).take count).flatMap Segment.text) ∧
        (((segments source).take count).foldl Scan.absorb (.start sink)).line ≤
          1 + source.length) ∧
      ((scan source sink).1.map Token.line).Pairwise (· ≤ ·) ∧
      ((reportsOf source).map Diagnostic.line).Pairwise (· ≤ ·) ∧
      (∀ t ∈ (scan source sink).1, t.line ≤ 1 + source.length) ∧
      (∀ d ∈ reportsOf source, d.line ≤ 1 + source.length) := by
  have hcut := cut_segments source
  have hlast : lineAfter source.toList ≤ 1 + source.length := by
    rw [← String.length_toList]
    exact lineAfter_le_length source.toList
  rcases lines_scan source sink with ⟨htokens, htokensSorted⟩
  rcases lines_reportsOf source with ⟨hreports, hreportsSorted⟩
  refine ⟨fun _ => exists_after_segments, ?_, ?_, ?_, htokensSorted, hreportsSorted, ?_, ?_⟩
  · rw [scan_eq]
    refine ⟨_, rfl, (forall₂_tokens hcut []).imp ?_⟩
    intro place t hfound
    exact ⟨hfound.1.lexeme, hfound.2⟩
  · rw [reportsOf_eq]
    exact forall₂_reports hcut []
  · intro count
    rcases counter_eq source sink count with ⟨hline, hpassed⟩
    rw [hline]
    exact ⟨rfl, Nat.le_trans hpassed hlast⟩
  · intro t ht
    exact Nat.le_trans (htokens t ht).2 hlast
  · intro d hd
    exact Nat.le_trans (hreports d hd).2 hlast

end LoxTokens
