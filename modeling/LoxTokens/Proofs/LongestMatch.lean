import Mathlib.Data.List.TakeWhile
import LoxTokens.Proofs.Grammar.Cut
import LoxTokens.Proofs.Movement

/-!
# Reading by longest match

A cursor reads the first segment that the grammar gives, so the segments of a source are its cut.

- `Lead.Furthest` is the longest match behind a first character
- `Cursor.finishSegment_spec` has one case for each lead
- `cut_segments` is the result for a whole source
-/

namespace LoxTokens

open Grammar

/-! ## Runs of characters -/

/-- A run at the beginning of a list is no longer than the longest run. -/
theorem length_le_length_takeWhile {p : Char → Bool} {run text : List Char}
    (h : run <+: text) (hrun : ∀ c ∈ run, p c = true) :
    run.length ≤ (text.takeWhile p).length := by
  rcases h with ⟨rest, rfl⟩
  rw [List.takeWhile_append_of_pos hrun]
  simp

theorem takeWhile_append_cons {p : Char → Bool} {run : List Char} {stop : Char}
    (hrun : ∀ c ∈ run, p c = true) (hstop : p stop = false) (rest : List Char) :
    (run ++ stop :: rest).takeWhile p = run := by
  rw [List.takeWhile_append_of_pos hrun]
  simp [hstop]

theorem dropWhile_append_cons {p : Char → Bool} {run : List Char} {stop : Char}
    (hrun : ∀ c ∈ run, p c = true) (hstop : p stop = false) (rest : List Char) :
    (run ++ stop :: rest).dropWhile p = stop :: rest := by
  rw [List.dropWhile_append_of_pos hrun]
  simp [hstop]

theorem forall_ne_of_notMem {run : List Char} {stop : Char} (h : stop ∉ run) :
    ∀ c ∈ run, (c != stop) = true := by
  intro c hc
  rw [bne_iff_ne]
  rintro rfl
  exact h hc

theorem notMem_takeWhile_ne (text : List Char) (stop : Char) :
    stop ∉ text.takeWhile (· != stop) := by
  intro hmem
  simpa using List.mem_takeWhile_imp hmem

/-- Where a run of other characters ends, the character that stops it stands, or nothing. -/
theorem dropWhile_ne_eq_nil {text : List Char} {stop : Char}
    (h : (text.dropWhile (· != stop)).head? ≠ some stop) : text.dropWhile (· != stop) = [] := by
  cases hrest : text.dropWhile (· != stop) with
  | nil => rfl
  | cons c rest =>
    have hc := List.head?_dropWhile_not (· != stop) text
    rw [hrest] at h hc
    have hstop : c = stop := by simpa using hc
    exact absurd (by rw [hstop]; rfl) h

namespace Grammar

theorem isNumeral_cons_iff {first : Char} {text : List Char} (hfirst : IsDigit first) :
    IsNumeral (first :: text) ↔
      (∀ c ∈ text, IsDigit c) ∨
        ∃ whole part, text = whole ++ '.' :: part ∧ (∀ c ∈ whole, IsDigit c) ∧ IsDigits part := by
  constructor
  · intro h
    generalize htext : first :: text = numeral at h
    cases h with
    | whole hdigits =>
      subst htext
      exact Or.inl fun c hc => hdigits.2 c (List.mem_cons_of_mem _ hc)
    | @fraction whole part hwhole hpart =>
      cases whole with
      | nil => exact absurd rfl hwhole.1
      | cons c whole =>
        rw [List.cons_append, List.cons.injEq] at htext
        have hothers := fun d hd => hwhole.2 d (List.mem_cons_of_mem c hd)
        exact Or.inr ⟨whole, part, htext.2, hothers, hpart⟩
  · rintro (htext | ⟨whole, part, rfl, hwhole, hpart⟩)
    · refine IsNumeral.whole ⟨by simp, ?_⟩
      simpa using ⟨hfirst, htext⟩
    · have hdigits : IsDigits (first :: whole) := ⟨by simp, by simpa using ⟨hfirst, hwhole⟩⟩
      exact IsNumeral.fraction hdigits hpart

end Grammar

/-! ## The longest match behind a first character -/

namespace Lead

/-- The longest way on from a first character. -/
structure Furthest (first : Char) (lead : Lead) (shape : Shape) (text rest : List Char) : Prop where
  continues : lead.Continues first shape text
  starts : text <+: rest
  longest : ∀ shape' other, lead.Continues first shape' other → other <+: rest →
    other.length ≤ text.length

theorem Furthest.longest_cons {first : Char} {shape : Shape} {text rest : List Char}
    (h : (Lead.ofChar first).Furthest first shape text rest) :
    Longest shape (first :: text) (first :: rest) where
  grammatical := matches_of_continues h.continues
  starts := List.prefix_cons_inj first |>.mpr h.starts
  longest := by
    intro shape' other hmatches hstarts
    rcases other with _ | ⟨c, other⟩
    · simp
    · rcases List.cons_prefix_cons.mp hstarts with ⟨rfl, hother⟩
      have := h.longest shape' other (continues_of_matches hmatches) hother
      simpa using this

/-- What a first character and the characters behind it come to: the longest match, or a fault. -/
inductive Result (first : Char) (lead : Lead) (rest : List Char) : Shape → List Char → Prop where
  | found {shape : Shape} {text : List Char} :
      lead.Furthest first shape text rest → Result first lead rest shape text
  | openText : lead = .quote → '"' ∉ rest → Result first lead rest .openText rest
  | stray : lead = .stray first → Result first lead rest (.stray first) []

end Lead

namespace Cursor

/-- A point belongs to a number if a digit stands behind it. -/
theorem point_iff (c : Cursor) :
    (c.peek? == some '.' && c.peekNext?.any Char.isDigit) = true ↔
      ∃ d rest, c.rest = '.' :: d :: rest ∧ d.isDigit = true := by
  unfold peek? peekNext?
  rcases c.rest with _ | ⟨point, _ | ⟨d, rest⟩⟩
  · simp
  · simp
  · simp only [List.head?_cons, List.tail_cons, Bool.and_eq_true, beq_iff_eq, Option.some.injEq,
      Option.any_some, List.cons.injEq]
    constructor
    · rintro ⟨rfl, hd⟩
      exact ⟨d, rest, ⟨rfl, rfl, rfl⟩, hd⟩
    · rintro ⟨d', rest', ⟨rfl, rfl, rfl⟩, hd⟩
      exact ⟨rfl, hd⟩

theorem furthest_fraction {first d : Char} {text rest : List Char} (hfirst : IsDigit first)
    (hrest : text.dropWhile Char.isDigit = '.' :: d :: rest) (hd : d.isDigit = true) :
    Lead.digit.Furthest first (.token .number)
      (text.takeWhile Char.isDigit ++ '.' :: (d :: rest).takeWhile Char.isDigit) text where
  continues := by
    refine ⟨rfl, (isNumeral_cons_iff hfirst).mpr (Or.inr ⟨_, _, rfl, ?_, ?_, ?_⟩)⟩
    · exact fun c hc => isDigit_iff.mp (List.mem_takeWhile_imp hc)
    · simp [hd]
    · exact fun c hc => isDigit_iff.mp (List.mem_takeWhile_imp hc)
  starts := by
    refine ⟨(d :: rest).dropWhile Char.isDigit, ?_⟩
    rw [List.append_assoc, List.cons_append, List.takeWhile_append_dropWhile, ← hrest,
      List.takeWhile_append_dropWhile]
  longest := by
    intro shape' other hother hstarts
    rcases (isNumeral_cons_iff hfirst).mp hother.2 with hdigits | ⟨whole, part, rfl, hwhole, hpart⟩
    · -- digits alone stop at the point
      have hrun : ∀ c ∈ other, c.isDigit = true := fun c hc => isDigit_iff.mpr (hdigits c hc)
      have := length_le_length_takeWhile hstarts hrun
      simp only [List.length_append]
      omega
    · -- both points stand behind the first digits, so they are the same
      rcases hstarts with ⟨behind, rfl⟩
      have hrun : ∀ c ∈ whole, c.isDigit = true := fun c hc => isDigit_iff.mpr (hwhole c hc)
      rw [List.append_assoc, List.cons_append] at hrest ⊢
      rw [dropWhile_append_cons hrun (by decide), List.cons.injEq] at hrest
      rw [takeWhile_append_cons hrun (by decide), ← hrest.2]
      have := length_le_length_takeWhile (p := Char.isDigit) (List.prefix_append part behind)
        fun c hc => isDigit_iff.mpr (hpart.2 c hc)
      simpa using this

theorem furthest_whole {first : Char} {text : List Char} (hfirst : IsDigit first)
    (hrest : ¬ ∃ d rest, text.dropWhile Char.isDigit = '.' :: d :: rest ∧ d.isDigit = true) :
    Lead.digit.Furthest first (.token .number) (text.takeWhile Char.isDigit) text where
  continues := by
    refine ⟨rfl, (isNumeral_cons_iff hfirst).mpr (Or.inl ?_)⟩
    exact fun c hc => isDigit_iff.mp (List.mem_takeWhile_imp hc)
  starts := List.takeWhile_prefix _
  longest := by
    intro shape' other hother hstarts
    rcases (isNumeral_cons_iff hfirst).mp hother.2 with hdigits | ⟨whole, part, rfl, hwhole, hpart⟩
    · have hrun : ∀ c ∈ other, c.isDigit = true := fun c hc => isDigit_iff.mpr (hdigits c hc)
      exact length_le_length_takeWhile hstarts hrun
    · -- a fraction needs the very point that is not there
      refine absurd ?_ hrest
      rcases hstarts with ⟨behind, rfl⟩
      rcases part with _ | ⟨d, part⟩
      · exact absurd rfl hpart.1
      · refine ⟨d, part ++ behind, ?_, isDigit_iff.mpr (hpart.2 d (by simp))⟩
        rw [List.append_assoc]
        exact dropWhile_append_cons (fun c hc => isDigit_iff.mpr (hwhole c hc)) (by decide) _

theorem finishNumber_spec (c : Cursor) {first : Char} (hfirst : IsDigit first) :
    ∃ text, c.Moves text c.finishNumber ∧
      Lead.digit.Furthest first (.token .number) text c.rest := by
  have hrun := c.moves_advanceWhile Char.isDigit
  unfold finishNumber
  dsimp only
  split
  · next hpoint =>
    -- the cursor moves over the digits, then the point, then the digits behind it
    rcases (point_iff _).mp hpoint with ⟨d, rest, hrest, hd⟩
    rcases advanceIf_of_rest hrest with ⟨moved, hmoved, hmoves⟩
    have hpart := moved.moves_advanceWhile Char.isDigit
    have hmovedRest : moved.rest = d :: rest := by
      simpa using hmoves.rest.symm.trans hrest
    rw [hmovedRest] at hpart
    rw [advanceWhile_rest] at hrest
    rw [hmoved]
    exact ⟨_, hrun.trans (hmoves.trans hpart), furthest_fraction hfirst hrest hd⟩
  · next hpoint =>
    rw [point_iff, advanceWhile_rest] at hpoint
    exact ⟨_, hrun, furthest_whole hfirst hpoint⟩

/-! ## The other leads -/

theorem furthest_nil {first : Char} {lead : Lead} {shape : Shape} {rest : List Char}
    (hcontinues : lead.Continues first shape [])
    (honly : ∀ shape' other, lead.Continues first shape' other → other <+: rest → other = []) :
    lead.Furthest first shape [] rest where
  continues := hcontinues
  starts := List.nil_prefix
  longest := by
    intro shape' other hother hstarts
    have hnil := honly shape' other hother hstarts
    exact Nat.le_of_eq (congrArg List.length hnil)

theorem furthest_comment {first : Char} {rest : List Char} :
    Lead.slash.Furthest first .comment ('/' :: rest.takeWhile (· != '\n')) ('/' :: rest) where
  continues := Or.inr ⟨rfl, _, notMem_takeWhile_ne rest '\n', rfl⟩
  starts := by
    rw [List.prefix_cons_inj]
    exact List.takeWhile_prefix _
  longest := by
    intro shape' other hother hstarts
    rcases hother with ⟨-, rfl⟩ | ⟨-, body, hbody, rfl⟩
    · simp
    · rw [List.prefix_cons_inj] at hstarts
      have := length_le_length_takeWhile hstarts (forall_ne_of_notMem hbody)
      simpa using this

theorem furthest_text {first : Char} {text rest : List Char}
    (hrest : text.dropWhile (· != '"') = '"' :: rest) :
    Lead.quote.Furthest first (.token .text) (text.takeWhile (· != '"') ++ ['"']) text where
  continues := ⟨rfl, _, notMem_takeWhile_ne text '"', rfl⟩
  starts := by
    refine ⟨rest, ?_⟩
    rw [List.append_assoc, List.singleton_append, ← hrest, List.takeWhile_append_dropWhile]
  longest := by
    intro shape' other hother hstarts
    rcases hother with ⟨-, body, hbody, rfl⟩
    have := length_le_length_takeWhile ((List.prefix_append body _).trans hstarts)
      (forall_ne_of_notMem hbody)
    simpa using this

theorem furthest_word {first : Char} {rest : List Char} :
    Lead.letter.Furthest first
      (.token (.ofWord (.ofList (first :: rest.takeWhile isWordPart))))
      (rest.takeWhile isWordPart) rest where
  continues := ⟨rfl, fun c hc => List.mem_takeWhile_imp hc⟩
  starts := List.takeWhile_prefix _
  longest := by
    intro shape' other hother hstarts
    exact length_le_length_takeWhile hstarts hother.2

/-- A segment is read on to the longest match, or to a fault. -/
theorem finishSegment_spec (c : Cursor) {first : Char} {lead : Lead} (hfits : lead.Fits first)
    (hlexeme : c.lexeme = [first]) :
    ∃ text, c.Moves text (c.finishSegment lead).2 ∧
      lead.Result first c.rest (c.finishSegment lead).1 text := by
  cases lead with
  | blank =>
    exact ⟨[], .refl c, .found (furthest_nil ⟨rfl, rfl⟩ fun _ _ h _ => h.2)⟩
  | punctuation kind =>
    exact ⟨[], .refl c, .found (furthest_nil ⟨rfl, rfl⟩ fun _ _ h _ => h.2)⟩
  | stray character =>
    cases hfits
    exact ⟨[], .refl c, .stray rfl⟩
  | comparison alone joined =>
    -- the longer operator is taken just if its second character stands there
    by_cases hequals : c.rest.head? = some '='
    · rcases List.head?_eq_some_iff.mp hequals with ⟨rest, hrest⟩
      rcases advanceIf_of_rest hrest with ⟨moved, hmoved, hmoves⟩
      simp only [finishSegment, hmoved]
      refine ⟨_, hmoves, .found ⟨Or.inr ⟨rfl, rfl⟩, hmoves.starts, ?_⟩⟩
      intro shape' other hother _
      rcases hother with ⟨-, rfl⟩ | ⟨-, rfl⟩ <;> simp
    · simp only [finishSegment, advanceIf_of_head?_ne hequals]
      refine ⟨[], .refl c, .found (furthest_nil (Or.inl ⟨rfl, rfl⟩) ?_)⟩
      intro shape' other hother hstarts
      rcases hother with ⟨-, rfl⟩ | ⟨-, rfl⟩
      · rfl
      · rcases hstarts with ⟨rest, hrest⟩
        simp [← hrest] at hequals
  | slash =>
    -- a second slash makes a comment, which goes on to the end of the line
    by_cases hslash : c.rest.head? = some '/'
    · rcases List.head?_eq_some_iff.mp hslash with ⟨rest, hrest⟩
      rcases advanceIf_of_rest hrest with ⟨moved, hmoved, hmoves⟩
      have hbody := moved.moves_advanceWhile (· != '\n')
      have hmovedRest : moved.rest = rest := by
        simpa using hmoves.rest.symm.trans hrest
      simp only [finishSegment, hmoved]
      refine ⟨_, hmoves.trans hbody, .found ?_⟩
      rw [hrest, hmovedRest]
      exact furthest_comment
    · simp only [finishSegment, advanceIf_of_head?_ne hslash]
      refine ⟨[], .refl c, .found (furthest_nil (Or.inl ⟨rfl, rfl⟩) ?_)⟩
      intro shape' other hother hstarts
      rcases hother with ⟨-, rfl⟩ | ⟨-, body, -, rfl⟩
      · rfl
      · rcases hstarts with ⟨rest, hrest⟩
        simp [← hrest] at hslash
  | quote =>
    -- the text goes on to the next quote, and is left open if there is none
    have hbody := c.moves_advanceWhile (· != '"')
    by_cases hquote : (c.advanceWhile (· != '"')).rest.head? = some '"'
    · rcases List.head?_eq_some_iff.mp hquote with ⟨rest, hrest⟩
      rcases advanceIf_of_rest hrest with ⟨moved, hmoved, hmoves⟩
      simp only [finishSegment, hmoved]
      rw [advanceWhile_rest] at hrest
      exact ⟨_, hbody.trans hmoves, .found (furthest_text hrest)⟩
    · simp only [finishSegment, advanceIf_of_head?_ne hquote]
      rw [advanceWhile_rest] at hquote
      have hall : c.rest.takeWhile (· != '"') = c.rest := by
        have := List.takeWhile_append_dropWhile (p := (· != '"')) (l := c.rest)
        rwa [dropWhile_ne_eq_nil hquote, List.append_nil] at this
      have hfree := notMem_takeWhile_ne c.rest '"'
      rw [hall] at hbody hfree
      exact ⟨_, hbody, .openText rfl hfree⟩
  | digit =>
    rcases c.finishNumber_spec hfits with ⟨text, hmoves, hfurthest⟩
    exact ⟨text, hmoves, .found hfurthest⟩
  | letter =>
    have hword := c.moves_advanceWhile isWordPart
    refine ⟨_, hword, .found ?_⟩
    simp only [finishSegment, hword.lexeme, hlexeme]
    exact furthest_word

end Cursor

/-! ## Whole segments -/

namespace Lead

theorem noMatch_of_openText {rest : List Char} (h : '"' ∉ rest) : NoMatch ('"' :: rest) := by
  intro shape text hmatches hstarts
  rcases text with _ | ⟨c, text⟩
  · exact hmatches.ne_nil rfl
  rcases List.cons_prefix_cons.mp hstarts with ⟨rfl, htext⟩
  rcases continues_of_matches hmatches with ⟨-, body, -, rfl⟩
  exact h (htext.subset (by simp))

theorem noMatch_of_stray {first : Char} {rest : List Char}
    (h : Lead.ofChar first = .stray first) : NoMatch (first :: rest) := by
  intro shape text hmatches hstarts
  rcases text with _ | ⟨c, text⟩
  · exact hmatches.ne_nil rfl
  rcases List.cons_prefix_cons.mp hstarts with ⟨rfl, -⟩
  have hcontinues := continues_of_matches hmatches
  rw [h] at hcontinues
  exact hcontinues

theorem Result.begins {first : Char} {text rest : List Char} {shape : Shape}
    (h : (Lead.ofChar first).Result first (text ++ rest) shape text) :
    Begins (first :: (text ++ rest)) { shape := shape, text := first :: text } rest := by
  have hfits := Lead.fits_ofChar first
  generalize hbehind : text ++ rest = behind at h
  cases h with
  | found hfurthest =>
    subst hbehind
    exact Begins.longest hfurthest.longest_cons
  | openText hlead hfree =>
    -- nothing is left behind an open text
    rw [hlead] at hfits
    cases hfits
    have hrest : rest = [] := by simpa using hbehind
    subst hrest
    exact Begins.openText (noMatch_of_openText hfree)
  | stray hlead =>
    subst hbehind
    refine Begins.stray ?_ (noMatch_of_stray hlead)
    rintro rfl
    revert hlead
    decide

end Lead

namespace Cursor

theorem next?_eq_none_iff (c : Cursor) : c.next? = none ↔ c.rest = [] := by
  unfold next?
  cases hadvance : c.restart.advance? with
  | none =>
    have hrest : c.restart.rest = [] := by
      unfold advance? at hadvance
      split at hadvance
      · assumption
      · exact nomatch hadvance
    simpa using hrest
  | some found =>
    rcases found with ⟨first, moved⟩
    have hrest : c.restart.rest = first :: moved.rest := advance?_rest hadvance
    rw [restart_rest] at hrest
    simp [hrest]

/-- A cursor reads the first segment of what is left, and leaves what the grammar leaves. -/
theorem next?_spec {c after : Cursor} {s : Segment} (h : c.next? = some (s, after)) :
    Begins c.rest s after.rest ∧ c.restart.Moves s.text after := by
  unfold next? at h
  split at h
  · exact nomatch h
  · next first moved hfirst =>
    have hmoves := moves_of_advance? hfirst
    have hlexeme : moved.lexeme = [first] := hmoves.lexeme
    rcases moved.finishSegment_spec (Lead.fits_ofChar first) hlexeme with ⟨text, htext, hresult⟩
    generalize moved.finishSegment (.ofChar first) = finished at h htext hresult
    rcases finished with ⟨shape, final⟩
    cases h
    have hall := hmoves.trans htext
    have hfinal : after.lexeme = first :: text := hall.lexeme
    have hrest : c.rest = first :: (text ++ after.rest) := hall.rest
    rw [htext.rest] at hresult
    rw [hrest, hfinal]
    exact ⟨hresult.begins, hall⟩

/-- The segments from a cursor on are the cut of what is left. -/
theorem cut_segmentsOnto (done : Array Segment) (c : Cursor) :
    ∃ cut, (c.segmentsOnto done).toList = done.toList ++ cut ∧ Cut c.rest cut := by
  fun_induction segmentsOnto done c with
  | case1 done c hnone =>
    rw [(next?_eq_none_iff c).mp hnone]
    exact ⟨[], by simp, .done⟩
  | case2 done c s after hnext ih =>
    rcases ih with ⟨cut, hsegments, hcut⟩
    refine ⟨s :: cut, ?_, .next (next?_spec hnext).1 hcut⟩
    rw [hsegments]
    simp

end Cursor

/-- The segments of a source are its cut by longest match. -/
theorem cut_segments (source : String) : Cut source.toList (segments source) := by
  rcases (Cursor.ofText source.toList).cut_segmentsOnto #[] with ⟨cut, hsegments, hcut⟩
  have heq : segments source = cut := by simpa [segments] using hsegments
  rw [heq]
  exact hcut

theorem cut_iff {source : String} {cut : List Segment} :
    Cut source.toList cut ↔ cut = segments source := by
  constructor
  · intro h
    exact h.unique (cut_segments source)
  · rintro rfl
    exact cut_segments source

/-- Nothing of a source is lost. -/
theorem flatMap_text_segments (source : String) :
    (segments source).flatMap Segment.text = source.toList :=
  (cut_segments source).flatMap_text

end LoxTokens
