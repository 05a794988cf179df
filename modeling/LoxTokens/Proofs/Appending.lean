import LoxTokens.Proofs.Lookahead
import LoxTokens.Proofs.Spelling

/-!
# Appending text

Text put behind a source changes what a scan finds only at the end of the source, wherever the
source is split, also in the middle of a segment.

- `Grammar.Unsettled` is said of the segments at the end that more text may change
- `Grammar.exists_unsettled_of_longer` says that a match which goes on in the new text touches two
  segments at most, and no fault
- `Grammar.Cut.settled` is what follows for a whole cut
- `scan_append_tail` is the result
-/

namespace LoxTokens

universe u

open Grammar

namespace Grammar

/-! ## Segments that a longer match takes in -/

/-- Segments at the end of an input that may become others if the input goes on. -/
structure Unsettled (cut : List Segment) : Prop where
  few : cut.length ≤ 2
  sound : ∀ s ∈ cut, ∀ c, s.shape ≠ .stray c

theorem unsettled_nil : Unsettled [] where
  few := Nat.zero_le 2
  sound := nofun

theorem unsettled_singleton {s : Segment} (h : ∀ c, s.shape ≠ .stray c) : Unsettled [s] where
  few := Nat.le_succ 1
  sound := List.forall_mem_singleton.mpr h

/-- An input that is one segment is cut into an unsettled one. -/
theorem Matches.exists_unsettled {shape : Shape} {input : List Char} (h : Matches shape input) :
    ∃ cut, Cut input cut ∧ Unsettled cut := by
  refine ⟨_, .next h.begins .done, unsettled_singleton ?_⟩
  rintro c rfl
  cases h

/-- Digits and a point behind them are a number and a point. -/
theorem exists_unsettled_point {digits : List Char} (h : IsNumeral digits) :
    ∃ cut, Cut (digits ++ ['.']) cut ∧ Unsettled cut := by
  have hnumber : Matches (.token .number) digits := Matches.number h
  have hdot : Matches (.token .dot) ['.'] := Matches.operator (by decide)
  have hwithin : Within digits ['.'] := by
    rw [within_number hnumber]
    refine ⟨?_, ?_⟩
    · intro c hc
      cases hc
      decide
    · intro _ d hstarts
      exact absurd hstarts.length_le (Nat.not_succ_le_self 1)
  refine ⟨_, .next (hnumber.begins_iff_within.mpr hwithin) (.next hdot.begins .done), ?_⟩
  refine ⟨Nat.le_refl 2, ?_⟩
  simp

/-- The beginning of a numeral is a numeral, or a numeral and a point. -/
theorem exists_unsettled_of_numeral {first c : Char} {others behind : List Char}
    (h : IsNumeral (first :: (others ++ c :: behind))) :
    ∃ cut, Cut (first :: others) cut ∧ Unsettled cut := by
  have hfirst := h.isDigit_head
  have hdigits : (∀ d ∈ others, IsDigit d) → IsNumeral (first :: others) := fun hall =>
    (isNumeral_cons_iff hfirst).mpr (Or.inl hall)
  rcases (isNumeral_cons_iff hfirst).mp h with hall | ⟨whole, part, heq, hwhole, hpart⟩
  · have hothers : ∀ d ∈ others, IsDigit d := fun d hd => hall d (List.mem_append_left _ hd)
    exact (Matches.number (hdigits hothers)).exists_unsettled
  · rcases List.append_eq_append_iff.mp heq with ⟨more, rfl, -⟩ | ⟨more, rfl, hmore⟩
    · -- the input ends in front of the point
      have hothers : ∀ d ∈ others, IsDigit d := fun d hd => hwhole d (List.mem_append_left _ hd)
      exact (Matches.number (hdigits hothers)).exists_unsettled
    · rcases more with _ | ⟨point, more⟩
      · rw [List.append_nil] at hdigits ⊢
        exact (Matches.number (hdigits hwhole)).exists_unsettled
      · rw [List.cons_append, List.cons.injEq] at hmore
        rcases hmore with ⟨rfl, rfl⟩
        rcases more with _ | ⟨d, more⟩
        · -- the input ends right behind the point
          exact exists_unsettled_point ((isNumeral_cons_iff hfirst).mpr (Or.inl hwhole))
        · have hmore : IsDigits (d :: more) :=
            ⟨List.cons_ne_nil d more, fun e he => hpart.2 e (List.mem_append_left _ he)⟩
          have hnumeral : IsNumeral (first :: (whole ++ '.' :: d :: more)) :=
            (isNumeral_cons_iff hfirst).mpr (Or.inr ⟨whole, _, rfl, hwhole, hmore⟩)
          exact (Matches.number hnumeral).exists_unsettled

/-- What a match begins with is one segment, or a number and a point.  No stray character is among
them. -/
theorem exists_unsettled_of_longer {shape : Shape} {input behind : List Char} {c : Char}
    (h : Matches shape (input ++ c :: behind)) : ∃ cut, Cut input cut ∧ Unsettled cut := by
  rcases input with _ | ⟨first, others⟩
  · exact ⟨[], .done, unsettled_nil⟩
  have hfits := Lead.fits_ofChar first
  have hlonger : (Lead.ofChar first).Continues first shape (others ++ c :: behind) :=
    continues_of_matches h
  cases hlead : Lead.ofChar first with rw [hlead] at hlonger hfits
  | blank => exact absurd hlonger.2 (by simp)
  | punctuation kind => exact absurd hlonger.2 (by simp)
  | comparison alone joined =>
    rcases hlonger with ⟨-, hnil⟩ | ⟨-, hequals⟩
    · exact absurd hnil (by simp)
    · rcases List.append_eq_singleton_iff.mp hequals with ⟨rfl, -⟩ | ⟨-, hnil⟩
      · have halone : (Lead.ofChar first).Continues first (.token alone) [] := by
          rw [hlead]
          exact Or.inl ⟨rfl, rfl⟩
        exact (matches_of_continues halone).exists_unsettled
      · exact absurd hnil (List.cons_ne_nil c behind)
  | slash =>
    cases hfits
    rcases hlonger with ⟨-, hnil⟩ | ⟨-, body, hbody, hslash⟩
    · exact absurd hnil (by simp)
    · rcases others with _ | ⟨second, others⟩
      · have hslash : Matches (.token .slash) ['/'] := Matches.operator (by decide)
        exact hslash.exists_unsettled
      · rw [List.cons_append, List.cons.injEq] at hslash
        rcases hslash with ⟨rfl, rfl⟩
        have hfree : '\n' ∉ others := fun hmem => hbody (List.mem_append_left _ hmem)
        exact (Matches.comment hfree).exists_unsettled
  | quote =>
    -- the text is open as long as the second quote is missing
    cases hfits
    rcases hlonger with ⟨-, body, hbody, heq⟩
    have hle : others.length ≤ body.length := by
      have hlength := congrArg List.length heq
      simp only [List.length_append, List.length_cons, List.length_nil] at hlength
      omega
    have hstarts : others <+: body :=
      List.prefix_of_prefix_length_le ⟨c :: behind, heq⟩ (List.prefix_append _ _) hle
    have hfree : '"' ∉ others := fun hmem => hbody (hstarts.subset hmem)
    exact ⟨_, .next (Begins.openText (Lead.noMatch_of_openText hfree)) .done,
      unsettled_singleton nofun⟩
  | digit => exact exists_unsettled_of_numeral hlonger.2
  | letter =>
    have hword : (Lead.ofChar first).Continues first
        (.token (.ofWord (.ofList (first :: others)))) others := by
      rw [hlead]
      exact ⟨rfl, fun d hd => hlonger.2 d (List.mem_append_left _ hd)⟩
    exact (matches_of_continues hword).exists_unsettled
  | stray character => exact absurd hlonger id

/-! ## Cuts of longer inputs -/

/-- A first segment stays what it is if the input goes on, or it is among the last two segments of
the input, and neither of these is a stray character. -/
theorem Begins.append_or_unsettled {input rest : List Char} {s : Segment} {others : List Segment}
    (h : Begins input s rest) (hothers : Cut rest others) (hclosed : s.shape ≠ .openText)
    (more : List Char) :
    Begins (input ++ more) s (rest ++ more) ∨ Unsettled (s :: others) := by
  by_cases hwithin : Within input more
  · exact Or.inl (h.append hclosed hwithin)
  · right
    have hlonger : ∃ shape c behind, Matches shape (input ++ c :: behind) := by
      by_contra hnone
      refine hwithin (within_iff.mpr fun shape c behind hmatches _ => ?_)
      exact hnone ⟨shape, c, behind, hmatches⟩
    rcases hlonger with ⟨shape, c, behind, hmatches⟩
    rcases exists_unsettled_of_longer hmatches with ⟨cut, hcut, hunsettled⟩
    rwa [hcut.unique (.next h hothers)] at hunsettled

/-- Whatever is put behind an input, its cut stays as it is up to the unsettled segments. -/
theorem Cut.settled {input : List Char} {cut : List Segment} (h : Cut input cut)
    (more : List Char) :
    ∃ kept pending rest, cut = kept ++ pending ∧ CutTo (input ++ more) kept rest ∧
      Closed kept ∧ Unsettled pending := by
  induction h with
  | done => exact ⟨[], [], more, rfl, .here, nofun, unsettled_nil⟩
  | @next input rest s others hbegins hothers ih =>
    by_cases hopen : s.shape = .openText
    · -- nothing stands behind an open text
      have hrest := hbegins.rest_of_openText hopen
      subst hrest
      have hnone : others = [] := hothers.unique .done
      refine ⟨[], s :: others, _, rfl, .here, nofun, ?_⟩
      rw [hnone]
      exact unsettled_singleton fun c hc => nomatch hopen.symm.trans hc
    · rcases hbegins.append_or_unsettled hothers hopen more with hlonger | hunsettled
      · rcases ih with ⟨kept, pending, last, rfl, hcut, hclosed, hunsettled⟩
        exact ⟨s :: kept, pending, last, rfl, .next hlonger hcut, hclosed.cons hopen, hunsettled⟩
      · exact ⟨[], s :: others, _, rfl, .here, nofun, hunsettled⟩

end Grammar

/-- The segments of a longer source begin with those of the shorter one, up to the unsettled ones.
-/
theorem segments_append_settled (a b : String) :
    ∃ kept pending others, segments a = kept ++ pending ∧ segments (a ++ b) = kept ++ others ∧
      Closed kept ∧ Unsettled pending := by
  rcases (cut_segments a).settled b.toList with
    ⟨kept, pending, rest, hsegments, hcut, hclosed, hunsettled⟩
  have hrest := cut_segments (String.ofList rest)
  rw [String.toList_ofList] at hrest
  refine ⟨kept, pending, segments (.ofList rest), hsegments, ?_, hclosed, hunsettled⟩
  have hwhole := hcut.cut hrest
  rw [← String.toList_append] at hwhole
  exact (cut_iff.mp hwhole).symm

/-! ## Tokens -/

theorem Grammar.Matches.kind_ne_eof {kind : TokenKind} {text : List Char}
    (h : Matches (.token kind) text) : kind ≠ .eof := by
  generalize hshape : Shape.token kind = shape at h
  cases h with
  | blank _ => cases hshape
  | comment _ => cases hshape
  | operator hoperator =>
    cases hshape
    have table : ∀ entry ∈ operators, entry.2 ≠ .eof := by decide
    exact table _ hoperator
  | reserved hword =>
    cases hshape
    have table : ∀ entry ∈ reservedWords, entry.2 ≠ .eof := by decide
    exact table _ hword
  | _ =>
    cases hshape
    decide

/-- The end token is the only one of its kind. -/
theorem filter_tokensOf (source : String) :
    ((tokensOf source).filter fun t => t.kind ≠ .eof) =
      foundAfter Segment.token? [] (segments source) := by
  have hproper : ∀ t ∈ foundAfter Segment.token? [] (segments source),
      decide (t.kind ≠ .eof) = true := by
    intro t ht
    rcases exists_lexeme_of_mem_foundAfter (cut_segments source) ht with
      ⟨kind, text, line, hmatches, rfl⟩
    exact decide_eq_true hmatches.kind_ne_eof
  rw [tokensOf_eq, List.filter_append, List.filter_eq_self.mpr hproper]
  exact List.append_nil _

theorem length_foundAfter_le (before : List Char) (cut : List Segment) :
    (foundAfter Segment.token? before cut).length ≤ cut.length := by
  calc
    (foundAfter Segment.token? before cut).length ≤ (placed before cut).length :=
          List.length_filterMap_le _ _
    _ = ((placed before cut).map Prod.snd).length := (List.length_map _).symm
    _ = cut.length := by rw [map_snd_placed]

/-- Without its last two elements a list has nothing of its last two. -/
theorem dropLast_dropLast_starts {α : Type u} {front back : List α} (h : back.length ≤ 2) :
    (front ++ back).dropLast.dropLast <+: front := by
  rcases back with _ | ⟨x, _ | ⟨y, _ | ⟨z, back⟩⟩⟩
  · rw [List.append_nil]
    exact (List.dropLast_prefix _).trans (List.dropLast_prefix _)
  · rw [List.dropLast_concat]
    exact List.dropLast_prefix _
  · have hfront : (front ++ [x, y]).dropLast.dropLast = front := by
      rw [List.append_cons, List.dropLast_concat, List.dropLast_concat]
    exact ⟨[], (List.append_nil _).trans hfront⟩
  · simp at h

/-! ## Reports -/

/-- A report about a character that begins nothing. -/
def Diagnostic.IsUnexpected (d : Diagnostic) : Prop :=
  ∃ c, d.message = "Unexpected character '" ++ String.singleton c ++ "'."

/-- The character is part of the message, so only the characters of the message need be tried. -/
theorem Diagnostic.isUnexpected_iff {d : Diagnostic} :
    (d.message.toList.any fun c =>
      decide (d.message = "Unexpected character '" ++ String.singleton c ++ "'.")) = true ↔
      d.IsUnexpected := by
  rw [List.any_eq_true]
  constructor
  · rintro ⟨c, -, hmessage⟩
    exact ⟨c, of_decide_eq_true hmessage⟩
  · rintro ⟨c, hmessage⟩
    refine ⟨c, ?_, decide_eq_true hmessage⟩
    rw [hmessage, String.toList_append, String.toList_append, String.toList_singleton]
    simp

instance : DecidablePred Diagnostic.IsUnexpected :=
  fun _ => decidable_of_iff _ Diagnostic.isUnexpected_iff

theorem not_isUnexpected_unterminated (line : Nat) :
    ¬ (LexicalError.unterminatedString line).diagnostic.IsUnexpected := by
  rintro ⟨c, hmessage⟩
  exact unexpected_ne_unterminated c hmessage.symm

/-- A report is about an unexpected character, unless it is about an open text. -/
theorem Segment.isUnexpected_iff {s : Segment} {before : List Char} {d : Diagnostic}
    (h : s.report? before = some d) :
    (d.IsUnexpected ↔ s.shape ≠ .openText) ∧
      (s.shape = .openText ∨ ∃ c, s.shape = .stray c) := by
  unfold Segment.report? Segment.error? at h
  cases hshape : s.shape with rw [hshape] at h
  | stray c =>
    cases h
    exact ⟨iff_of_true ⟨c, rfl⟩ nofun, Or.inr ⟨c, rfl⟩⟩
  | openText =>
    cases h
    exact ⟨iff_of_false (not_isUnexpected_unterminated _) fun hne => hne rfl, Or.inl rfl⟩
  | _ => cases h

theorem exists_segment_of_mem_foundAfter {β : Type u} {found? : Segment → List Char → Option β}
    {before : List Char} {cut : List Segment} {found : β}
    (h : found ∈ foundAfter found? before cut) :
    ∃ s ∈ cut, ∃ front, found? s front = some found := by
  rcases List.mem_filterMap.mp h with ⟨place, hplace, hfound⟩
  refine ⟨place.2, ?_, place.1, hfound⟩
  rw [← map_snd_placed before cut]
  exact List.mem_map_of_mem hplace

theorem isUnexpected_of_closed {before : List Char} {cut : List Segment} (hclosed : Closed cut)
    {d : Diagnostic} (h : d ∈ foundAfter Segment.report? before cut) : d.IsUnexpected := by
  rcases exists_segment_of_mem_foundAfter h with ⟨s, hs, front, hreport⟩
  exact (Segment.isUnexpected_iff hreport).1.mpr (hclosed s hs)

theorem not_isUnexpected_of_unsettled {before : List Char} {cut : List Segment}
    (hunsettled : Unsettled cut) {d : Diagnostic}
    (h : d ∈ foundAfter Segment.report? before cut) : ¬ d.IsUnexpected := by
  rcases exists_segment_of_mem_foundAfter h with ⟨s, hs, front, hreport⟩
  rcases Segment.isUnexpected_iff hreport with ⟨hiff, hopen | ⟨c, hstray⟩⟩
  · exact fun hunexpected => hiff.mp hunexpected hopen
  · exact absurd hstray (hunsettled.sound s hs c)

/-- The unexpected characters of a source are those of its settled segments. -/
theorem filter_reports_settled {kept pending : List Segment} (hclosed : Closed kept)
    (hunsettled : Unsettled pending) :
    ((foundAfter Segment.report? [] (kept ++ pending)).filter fun d => d.IsUnexpected) =
      foundAfter Segment.report? [] kept := by
  rw [foundAfter_append, List.filter_append, List.filter_eq_self.mpr,
    List.filter_eq_nil_iff.mpr, List.append_nil]
  · intro d hd
    rw [decide_eq_true_iff]
    exact not_isUnexpected_of_unsettled hunsettled hd
  · intro d hd
    exact decide_eq_true (isUnexpected_of_closed hclosed hd)

/-- Appended text disturbs only the tail.  Wherever a text is split in two, the tokens of the first
part, its end token and the last two apart, are the first tokens of the whole, with their lines and
values, and the reports of unexpected characters in the first part are the first reports about the
whole. -/
theorem scan_append_tail (a b : String) :
    ((tokensOf a).filter fun t => t.kind ≠ .eof).dropLast.dropLast <+: tokensOf (a ++ b) ∧
      ((reportsOf a).filter fun d => d.IsUnexpected) <+: reportsOf (a ++ b) := by
  rcases segments_append_settled a b with ⟨kept, pending, others, ha, hab, hclosed, hunsettled⟩
  refine ⟨?_, ?_⟩
  · have hfew := (length_foundAfter_le (kept.flatMap Segment.text) pending).trans hunsettled.few
    rw [filter_tokensOf, ha, foundAfter_append, tokensOf_eq, hab, foundAfter_append,
      List.append_assoc]
    exact (dropLast_dropLast_starts hfew).trans (List.prefix_append _ _)
  · rw [reportsOf_eq, reportsOf_eq, ha, hab, filter_reports_settled hclosed hunsettled,
      foundAfter_append]
    exact List.prefix_append _ _

-- two tokens are lost where a number, a point and a number become one number
example : ((tokensOf "x 1.").map Token.lexeme, (tokensOf ("x 1." ++ "5")).map Token.lexeme) =
    (["x", "1", ".", ""], ["x", "1.5", ""]) := by
  decide +kernel

end LoxTokens
