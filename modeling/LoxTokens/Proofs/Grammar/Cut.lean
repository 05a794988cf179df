import LoxTokens.Proofs.Grammar.Lead

/-!
# Cuts

A cut by longest match uses up its input, and it is the only one.

- `Grammar.Begins.unique` is the same for one segment
- `Grammar.Cut.unique` follows from it
- `Grammar.CutTo` cuts an input up to a place
-/

namespace LoxTokens

namespace Grammar

/-! ## The first segment -/

theorem Longest.text_eq {shape shape' : Shape} {text text' input : List Char}
    (h : Longest shape text input) (h' : Longest shape' text' input) : text = text' := by
  have hle : text.length ≤ text'.length := h'.longest _ _ h.grammatical h.starts
  have hge : text'.length ≤ text.length := h.longest _ _ h'.grammatical h'.starts
  have hprefix : text <+: text' := List.prefix_of_prefix_length_le h.starts h'.starts hle
  exact hprefix.eq_of_length (Nat.le_antisymm hle hge)

theorem Longest.not_noMatch {shape : Shape} {text input : List Char}
    (h : Longest shape text input) : ¬ NoMatch input :=
  fun hnone => hnone _ _ h.grammatical h.starts

/-- A segment and what is left behind it make up the input. -/
theorem Begins.text_append {input rest : List Char} {s : Segment} (h : Begins input s rest) :
    s.text ++ rest = input := by
  cases h with
  | longest _ => rfl
  | openText _ => simp
  | stray _ _ => rfl

theorem Begins.text_ne_nil {input rest : List Char} {s : Segment} (h : Begins input s rest) :
    s.text ≠ [] := by
  cases h with
  | longest hlongest => exact hlongest.grammatical.ne_nil
  | openText _ => simp
  | stray _ _ => simp

/-- Nothing begins an empty input. -/
theorem Begins.input_ne_nil {input rest : List Char} {s : Segment} (h : Begins input s rest) :
    input ≠ [] := by
  rintro rfl
  exact h.text_ne_nil (List.append_eq_nil_iff.mp h.text_append).1

/-- A first segment that is no fault is a match. -/
theorem Begins.grammatical {input rest : List Char} {s : Segment} (h : Begins input s rest)
    (hopen : s.shape ≠ .openText) (hstray : ∀ c, s.shape ≠ .stray c) : Matches s.shape s.text := by
  cases h with
  | longest hlongest => exact hlongest.grammatical
  | openText _ => exact absurd rfl hopen
  | @stray c _ _ _ => exact absurd rfl (hstray c)

/-- A text without its closing quote takes all there is. -/
theorem Begins.eq_of_openText {input rest : List Char} {s : Segment} (h : Begins input s rest)
    (hshape : s.shape = .openText) :
    ∃ body, NoMatch ('"' :: body) ∧ input = '"' :: body ∧
      s = { shape := .openText, text := '"' :: body } ∧ rest = [] := by
  cases h with
  | longest hlongest =>
    have hmatches := hlongest.grammatical
    cases hshape
    cases hmatches
  | @openText body hnone => exact ⟨body, hnone, rfl, rfl, rfl⟩
  | stray _ _ => cases hshape

theorem Begins.rest_of_openText {input rest : List Char} {s : Segment} (h : Begins input s rest)
    (hshape : s.shape = .openText) : rest = [] := by
  rcases h.eq_of_openText hshape with ⟨_, -, -, -, hrest⟩
  exact hrest

/-- A character that begins nothing is taken alone. -/
theorem Begins.eq_of_stray {input rest : List Char} {s : Segment} {c : Char}
    (h : Begins input s rest) (hshape : s.shape = .stray c) :
    NoMatch (c :: rest) ∧ input = c :: rest ∧ s = { shape := .stray c, text := [c] } := by
  cases h with
  | longest hlongest =>
    have hmatches := hlongest.grammatical
    cases hshape
    cases hmatches
  | openText _ => cases hshape
  | @stray c' rest _ hnone =>
    cases hshape
    exact ⟨hnone, rfl, rfl⟩

/-- A newline is never unexpected. -/
theorem Begins.ne_newline_of_stray {input rest : List Char} {s : Segment} {c : Char}
    (h : Begins input s rest) (hshape : s.shape = .stray c) : c ≠ '\n' := by
  rintro rfl
  rcases h.eq_of_stray hshape with ⟨hnone, -, -⟩
  exact hnone .blank ['\n'] (Matches.blank (by decide)) (List.prefix_append ['\n'] rest)

/-- An input has one first segment at most. -/
theorem Begins.unique {input rest rest' : List Char} {s s' : Segment} (h : Begins input s rest)
    (h' : Begins input s' rest') : s = s' ∧ rest = rest' := by
  -- A match and a fault exclude each other, since a fault is taken only where nothing matches.
  cases h with
  | @longest shape text rest hlongest =>
    generalize hinput : text ++ rest = input at h'
    cases h' with
    | longest hlongest' =>
      -- two longest matches of one input have the same text, so they have the same shape
      rw [← hinput] at hlongest'
      have htext := hlongest.text_eq hlongest'
      subst htext
      rw [List.append_cancel_left_eq] at hinput
      exact ⟨by rw [hlongest.grammatical.shape_eq hlongest'.grammatical], hinput⟩
    | openText hnone => exact absurd (hinput ▸ hnone) hlongest.not_noMatch
    | stray _ hnone => exact absurd (hinput ▸ hnone) hlongest.not_noMatch
  | @openText rest hnone =>
    generalize hinput : '"' :: rest = input at h'
    cases h' with
    | longest hlongest => exact absurd (hinput ▸ hnone) hlongest.not_noMatch
    | openText _ =>
      cases hinput
      exact ⟨rfl, rfl⟩
    | stray hquote _ =>
      cases hinput
      exact absurd rfl hquote
  | @stray c rest hquote hnone =>
    generalize hinput : c :: rest = input at h'
    cases h' with
    | longest hlongest => exact absurd (hinput ▸ hnone) hlongest.not_noMatch
    | openText _ =>
      cases hinput
      exact absurd rfl hquote
    | stray _ _ =>
      cases hinput
      exact ⟨rfl, rfl⟩

/-! ## Whole cuts -/

/-- The segments of a cut make up the input. -/
theorem Cut.flatMap_text {input : List Char} {cut : List Segment} (h : Cut input cut) :
    cut.flatMap Segment.text = input := by
  induction h with
  | done => rfl
  | @next input rest s others hbegins _ ih =>
    calc
      (s :: others).flatMap Segment.text
          = s.text ++ others.flatMap Segment.text := List.flatMap_cons
      _ = s.text ++ rest := by rw [ih]
      _ = input := hbegins.text_append

theorem Cut.text_ne_nil {input : List Char} {cut : List Segment} (h : Cut input cut) :
    ∀ s ∈ cut, s.text ≠ [] := by
  induction h with
  | done => exact nofun
  | next hbegins _ ih => exact List.forall_mem_cons.mpr ⟨hbegins.text_ne_nil, ih⟩

/-- There is one way only to cut an input. -/
theorem Cut.unique {input : List Char} {cut cut' : List Segment} (h : Cut input cut)
    (h' : Cut input cut') : cut = cut' := by
  induction h generalizing cut' with
  | done =>
    cases h' with
    | done => rfl
    | next hbegins _ => exact absurd rfl hbegins.input_ne_nil
  | next hbegins _ ih =>
    cases h' with
    | done => exact absurd rfl hbegins.input_ne_nil
    | next hbegins' hothers' =>
      rcases hbegins.unique hbegins' with ⟨rfl, rfl⟩
      rw [ih hothers']

/-! ## Cuts up to a place -/

/-- An input cut from left to right up to the place where `rest` is left. -/
inductive CutTo : List Char → List Segment → List Char → Prop where
  | here {input : List Char} : CutTo input [] input
  | next {input mid rest : List Char} {s : Segment} {others : List Segment} :
      Begins input s mid → CutTo mid others rest → CutTo input (s :: others) rest

theorem CutTo.text_append {input rest : List Char} {cut : List Segment}
    (h : CutTo input cut rest) : cut.flatMap Segment.text ++ rest = input := by
  induction h with
  | here => rfl
  | @next input mid rest s others hbegins _ ih =>
    calc
      (s :: others).flatMap Segment.text ++ rest
          = s.text ++ (others.flatMap Segment.text ++ rest) := by
            rw [List.flatMap_cons, List.append_assoc]
      _ = s.text ++ mid := by rw [ih]
      _ = input := hbegins.text_append

theorem CutTo.append {input mid rest : List Char} {cut more : List Segment}
    (h : CutTo input cut mid) (h' : CutTo mid more rest) : CutTo input (cut ++ more) rest := by
  induction h with
  | here => exact h'
  | next hbegins _ ih => exact .next hbegins (ih h')

theorem CutTo.cut {input rest : List Char} {cut more : List Segment} (h : CutTo input cut rest)
    (h' : Cut rest more) : Cut input (cut ++ more) := by
  induction h with
  | here => exact h'
  | next hbegins _ ih => exact .next hbegins (ih h')

theorem Cut.cutTo {input : List Char} {cut : List Segment} (h : Cut input cut) :
    CutTo input cut [] := by
  induction h with
  | done => exact .here
  | next hbegins _ ih => exact .next hbegins ih

/-- Nothing is cut off an empty input. -/
theorem CutTo.of_nil {rest : List Char} {cut : List Segment} (h : CutTo [] cut rest) :
    cut = [] ∧ rest = [] := by
  cases h with
  | here => exact ⟨rfl, rfl⟩
  | next hbegins _ => exact absurd rfl hbegins.input_ne_nil

/-- A cut falls apart wherever its segments are divided. -/
theorem CutTo.split {input rest : List Char} {cut more : List Segment}
    (h : CutTo input (cut ++ more) rest) : ∃ mid, CutTo input cut mid ∧ CutTo mid more rest := by
  induction cut generalizing input with
  | nil => exact ⟨input, .here, h⟩
  | cons s others ih =>
    cases h with
    | next hbegins hothers =>
      rcases ih hothers with ⟨mid, hcut, hmore⟩
      exact ⟨mid, .next hbegins hcut, hmore⟩

theorem CutTo.begins {input rest : List Char} {s : Segment} (h : CutTo input [s] rest) :
    Begins input s rest := by
  cases h with
  | next hbegins hothers =>
    cases hothers with
    | here => exact hbegins

theorem CutTo.cut_of_nil {input : List Char} {cut : List Segment} (h : CutTo input cut []) :
    Cut input cut := by
  have hall := h.cut .done
  rwa [List.append_nil] at hall

theorem Cut.split {input : List Char} {cut more : List Segment} (h : Cut input (cut ++ more)) :
    ∃ rest, CutTo input cut rest ∧ Cut rest more := by
  rcases h.cutTo.split with ⟨rest, hcut, hmore⟩
  exact ⟨rest, hcut, hmore.cut_of_nil⟩

end Grammar

end LoxTokens
