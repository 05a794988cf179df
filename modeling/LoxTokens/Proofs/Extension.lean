import LoxTokens.Proofs.LongestMatch

/-!
# Shorter and longer inputs

What becomes of a first segment when the input stops behind it, and when the input goes on.

- `Grammar.Begins.of_append` takes text away behind the segment, which changes nothing
- `Grammar.Begins.append` puts text behind the input, which changes nothing unless a match reaches
  into the new text
- `Grammar.Separates` is said of characters at which all matches end but texts and comments
- `Grammar.CutTo.append_separator` puts text behind an input that begins with such a character
- `Grammar.Cut.cutTo_of_newline` is what follows for an input that ends with a newline
-/

namespace LoxTokens

namespace Grammar

/-! ## Taking text away behind a segment -/

theorem NoMatch.of_append {input more : List Char} (h : NoMatch (input ++ more)) :
    NoMatch input :=
  fun shape text hmatches hstarts =>
    h shape text hmatches (hstarts.trans (List.prefix_append _ _))

/-- A first segment stays the same if the input stops somewhere behind it: what does not match in
the longer input does not match in the shorter one. -/
theorem Begins.of_append {input rest more : List Char} {s : Segment}
    (h : Begins (input ++ more) s (rest ++ more)) (hinput : input = s.text ++ rest) :
    Begins input s rest := by
  generalize hall : input ++ more = all at h
  generalize hbehind : rest ++ more = behind at h
  cases h with
  | longest hlongest =>
    subst hinput
    refine Begins.longest ⟨hlongest.grammatical, List.prefix_append _ _, ?_⟩
    intro shape' other hmatches hstarts
    apply hlongest.longest shape' other hmatches
    rw [← hall]
    exact hstarts.trans (List.prefix_append _ _)
  | openText hnone =>
    have hrest : rest = [] := (List.append_eq_nil_iff.mp hbehind).1
    rw [hrest, List.append_nil] at hinput
    subst hrest hinput
    exact Begins.openText hnone
  | stray hquote hnone =>
    subst hinput hbehind
    exact Begins.stray hquote (NoMatch.of_append hnone)

/-- What is cut up to a place is the cut of the text up to that place. -/
theorem CutTo.cut_of_append {input rest : List Char} {cut : List Segment}
    (h : CutTo (input ++ rest) cut rest) : Cut input cut := by
  generalize hall : input ++ rest = all at h
  induction h generalizing input with
  | here =>
    have hinput : input = [] := by simpa using hall
    rw [hinput]
    exact .done
  | @next all mid rest s others hbegins hothers ih =>
    have hmid := hothers.text_append
    have hinput : input = s.text ++ others.flatMap Segment.text := by
      rw [← hbegins.text_append, ← hmid, ← List.append_assoc] at hall
      exact List.append_cancel_right hall
    rw [← hall, ← hmid] at hbegins
    exact .next (hbegins.of_append hinput) (ih hmid)

/-! ## Putting text behind an input -/

/-- No match in the longer input reaches beyond the shorter one. -/
def Within (input more : List Char) : Prop :=
  ∀ shape text, Matches shape text → text <+: input ++ more → text.length ≤ input.length

theorem Within.starts {input more text : List Char} {shape : Shape} (h : Within input more)
    (hmatches : Matches shape text) (hstarts : text <+: input ++ more) : text <+: input :=
  List.prefix_of_prefix_length_le hstarts (List.prefix_append input more)
    (h shape text hmatches hstarts)

/-- A first segment stays the same if the input goes on and no match reaches into the new text.  An
open text is excepted, since it takes all there is. -/
theorem Begins.append {input rest more : List Char} {s : Segment} (h : Begins input s rest)
    (hclosed : s.shape ≠ .openText) (hwithin : Within input more) :
    Begins (input ++ more) s (rest ++ more) := by
  cases h with
  | @longest shape text rest hlongest =>
    rw [List.append_assoc]
    refine Begins.longest ⟨hlongest.grammatical, List.prefix_append _ _, ?_⟩
    -- a longer match would stand within the shorter input already
    intro shape' other hmatches hstarts
    rw [← List.append_assoc] at hstarts
    exact hlongest.longest shape' other hmatches (hwithin.starts hmatches hstarts)
  | openText _ => exact absurd rfl hclosed
  | stray hquote hnone =>
    -- and so would any match at all
    refine Begins.stray hquote ?_
    intro shape text hmatches hstarts
    exact hnone shape text hmatches (hwithin.starts hmatches hstarts)

/-! ## Matches that reach over a separating character -/

theorem IsNumeral.mem {numeral : List Char} (h : IsNumeral numeral) {c : Char}
    (hc : c ∈ numeral) : IsDigit c ∨ c = '.' := by
  cases h with
  | whole hdigits => exact Or.inl (hdigits.2 c hc)
  | fraction hwhole hpart =>
    rcases List.mem_append.mp hc with hc | hc
    · exact Or.inl (hwhole.2 c hc)
    · rcases List.mem_cons.mp hc with rfl | hc
      · exact Or.inr rfl
      · exact Or.inl (hpart.2 c hc)

/-- Characters that make neither a word nor a number nor an operator longer. -/
def Separates (c : Char) : Prop :=
  ¬ IsLetter c ∧ ¬ IsDigit c ∧ c ∉ ['.', '=', '/']

instance : DecidablePred Separates :=
  fun c => inferInstanceAs (Decidable (¬ IsLetter c ∧ ¬ IsDigit c ∧ c ∉ ['.', '=', '/']))

theorem separates_of_mem_blanks {c : Char} (h : c ∈ [' ', '\r', '\t', '\n']) : Separates c := by
  simp only [List.mem_cons, List.not_mem_nil, or_false] at h
  rcases h with rfl | rfl | rfl | rfl <;> decide

/-- A separating character behind the first character of a match stands in a text or in a comment,
and a newline does not stand in a comment. -/
theorem Matches.over_separator {shape : Shape} {first c : Char} {text : List Char}
    (h : Matches shape (first :: text)) (hmem : c ∈ text) (hsep : Separates c) :
    shape = .token .text ∨ (shape = .comment ∧ c ≠ '\n') := by
  rcases hsep with ⟨hletter, hdigit, hother⟩
  have hcontinues := continues_of_matches h
  cases hfirst : Lead.ofChar first with rw [hfirst] at hcontinues
  | blank =>
    rw [hcontinues.2] at hmem
    exact nomatch hmem
  | punctuation kind =>
    rw [hcontinues.2] at hmem
    exact nomatch hmem
  | comparison alone joined =>
    -- only an equals sign may follow
    rcases hcontinues with ⟨-, rfl⟩ | ⟨-, rfl⟩
    · exact nomatch hmem
    · rw [List.mem_singleton.mp hmem] at hother
      exact absurd (by decide) hother
  | slash =>
    rcases hcontinues with ⟨-, rfl⟩ | ⟨rfl, body, hbody, rfl⟩
    · exact nomatch hmem
    · refine Or.inr ⟨rfl, ?_⟩
      rintro rfl
      rcases List.mem_cons.mp hmem with hslash | hmem
      · exact absurd hslash (by decide)
      · exact hbody hmem
  | quote => exact Or.inl hcontinues.1
  | digit =>
    rcases hcontinues.2.mem (List.mem_cons_of_mem first hmem) with hc | rfl
    · exact absurd hc hdigit
    · exact absurd List.mem_cons_self hother
  | letter =>
    rcases isWordPart_iff.mp (hcontinues.2 c hmem) with hc | hc
    · exact absurd hc hletter
    · exact absurd hc hdigit
  | stray character => exact absurd hcontinues id

/-! ## Texts -/

/-- A text does not begin with a shorter text. -/
theorem Matches.text_eq_of_prefix {text other : List Char} (h : Matches (.token .text) text)
    (h' : Matches (.token .text) other) (hstarts : text <+: other) : text = other := by
  rcases matches_text_iff.mp h with ⟨body, hbody, rfl⟩
  rcases matches_text_iff.mp h' with ⟨body', hbody', rfl⟩
  rcases hstarts with ⟨behind, heq⟩
  simp only [List.cons_append, List.append_assoc, List.nil_append, List.cons.injEq,
    true_and] at heq
  -- both bodies go up to the first quote
  have htake := congrArg (List.takeWhile (· != '"')) heq
  rw [takeWhile_append_cons (forall_ne_of_notMem hbody) (by decide),
    takeWhile_append_cons (forall_ne_of_notMem hbody') (by decide)] at htake
  rw [htake]

/-- A text at the beginning of a longer input reaches beyond the input only if the input is an open
text. -/
theorem Begins.length_le_of_text {input rest more other : List Char} {s : Segment}
    (h : Begins input s rest) (hclosed : s.shape ≠ .openText)
    (hmatches : Matches (.token .text) other) (hstarts : other <+: input ++ more) :
    other.length ≤ input.length := by
  rcases matches_text_iff.mp hmatches with ⟨body, -, hother⟩
  have hquote : ∀ {first : Char} {behind : List Char}, input = first :: behind → first = '"' := by
    rintro first behind rfl
    rw [hother, List.cons_append, List.cons_prefix_cons] at hstarts
    exact hstarts.1.symm
  cases h with
  | @longest shape text rest hlongest =>
    rcases text with _ | ⟨first, text⟩
    · exact absurd rfl hlongest.grammatical.ne_nil
    -- the segment begins with a quote, so it is a text, and two texts do not begin each other
    have hfirst := hquote (List.cons_append)
    subst hfirst
    have hshape : shape = .token .text := (continues_of_matches hlongest.grammatical).1
    have htext := hlongest.grammatical
    rw [hshape] at htext
    rcases Nat.le_total other.length ('"' :: text).length with hle | hle
    · exact Nat.le_trans hle hlongest.starts.length_le
    · have hprefix : ('"' :: text) <+: other :=
        List.prefix_of_prefix_length_le
          (hlongest.starts.trans (List.prefix_append _ _)) hstarts hle
      rw [← htext.text_eq_of_prefix hmatches hprefix]
      exact hlongest.starts.length_le
  | openText _ => exact absurd rfl hclosed
  | stray hne _ => exact absurd (hquote rfl) hne

/-! ## Ends that keep matches within -/

/-- A beginning of a longer input that is longer than the input goes on as the input does. -/
theorem exists_append_of_prefix {input more text : List Char} (hstarts : text <+: input ++ more)
    (hlong : input.length < text.length) :
    ∃ c behind, text = input ++ c :: behind ∧ c :: behind <+: more := by
  have hinput : input <+: text :=
    List.prefix_of_prefix_length_le (List.prefix_append _ _) hstarts (Nat.le_of_lt hlong)
  rcases hinput with ⟨behind, rfl⟩
  rcases behind with _ | ⟨c, behind⟩
  · simp at hlong
  · exact ⟨c, behind, rfl, (List.prefix_append_right_inj input).mp hstarts⟩

/-- No match goes on behind a newline, where no text is open. -/
theorem Begins.within_of_newline {input rest : List Char} {s : Segment}
    (h : Begins (input ++ ['\n']) s rest) (hclosed : s.shape ≠ .openText) (more : List Char) :
    Within (input ++ ['\n']) more := by
  intro shape text hmatches hstarts
  rcases Nat.lt_or_ge (input ++ ['\n']).length text.length with hlong | hshort
  · rcases exists_append_of_prefix hstarts hlong with ⟨c, behind, rfl, -⟩
    rcases input with _ | ⟨first, input⟩
    · -- a newline at the beginning is a segment by itself
      have hcontinues : Lead.blank.Continues '\n' shape (c :: behind) :=
        continues_of_matches hmatches
      exact nomatch hcontinues.2
    · have hnewline : '\n' ∈ input ++ ['\n'] ++ c :: behind := by simp
      rcases hmatches.over_separator hnewline (by decide) with rfl | ⟨-, hne⟩
      · exact h.length_le_of_text hclosed hmatches hstarts
      · exact absurd rfl hne
  · exact hshort

theorem matches_comment_iff {text : List Char} :
    Matches .comment text ↔ ∃ body, '\n' ∉ body ∧ text = '/' :: '/' :: body := by
  constructor
  · intro h
    cases h with
    | comment hbody => exact ⟨_, hbody, rfl⟩
  · rintro ⟨body, hbody, rfl⟩
    exact Matches.comment hbody

/-- A comment may be longer, as long as it stays on its line. -/
theorem Matches.comment_concat {text : List Char} {c : Char} (h : Matches .comment text)
    (hne : c ≠ '\n') : Matches .comment (text ++ [c]) := by
  rcases matches_comment_iff.mp h with ⟨body, hbody, rfl⟩
  refine Matches.comment fun hmem => ?_
  rcases List.mem_append.mp hmem with hmem | hmem
  · exact hbody hmem
  · exact hne (List.mem_singleton.mp hmem).symm

/-- An input that is a match is its own first segment. -/
theorem Matches.begins {shape : Shape} {input : List Char} (h : Matches shape input) :
    Begins input { shape := shape, text := input } [] := by
  have hlongest : Longest shape input (input ++ []) :=
    ⟨h, List.prefix_append _ _, fun _ _ _ hstarts => by simpa using hstarts.length_le⟩
  simpa using Begins.longest hlongest

/-- No match goes on at a separating character, where no text is open and no comment stands. -/
theorem Begins.within_of_separator {input rest : List Char} {s : Segment} {c : Char}
    (h : Begins input s rest) (hclosed : s.shape ≠ .openText) (hsep : Separates c)
    (hcomment : s.shape = .comment → rest = [] → c = '\n') (more : List Char) :
    Within input (c :: more) := by
  intro shape text hmatches hstarts
  rcases Nat.lt_or_ge input.length text.length with hlong | hshort
  · rcases exists_append_of_prefix hstarts hlong with ⟨c', behind, rfl, hbehind⟩
    rcases List.cons_prefix_cons.mp hbehind with ⟨rfl, -⟩
    rcases input with _ | ⟨first, input⟩
    · exact absurd rfl h.input_ne_nil
    rcases hmatches.over_separator (by simp) hsep with rfl | ⟨rfl, hne⟩
    · exact h.length_le_of_text hclosed hmatches hstarts
    · -- the comment that goes on at this character is a comment without it, too
      rcases matches_comment_iff.mp hmatches with ⟨body, hbody, heq⟩
      rcases input with _ | ⟨second, input⟩
      · rw [List.cons_append, List.nil_append, List.cons.injEq, List.cons.injEq] at heq
        rw [heq.2.1] at hsep
        exact absurd hsep (by decide)
      · simp only [List.cons_append, List.cons.injEq] at heq
        rcases heq with ⟨rfl, rfl, rfl⟩
        have hwhole : Matches .comment ('/' :: '/' :: input) :=
          Matches.comment fun hmem => hbody (List.mem_append_left _ hmem)
        rcases h.unique hwhole.begins with ⟨rfl, rfl⟩
        exact absurd (hcomment rfl rfl) hne
  · exact hshort

/-- A blank is a segment by itself, whatever stands behind it. -/
theorem begins_blank {c : Char} (h : c ∈ [' ', '\r', '\t', '\n']) (rest : List Char) :
    Begins (c :: rest) { shape := .blank, text := [c] } rest := by
  have hlongest : Longest .blank [c] ([c] ++ rest) := by
    refine ⟨Matches.blank h, List.prefix_append _ _, ?_⟩
    intro shape other hmatches hstarts
    cases other with
    | nil => exact Nat.zero_le 1
    | cons first other =>
      rcases List.cons_prefix_cons.mp hstarts with ⟨rfl, -⟩
      have hcontinues := continues_of_matches hmatches
      rw [Lead.ofChar_of_mem_blanks h] at hcontinues
      rw [hcontinues.2]
  exact Begins.longest hlongest

/-! ## Cuts without an open text -/

/-- No segment is a text without its closing quote. -/
def Closed (cut : List Segment) : Prop :=
  ∀ s ∈ cut, s.shape ≠ .openText

theorem Closed.head {s : Segment} {others : List Segment} (h : Closed (s :: others)) :
    s.shape ≠ .openText :=
  h s (List.mem_cons_self)

theorem Closed.tail {s : Segment} {others : List Segment} (h : Closed (s :: others)) :
    Closed others :=
  fun s' hs' => h s' (List.mem_cons_of_mem s hs')

theorem Closed.cons {s : Segment} {others : List Segment} (h : Closed others)
    (hs : s.shape ≠ .openText) : Closed (s :: others) :=
  List.forall_mem_cons.mpr ⟨hs, h⟩

theorem closed_singleton {s : Segment} (hs : s.shape ≠ .openText) : Closed [s] :=
  List.forall_mem_singleton.mpr hs

/-- The cut of an input that ends with a newline stays the same whatever follows. -/
theorem Cut.cutTo_of_newline {input : List Char} {cut : List Segment} (h : Cut input cut)
    (hclosed : Closed cut) (hlast : ∀ c, input.getLast? = some c → c = '\n') (more : List Char) :
    CutTo (input ++ more) cut more := by
  induction h with
  | done => exact .here
  | @next input rest s others hbegins _ ih =>
    have hrest : ∀ c, rest.getLast? = some c → c = '\n' := by
      intro c hc
      refine hlast c ?_
      rw [← hbegins.text_append, List.getLast?_append, hc]
      rfl
    have hne := hbegins.input_ne_nil
    have hend : input = input.dropLast ++ ['\n'] := by
      rw [← hlast _ (List.getLast?_eq_some_getLast hne), List.dropLast_concat_getLast]
    have hwithin : Within input more := by
      rw [hend] at hbegins ⊢
      exact hbegins.within_of_newline hclosed.head more
    exact .next (hbegins.append hclosed.head hwithin) (ih hclosed.tail hrest)

/-- What is cut in front of some text holds no open text, since that would have taken the text. -/
theorem CutTo.closed {input rest : List Char} {cut : List Segment} (h : CutTo input cut rest)
    (hrest : rest ≠ []) : Closed cut := by
  induction h with
  | here => exact nofun
  | next hbegins hothers ih =>
    refine (ih hrest).cons fun hopen => ?_
    rw [hbegins.rest_of_openText hopen] at hothers
    exact hrest hothers.of_nil.2

/-- The last segment is a comment. -/
def EndsWithComment (cut : List Segment) : Prop :=
  ∃ front text, cut = front ++ [{ shape := .comment, text := text }]

theorem EndsWithComment.cons {cut : List Segment} (h : EndsWithComment cut) (s : Segment) :
    EndsWithComment (s :: cut) := by
  rcases h with ⟨front, text, rfl⟩
  exact ⟨s :: front, text, rfl⟩

/-- What is cut of an input stays the same if a separating character follows the input, and then
anything.  Excepted is a comment at the end, which takes in all but a newline. -/
theorem CutTo.append_separator {input rest : List Char} {cut : List Segment} {c : Char}
    (h : CutTo input cut rest) (hclosed : Closed cut) (hsep : Separates c)
    (hcomment : EndsWithComment cut → rest = [] → c = '\n') (more : List Char) :
    CutTo (input ++ c :: more) cut (rest ++ c :: more) := by
  induction h with
  | here => exact .here
  | @next input mid rest s others hbegins hothers ih =>
    have hlast : s.shape = .comment → mid = [] → c = '\n' := by
      rintro hshape rfl
      rcases hothers.of_nil with ⟨rfl, rfl⟩
      have hends : EndsWithComment [s] := ⟨[], s.text, by rw [← hshape, List.nil_append]⟩
      exact hcomment hends rfl
    have hwithin := hbegins.within_of_separator hclosed.head hsep hlast more
    exact .next (hbegins.append hclosed.head hwithin)
      (ih hclosed.tail fun hends => hcomment (hends.cons s))

end Grammar

end LoxTokens
