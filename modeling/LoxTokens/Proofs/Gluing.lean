import Mathlib.Data.List.Flatten
import LoxTokens.Proofs.Lookahead
import LoxTokens.Proofs.Spelling

/-!
# Tokens glued together

Where no blank stands between two lexemes, a scan may make one match of what was two tokens.  This
happens to some pairs of neighbours, and to a whole number, a point and a number, and never else.

- `Token.Fuses` and `Token.FormFraction` list what does not stay apart
- `within_glue_iff` compares them with the longer matches behind a lexeme
- `segments_of_sameTokens` says that a scan which gives the tokens back has them as segments
- `scan_glued_iff` is the result
-/

namespace LoxTokens

open Grammar

namespace Token

/-! ## Neighbours -/

/-- Two neighbours of which a scan makes something else. -/
inductive Fuses (t u : Token) : Prop where
  | word : t.kind.IsWord → u.kind.IsWord ∨ u.kind = .number → Fuses t u
  | number : t.kind = .number → u.kind = .number → Fuses t u
  | comparison : t.kind.IsComparison → u.kind ∈ [.equal, .equalEqual] → Fuses t u
  | slash : t.kind = .slash → u.kind = .slash → Fuses t u

/-- Three neighbours of which a scan makes a number with a point. -/
structure FormFraction (t u v : Token) : Prop where
  whole : t.kind = .number
  free : '.' ∉ t.lexeme.toList
  point : u.kind = .dot
  part : v.kind = .number

/-- Tokens none of which are lost if nothing stands between them. -/
structure KeepApart (tokens : List Token) : Prop where
  pairs : ∀ t u, [t, u] <:+: tokens → ¬ t.Fuses u
  triples : ∀ t u v, [t, u, v] <:+: tokens → ¬ t.FormFraction u v

/-- A token is kept apart from what stands behind it. -/
structure EndsBefore (t : Token) (others : List Token) : Prop where
  pair : ∀ u, [u] <+: others → ¬ t.Fuses u
  triple : ∀ u v, [u, v] <+: others → ¬ t.FormFraction u v

theorem keepApart_nil : KeepApart [] where
  pairs _ _ h := absurd (List.infix_nil.mp h) (List.cons_ne_nil _ _)
  triples _ _ _ h := absurd (List.infix_nil.mp h) (List.cons_ne_nil _ _)

theorem keepApart_cons_iff {t : Token} {others : List Token} :
    KeepApart (t :: others) ↔ t.EndsBefore others ∧ KeepApart others := by
  constructor
  · intro h
    refine ⟨⟨?_, ?_⟩, ⟨?_, ?_⟩⟩
    · intro u hu
      exact h.pairs t u ((List.prefix_cons_inj t).mpr hu).isInfix
    · intro u v huv
      exact h.triples t u v ((List.prefix_cons_inj t).mpr huv).isInfix
    · intro u v huv
      exact h.pairs u v (List.infix_cons huv)
    · intro u v w huvw
      exact h.triples u v w (List.infix_cons huvw)
  · rintro ⟨hfirst, hothers⟩
    refine ⟨?_, ?_⟩
    · intro u v huv
      rcases List.infix_cons_iff.mp huv with hstart | hlater
      · rcases List.cons_prefix_cons.mp hstart with ⟨rfl, hv⟩
        exact hfirst.pair v hv
      · exact hothers.pairs u v hlater
    · intro u v w huvw
      rcases List.infix_cons_iff.mp huvw with hstart | hlater
      · rcases List.cons_prefix_cons.mp hstart with ⟨rfl, hvw⟩
        exact hfirst.triple v w hvw
      · exact hothers.triples u v w hlater

/-! ## Which neighbours fuse, class by class -/

variable {t u : Token}

theorem fuses_iff_of_isWord (h : t.kind.IsWord) :
    t.Fuses u ↔ u.kind.IsWord ∨ u.kind = .number := by
  rcases h.separate with ⟨hnumber, hcomparison, -, hslash, -⟩
  constructor
  · rintro (⟨-, hu⟩ | ⟨ht, -⟩ | ⟨ht, -⟩ | ⟨ht, -⟩)
    · exact hu
    · exact absurd ht hnumber
    · exact absurd ht hcomparison
    · exact absurd ht hslash
  · exact Fuses.word h

theorem fuses_iff_of_number (h : t.kind = .number) : t.Fuses u ↔ u.kind = .number := by
  have hword : ¬ t.kind.IsWord := fun ht => ht.separate.1 h
  have hcomparison : ¬ t.kind.IsComparison := by
    rw [h]
    decide
  constructor
  · rintro (⟨ht, -⟩ | ⟨-, hu⟩ | ⟨ht, -⟩ | ⟨ht, -⟩)
    · exact absurd ht hword
    · exact hu
    · exact absurd ht hcomparison
    · exact nomatch h.symm.trans ht
  · exact Fuses.number h

theorem fuses_iff_of_isComparison (h : t.kind.IsComparison) :
    t.Fuses u ↔ u.kind ∈ [.equal, .equalEqual] := by
  constructor
  · rintro (⟨ht, -⟩ | ⟨ht, -⟩ | ⟨-, hu⟩ | ⟨ht, -⟩)
    · exact absurd h ht.separate.2.1
    · rw [ht] at h
      exact absurd h (by decide)
    · exact hu
    · rw [ht] at h
      exact absurd h (by decide)
  · exact Fuses.comparison h

theorem fuses_iff_of_slash (h : t.kind = .slash) : t.Fuses u ↔ u.kind = .slash := by
  have hcomparison : ¬ t.kind.IsComparison := by
    rw [h]
    decide
  constructor
  · rintro (⟨ht, -⟩ | ⟨ht, -⟩ | ⟨ht, -⟩ | ⟨-, hu⟩)
    · exact absurd h ht.separate.2.2.2.1
    · exact nomatch h.symm.trans ht
    · exact absurd ht hcomparison
    · exact hu
  · exact Fuses.slash h

end Token

/-! ## Lexemes one behind the other -/

/-- The lexemes of tokens, with nothing between them. -/
def glue (tokens : List Token) : List Char :=
  tokens.flatMap fun t => t.lexeme.toList

theorem toList_join_lexemes (tokens : List Token) :
    (String.join (tokens.map Token.lexeme)).toList = glue tokens := by
  rw [String.toList_join, List.flatMap_map]
  rfl

/-- The segment that a token is read from. -/
def Token.segment (t : Token) : Segment where
  shape := .token t.kind
  text := t.lexeme.toList

/-- Scans find such tokens in front of the end. -/
structure Token.Proper (t : Token) : Prop where
  spelled : t.Spelled
  kind : t.kind ≠ .eof

namespace Token.Proper

variable {t u : Token}

theorem grammatical (h : t.Proper) : Matches (.token t.kind) t.lexeme.toList := by
  rcases h with ⟨hspelled, hkind⟩
  cases hspelled with
  | eof => exact absurd rfl hkind
  | @lexeme kind text line hmatches =>
    have htext : (Token.ofLexeme kind text line).lexeme.toList = text := String.toList_ofList
    rw [htext]
    exact hmatches

/-- The first character of a lexeme, which tells the class of the kind. -/
theorem exists_first (h : u.Proper) :
    ∃ first, Announces first u.kind ∧
      ∀ others, (glue (u :: others)).head? = some first := by
  rcases h.grammatical.exists_continues with ⟨first, more, hlexeme, hannounces, -⟩
  refine ⟨first, hannounces, ?_⟩
  intro others
  unfold glue
  rw [List.flatMap_cons, hlexeme]
  rfl

theorem lexeme_of_dot (h : u.Proper) (hkind : u.kind = .dot) : u.lexeme.toList = ['.'] := by
  rcases h.grammatical.exists_continues with ⟨first, more, hlexeme, hannounces, hown⟩
  have hfirst : first = '.' := hannounces.point.mpr hkind
  subst hfirst
  have hmore : more = [] := hown.2
  rw [hlexeme, hmore]

end Token.Proper

theorem glue_cons (t : Token) (others : List Token) :
    glue (t :: others) = t.lexeme.toList ++ glue others :=
  List.flatMap_cons

/-- A point and a digit are the beginning of a point and a number. -/
theorem notMem_digit_iff {u : Token} {others : List Token} (h : ∀ w ∈ u :: others, w.Proper) :
    (∀ d, ['.', d] <+: glue (u :: others) → ¬ IsDigit d) ↔
      (u.kind = .dot → ∀ v, [v] <+: others → v.kind ≠ .number) := by
  constructor
  · intro hdigit hdot v hv hnumber
    rcases hv with ⟨more, rfl⟩
    rcases (h v (by simp)).exists_first with ⟨d, hannounces, hhead⟩
    apply hdigit d _ (hannounces.digit.mpr hnumber)
    rw [glue_cons, (h u List.mem_cons_self).lexeme_of_dot hdot]
    exact (List.prefix_cons_inj '.').mpr (singleton_starts (hhead more))
  · intro hnumber d hstarts
    rcases (h u List.mem_cons_self).exists_first with ⟨first, hannounces, hhead⟩
    have hfirst : first = '.' := by
      have hpoint := head?_of_starts hstarts
      rw [hhead others] at hpoint
      exact Option.some.inj hpoint
    have hdot : u.kind = .dot := hannounces.point.mp hfirst
    rw [glue_cons, (h u List.mem_cons_self).lexeme_of_dot hdot, List.singleton_append,
      List.prefix_cons_inj] at hstarts
    -- the digit is the first character of the next lexeme
    rcases others with _ | ⟨v, more⟩
    · exact absurd (List.prefix_nil.mp hstarts) (List.cons_ne_nil _ _)
    · rcases (h v (by simp)).exists_first with ⟨d', hannounces', hhead'⟩
      have hd : d' = d := by
        have hnext := head?_of_starts hstarts
        rw [hhead' more] at hnext
        exact Option.some.inj hnext
      rw [← hd, hannounces'.digit]
      exact hnumber hdot v ⟨more, rfl⟩

theorem Token.endsBefore_cons_iff {t u : Token} {others : List Token} :
    t.EndsBefore (u :: others) ↔
      ¬ t.Fuses u ∧ ∀ v, [v] <+: others → ¬ t.FormFraction u v := by
  constructor
  · intro h
    refine ⟨h.pair u ⟨others, rfl⟩, ?_⟩
    intro v hv
    exact h.triple u v ((List.prefix_cons_inj u).mpr hv)
  · rintro ⟨hpair, htriple⟩
    refine ⟨?_, ?_⟩
    · intro w hw
      rw [(List.cons_prefix_cons.mp hw).1]
      exact hpair
    · intro w v hwv
      rcases List.cons_prefix_cons.mp hwv with ⟨rfl, hv⟩
      exact htriple v hv

/-- Whatever is no number forms no fraction. -/
theorem Token.endsBefore_cons_iff_of_ne {t u : Token} {others : List Token}
    (h : t.kind ≠ .number) : t.EndsBefore (u :: others) ↔ ¬ t.Fuses u := by
  rw [endsBefore_cons_iff, and_iff_left]
  intro v _ hfraction
  exact h hfraction.whole

/-- Nothing behind a lexeme makes a longer match of it, just if the token ends before its
neighbours. -/
theorem within_glue_iff {t : Token} {others : List Token} (ht : t.Proper)
    (h : ∀ u ∈ others, u.Proper) :
    Within t.lexeme.toList (glue others) ↔ t.EndsBefore others := by
  have hmatches := ht.grammatical
  rcases others with _ | ⟨u, others⟩
  · refine iff_of_true ?_ ⟨?_, ?_⟩
    · rw [within_iff]
      intro shape c behind _ hbehind
      exact absurd (List.prefix_nil.mp hbehind) (List.cons_ne_nil _ _)
    · intro u hu
      exact absurd (List.prefix_nil.mp hu) (List.cons_ne_nil _ _)
    · intro u v huv
      exact absurd (List.prefix_nil.mp huv) (List.cons_ne_nil _ _)
  rcases (h u List.mem_cons_self).exists_first with ⟨first, hannounces, hhead⟩
  -- one case for each class of kinds, as in the lemmas about longer matches
  by_cases hword : t.kind.IsWord
  · rw [within_word hmatches hword, Token.endsBefore_cons_iff_of_ne hword.separate.1,
      Token.fuses_iff_of_isWord hword, hhead, ← hannounces.letter, ← hannounces.digit]
    simp
  by_cases hcomparison : t.kind.IsComparison
  · have hnumber : t.kind ≠ .number := by
      intro hkind
      rw [hkind] at hcomparison
      exact absurd hcomparison (by decide)
    rw [within_comparison hmatches hcomparison, Token.endsBefore_cons_iff_of_ne hnumber,
      Token.fuses_iff_of_isComparison hcomparison, hhead, ← hannounces.equals]
    simp
  by_cases hslash : t.kind = .slash
  · have hnumber : t.kind ≠ .number := by
      rw [hslash]
      decide
    rw [hslash] at hmatches
    rw [within_slash hmatches, Token.endsBefore_cons_iff_of_ne hnumber,
      Token.fuses_iff_of_slash hslash, hhead, ← hannounces.slash]
    simp
  by_cases hnumber : t.kind = .number
  · rw [hnumber] at hmatches
    rw [within_number hmatches, Token.endsBefore_cons_iff, Token.fuses_iff_of_number hnumber,
      notMem_digit_iff h, hhead, ← hannounces.digit]
    refine and_congr (by simp) ?_
    constructor
    · intro hfraction v hv hform
      exact hfraction hform.free hform.point v hv hform.part
    · intro hform hfree hdot v hv hpart
      exact hform v hv ⟨hnumber, hfree, hdot, hpart⟩
  · refine iff_of_true (within_closed hmatches hword hnumber hcomparison hslash _) ?_
    rw [Token.endsBefore_cons_iff_of_ne hnumber]
    rintro (⟨hkind, -⟩ | ⟨hkind, -⟩ | ⟨hkind, -⟩ | ⟨hkind, -⟩)
    · exact hword hkind
    · exact hnumber hkind
    · exact hcomparison hkind
    · exact hslash hkind

/-! ## Cuts between lexemes -/

/-- Lexemes one behind the other are cut between the tokens, just if the tokens keep apart. -/
theorem cut_glue_iff {tokens : List Token} (h : ∀ t ∈ tokens, t.Proper) :
    Cut (glue tokens) (tokens.map Token.segment) ↔ Token.KeepApart tokens := by
  induction tokens with
  | nil => exact iff_of_true .done Token.keepApart_nil
  | cons t others ih =>
    have hothers := fun u hu => h u (List.mem_cons_of_mem t hu)
    have ht := h t List.mem_cons_self
    rw [Token.keepApart_cons_iff, ← within_glue_iff ht hothers, ← ih hothers,
      ← ht.grammatical.begins_iff_within, glue_cons]
    constructor
    · intro hcut
      generalize hinput : t.lexeme.toList ++ glue others = input at hcut ⊢
      cases hcut with
      | @next _ rest _ _ hbegins hrest =>
        have hleft : rest = glue others :=
          List.append_cancel_left (hbegins.text_append.trans hinput.symm)
        rw [hleft] at hbegins hrest
        exact ⟨hbegins, hrest⟩
    · rintro ⟨hbegins, hrest⟩
      exact .next hbegins hrest

/-! ## Scans that give the tokens back -/

theorem Token.Proper.reads_cons {t : Token} {cut : List Segment} {tokens : List Token}
    (ht : t.Proper) (h : Reads cut tokens) : Reads (t.segment :: cut) (t :: tokens) := by
  rcases ht with ⟨hspelled, hkind⟩
  cases hspelled with
  | eof => exact absurd rfl hkind
  | @lexeme kind text line _ =>
    have htext : (Token.ofLexeme kind text line).lexeme.toList = text := String.toList_ofList
    unfold Token.segment
    rw [htext]
    exact h.token kind text line

theorem reads_segments {tokens : List Token} (h : ∀ t ∈ tokens, t.Proper) :
    Reads (tokens.map Token.segment) tokens := by
  induction tokens with
  | nil => exact fun _ => ⟨rfl, rfl⟩
  | cons t others ih =>
    exact (h t List.mem_cons_self).reads_cons (ih fun u hu => h u (List.mem_cons_of_mem t hu))

/-- Tokens that keep apart are read back from their lexemes. -/
theorem Token.KeepApart.readAs_glue {tokens : List Token} (hapart : Token.KeepApart tokens)
    (h : ∀ t ∈ tokens, t.Proper) : ReadAs (glue tokens) tokens :=
  ⟨tokens.map Token.segment, (cut_glue_iff h).mpr hapart, reads_segments h⟩

/-- Segments none of which is empty, and some of which have all the text, are all of them. -/
theorem filter_eq_self_of_flatMap_text {p : Segment → Bool} {cut : List Segment}
    (hne : ∀ s ∈ cut, s.text ≠ [])
    (htext : (cut.filter p).flatMap Segment.text = cut.flatMap Segment.text) :
    cut.filter p = cut := by
  induction cut with
  | nil => rfl
  | cons s others ih =>
    have hothers := fun s' hs' => hne s' (List.mem_cons_of_mem s hs')
    by_cases hs : p s = true
    · rw [List.filter_cons_of_pos hs] at htext ⊢
      rw [List.flatMap_cons, List.flatMap_cons, List.append_cancel_left_eq] at htext
      rw [ih hothers htext]
    · -- without this segment the text would be shorter
      rw [List.filter_cons_of_neg hs, List.flatMap_cons] at htext
      have hle := ((List.filter_sublist (p := p) (l := others)).flatMap Segment.text).length_le
      have hpos := List.length_pos_of_ne_nil (hne s List.mem_cons_self)
      rw [htext, List.length_append] at hle
      omega

/-- A token without its line and its value. -/
def Token.reading (t : Token) : TokenKind × String :=
  (t.kind, t.lexeme)

/-- The kind and the lexeme of a token determine the segment. -/
theorem map_segment_eq (tokens : List Token) :
    tokens.map Token.segment =
      (tokens.map Token.reading).map fun reading =>
        { shape := .token reading.1, text := reading.2.toList } := by
  rw [List.map_map]
  rfl

theorem Segment.Yields.eq_segment {s : Segment} {t : Token} (h : s.Yields t) :
    s = t.segment := by
  have htext : t.lexeme.toList = s.text := by
    rw [h.lexeme, String.toList_ofList]
  unfold Token.segment
  rw [htext, ← h.shape]

/-- The segments that give the tokens of a cut are the segments of these tokens. -/
theorem map_segment_foundAfter {input : List Char} {cut : List Segment} (h : Cut input cut)
    (before : List Char) :
    (foundAfter Segment.token? before cut).map Token.segment = cut.filter Segment.isToken := by
  have hyields := (forall₂_yields h before).imp fun _ _ hyield => hyield.eq_segment
  rw [← List.forall₂_map_right_iff, List.forall₂_eq_eq_eq] at hyields
  exact hyields.symm

/-- If a scan of the lexemes finds the kinds and lexemes again, its segments are those of the
tokens: nothing of the text is left for a blank, a comment or a fault. -/
theorem segments_of_sameTokens {source : String} {tokens : List Token}
    (hsource : source.toList = glue tokens)
    (h : (foundAfter Segment.token? [] (segments source)).map Token.reading =
      tokens.map Token.reading) :
    segments source = tokens.map Token.segment := by
  have hcut := cut_segments source
  have hsegments : tokens.map Token.segment = (segments source).filter Segment.isToken := by
    rw [map_segment_eq, ← h, ← map_segment_eq, map_segment_foundAfter hcut]
  have htext : ((segments source).filter Segment.isToken).flatMap Segment.text =
      (segments source).flatMap Segment.text := by
    rw [flatMap_text_segments, hsource, ← hsegments, List.flatMap_map]
    rfl
  rw [hsegments, filter_eq_self_of_flatMap_text hcut.text_ne_nil htext]

theorem proper_of_mem_tokensOf {source : String} {t : Token} (h : t ∈ tokensOf source)
    (hkind : t.kind ≠ .eof) : t.Proper where
  spelled := spelled_of_mem_tokensOf h
  kind := hkind

/-- Tokens may be glued together just if they keep apart.  Take tokens of any scans, end tokens
apart, and write down their lexemes with nothing between them: a scan of this finds the same kinds
and lexemes, and an end token, unless a word stands before a word or a number, a number before a
number, a comparison before an equals sign, single or double, a slash before a slash, or a number
without a point before a point and a number.  Each of these changes what is found. -/
theorem scan_glued_iff (tokens : List Token)
    (htokens : ∀ t ∈ tokens, (∃ source, t ∈ tokensOf source) ∧ t.kind ≠ .eof) :
    (∃ found line,
        tokensOf (.join (tokens.map Token.lexeme)) = found ++ [.eof line] ∧
        found.map (fun t => (t.kind, t.lexeme)) = tokens.map fun t => (t.kind, t.lexeme)) ↔
      (∀ t u, [t, u] <:+: tokens → ¬ t.Fuses u) ∧
        ∀ t u v, [t, u, v] <:+: tokens → ¬ t.FormFraction u v := by
  have hproper : ∀ t ∈ tokens, t.Proper := by
    intro t ht
    rcases htokens t ht with ⟨⟨source, hsource⟩, hkind⟩
    exact proper_of_mem_tokensOf hsource hkind
  have hglue := toList_join_lexemes tokens
  constructor
  · rintro ⟨found, line, hfound, hsame⟩
    have hafter :
        foundAfter Segment.token? [] (segments (.join (tokens.map Token.lexeme))) = found := by
      rw [← dropLast_tokensOf, hfound, List.dropLast_concat]
    rw [← hafter] at hsame
    have hcut := cut_segments (.join (tokens.map Token.lexeme))
    rw [segments_of_sameTokens hglue hsame, hglue, cut_glue_iff hproper] at hcut
    exact ⟨hcut.pairs, hcut.triples⟩
  · rintro ⟨hpairs, htriples⟩
    have hapart : Token.KeepApart tokens := ⟨hpairs, htriples⟩
    have hread := hapart.readAs_glue hproper
    rw [← hglue] at hread
    rcases scan_of_readAs hread with ⟨-, found, hfound, hcontent⟩
    refine ⟨found, _, hfound, ?_⟩
    have hreading : Token.reading = (fun content => (content.1, content.2.1)) ∘ Token.content := rfl
    have hreadings : found.map Token.reading = tokens.map Token.reading := by
      rw [hreading, ← List.map_map, hcontent, List.map_map]
    exact hreadings

/-- Tokens of two sources, all of which keep apart: a whole number before a word, a number with a
point before a point and a number, and a comparison of two characters before an equals sign.  The
first number, the point and the last number make a number instead. -/
theorem scan_glued_iff_points :
    let apart := (tokensOf "1 abs(1.5 .5").dropLast ++ (tokensOf "!= =/\"//\"").dropLast
    let fraction := (tokensOf "1 .5").dropLast
    ((∀ t ∈ apart, (∃ source, t ∈ tokensOf source) ∧ t.kind ≠ .eof) ∧
        (∃ found line,
          tokensOf (.join (apart.map Token.lexeme)) = found ++ [.eof line] ∧
          found.map (fun t => (t.kind, t.lexeme)) = apart.map fun t => (t.kind, t.lexeme)) ∧
        (∀ t u, [t, u] <:+: apart → ¬ t.Fuses u) ∧
        ∀ t u v, [t, u, v] <:+: apart → ¬ t.FormFraction u v) ∧
      (∀ t ∈ fraction, (∃ source, t ∈ tokensOf source) ∧ t.kind ≠ .eof) ∧
      ¬ ∃ found line,
          tokensOf (.join (fraction.map Token.lexeme)) = found ++ [.eof line] ∧
          found.map (fun t => (t.kind, t.lexeme)) = fraction.map fun t => (t.kind, t.lexeme) := by
  intro apart fraction
  have happart : ∀ t ∈ apart, (∃ source, t ∈ tokensOf source) ∧ t.kind ≠ .eof := by
    have hkinds : ∀ t ∈ apart, t.kind ≠ .eof := by decide +kernel
    intro t ht
    refine ⟨?_, hkinds t ht⟩
    rcases List.mem_append.mp ht with ht | ht
    · exact ⟨_, List.dropLast_subset _ ht⟩
    · exact ⟨_, List.dropLast_subset _ ht⟩
  have hfraction : ∀ t ∈ fraction, (∃ source, t ∈ tokensOf source) ∧ t.kind ≠ .eof := by
    have hkinds : ∀ t ∈ fraction, t.kind ≠ .eof := by decide +kernel
    intro t ht
    exact ⟨⟨_, List.dropLast_subset _ ht⟩, hkinds t ht⟩
  have hfound : ∃ found line,
      tokensOf (.join (apart.map Token.lexeme)) = found ++ [.eof line] ∧
        found.map (fun t => (t.kind, t.lexeme)) = apart.map fun t => (t.kind, t.lexeme) :=
    ⟨(tokensOf (.join (apart.map Token.lexeme))).dropLast, 1, by decide +kernel, by decide +kernel⟩
  refine ⟨⟨happart, hfound, (scan_glued_iff apart happart).mp hfound⟩, hfraction, ?_⟩
  intro hlost
  have hform : Token.FormFraction (.ofLexeme .number ['1'] 1) (.ofLexeme .dot ['.'] 1)
      (.ofLexeme .number ['5'] 1) := ⟨rfl, by decide, rfl, rfl⟩
  have hlist : fraction =
      [.ofLexeme .number ['1'] 1, .ofLexeme .dot ['.'] 1, .ofLexeme .number ['5'] 1] := by
    decide +kernel
  have hkept := ((scan_glued_iff fraction hfraction).mp hlost).2
  rw [hlist] at hkept
  exact hkept _ _ _ (List.infix_refl _) hform

end LoxTokens
