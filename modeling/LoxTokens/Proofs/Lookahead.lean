import Mathlib.Data.List.Basic
import LoxTokens.Proofs.Extension

/-!
# Looking ahead

A lexeme is read no further, unless what stands behind it makes a longer match of it.  For each
class of kinds, two characters behind the lexeme settle this.

- `Grammar.Announces` says which first characters belong to which kinds
- `Grammar.Matches.begins_iff_within` turns reading a lexeme into a question about longer matches
- `Grammar.within_word`, `Grammar.within_number`, `Grammar.within_comparison`,
  `Grammar.within_slash` and `Grammar.within_closed` answer it, class by class, and
  `Grammar.within_comment` does so for comments
-/

namespace LoxTokens

open Grammar

/-! ## Classes of kinds -/

namespace TokenKind

/-- The kinds of words: reserved words and identifiers. -/
def IsWord (kind : TokenKind) : Prop :=
  kind.isKeyword = true ∨ kind = .identifier

/-- The operators that an equals sign behind them makes longer. -/
def IsComparison (kind : TokenKind) : Prop :=
  kind ∈ [bang, equal, less, greater]

instance : DecidablePred IsWord :=
  fun kind => inferInstanceAs (Decidable (kind.isKeyword = true ∨ kind = .identifier))

instance : DecidablePred IsComparison :=
  fun kind => inferInstanceAs (Decidable (kind ∈ [bang, equal, less, greater]))

theorem isWord_of_reserved {word : List Char} {kind : TokenKind}
    (h : (word, kind) ∈ Grammar.reservedWords) : kind.IsWord :=
  Or.inl (isKeyword_iff.mpr ⟨word, h⟩)

theorem isComparison_of_ofComparison? {c : Char} {alone joined : TokenKind}
    (h : ofComparison? c = some (alone, joined)) : alone.IsComparison := by
  unfold ofComparison? at h
  split at h <;> cases h <;> decide

/-- No word has another kind that goes on. -/
theorem IsWord.separate {kind : TokenKind} (h : kind.IsWord) :
    kind ≠ .number ∧ ¬ kind.IsComparison ∧ kind ∉ [equal, equalEqual] ∧ kind ≠ .slash ∧
      kind ≠ .dot := by
  revert h
  cases kind <;> decide

end TokenKind

namespace Grammar

/-! ## First characters of tokens -/

/-- What the first character of a lexeme tells about the kind. -/
structure Announces (first : Char) (kind : TokenKind) : Prop where
  letter : IsLetter first ↔ kind.IsWord
  digit : IsDigit first ↔ kind = .number
  equals : first = '=' ↔ kind ∈ [.equal, .equalEqual]
  slash : first = '/' ↔ kind = .slash
  point : first = '.' ↔ kind = .dot

theorem announces_of_mem_operators {entry : List Char × TokenKind} (h : entry ∈ operators) :
    Announces entry.1.head! entry.2 := by
  have table : ∀ entry ∈ operators,
      (IsLetter entry.1.head! ↔ entry.2.IsWord) ∧
      (IsDigit entry.1.head! ↔ entry.2 = .number) ∧
      (entry.1.head! = '=' ↔ entry.2 ∈ [.equal, .equalEqual]) ∧
      (entry.1.head! = '/' ↔ entry.2 = .slash) ∧
      (entry.1.head! = '.' ↔ entry.2 = .dot) := by
    decide
  rcases table entry h with ⟨hletter, hdigit, hequals, hslash, hpoint⟩
  exact ⟨hletter, hdigit, hequals, hslash, hpoint⟩

theorem announces_of_isLetter {first : Char} {kind : TokenKind} (h : IsLetter first)
    (hkind : kind.IsWord) : Announces first kind := by
  rcases hkind.separate with ⟨hnumber, -, hequal, hslash, hdot⟩
  have hne : ∀ c, ¬ IsLetter c → first ≠ c := by
    rintro c hc rfl
    exact hc h
  exact
    { letter := iff_of_true h hkind
      digit := iff_of_false (Lead.not_isDigit_of_isLetter h) hnumber
      equals := iff_of_false (hne '=' (by decide)) hequal
      slash := iff_of_false (hne '/' (by decide)) hslash
      point := iff_of_false (hne '.' (by decide)) hdot }

theorem announces_of_isDigit {first : Char} (h : IsDigit first) : Announces first .number := by
  have hne : ∀ c, ¬ IsDigit c → first ≠ c := by
    rintro c hc rfl
    exact hc h
  exact
    { letter := iff_of_false (fun hletter => Lead.not_isDigit_of_isLetter hletter h) (by decide)
      digit := iff_of_true h rfl
      equals := iff_of_false (hne '=' (by decide)) (by decide)
      slash := iff_of_false (hne '/' (by decide)) (by decide)
      point := iff_of_false (hne '.' (by decide)) (by decide) }

/-- The first character of a lexeme tells the class of its kind. -/
theorem Matches.announces {kind : TokenKind} {first : Char} {text : List Char}
    (h : Matches (.token kind) (first :: text)) : Announces first kind := by
  generalize hshape : Shape.token kind = shape at h
  generalize hall : first :: text = all at h
  cases h with
  | blank _ => cases hshape
  | comment _ => cases hshape
  | operator hoperator =>
    cases hshape
    subst hall
    exact announces_of_mem_operators hoperator
  | text _ =>
    cases hshape
    cases hall
    constructor <;> decide
  | number hnumeral =>
    cases hshape
    subst hall
    exact announces_of_isDigit hnumeral.isDigit_head
  | reserved hword =>
    cases hshape
    subst hall
    rcases isWord_of_mem_reservedWords hword with ⟨c, others, hlist, hletter, -⟩
    cases hlist
    exact announces_of_isLetter hletter (TokenKind.isWord_of_reserved hword)
  | identifier hword _ =>
    cases hshape
    cases hword with
    | mk hletter _ =>
      cases hall
      exact announces_of_isLetter hletter (Or.inr rfl)

/-- A lexeme goes on as its first character announces, and so does whatever is longer. -/
theorem Matches.exists_continues {kind : TokenKind} {text : List Char}
    (h : Matches (.token kind) text) :
    ∃ first others, text = first :: others ∧ Announces first kind ∧
      (Lead.ofChar first).Continues first (.token kind) others := by
  rcases text with _ | ⟨first, others⟩
  · exact absurd rfl h.ne_nil
  · exact ⟨first, others, rfl, h.announces, continues_of_matches h⟩

/-! ## Longer matches -/

theorem within_iff {text rest : List Char} :
    Within text rest ↔
      ∀ shape c behind, Matches shape (text ++ c :: behind) → ¬ c :: behind <+: rest := by
  constructor
  · intro h shape c behind hmatches hbehind
    have hle := h shape _ hmatches ((List.prefix_append_right_inj text).mpr hbehind)
    rw [List.length_append, List.length_cons] at hle
    omega
  · intro h shape other hmatches hstarts
    by_contra hlong
    rcases exists_append_of_prefix hstarts (Nat.lt_of_not_le hlong) with ⟨c, behind, rfl, hbehind⟩
    exact h shape c behind hmatches hbehind

/-- A lexeme is read where it stands, just if nothing behind it makes a longer match. -/
theorem Matches.begins_iff_within {shape : Shape} {text rest : List Char}
    (h : Matches shape text) :
    Begins (text ++ rest) { shape := shape, text := text } rest ↔ Within text rest := by
  constructor
  · intro hbegins shape' other hmatches hstarts
    generalize hinput : text ++ rest = input at hbegins hstarts
    cases hbegins with
    | longest hlongest => exact hlongest.longest shape' other hmatches hstarts
    | openText _ => cases h
    | stray _ _ => cases h
  · intro hwithin
    have hclosed : shape ≠ .openText := by
      rintro rfl
      cases h
    simpa using h.begins.append hclosed hwithin

/-! ## One class after the other -/

/-- A character behind a text, as the beginning of what stands behind it. -/
theorem singleton_starts {c : Char} {rest : List Char} (h : rest.head? = some c) :
    [c] <+: rest := by
  rcases List.head?_eq_some_iff.mp h with ⟨others, rfl⟩
  exact ⟨others, rfl⟩

theorem head?_of_starts {c : Char} {behind rest : List Char} (h : c :: behind <+: rest) :
    rest.head? = some c := by
  rcases h with ⟨others, rfl⟩
  rfl

/-- A word goes on with a letter or a digit. -/
theorem within_word {kind : TokenKind} {text rest : List Char}
    (h : Matches (.token kind) text) (hkind : kind.IsWord) :
    Within text rest ↔ ∀ c ∈ rest.head?, ¬ (IsLetter c ∨ IsDigit c) := by
  rcases h.exists_continues with ⟨first, others, rfl, hannounces, hown⟩
  have hlead : Lead.ofChar first = .letter :=
    Lead.ofChar_of_isLetter (hannounces.letter.mpr hkind)
  rw [hlead] at hown
  rw [within_iff]
  constructor
  · intro hnone c hc hpart
    have hlonger : (Lead.ofChar first).Continues first
        (.token (.ofWord (.ofList (first :: (others ++ [c]))))) (others ++ [c]) := by
      rw [hlead]
      refine ⟨rfl, ?_⟩
      intro d hd
      rcases List.mem_append.mp hd with hd | hd
      · exact hown.2 d hd
      · rw [List.mem_singleton.mp hd]
        exact isWordPart_iff.mpr hpart
    exact hnone _ c [] (matches_of_continues hlonger) (singleton_starts hc)
  · intro hhead shape c behind hmatches hbehind
    have hlonger := continues_of_matches hmatches
    rw [hlead] at hlonger
    have hpart : isWordPart c = true := hlonger.2 c (by simp)
    exact hhead c (head?_of_starts hbehind) (isWordPart_iff.mp hpart)

theorem point_notMem {digits : List Char} (h : ∀ c ∈ digits, IsDigit c) : '.' ∉ digits :=
  fun hmem => absurd (h '.' hmem) (by decide)

theorem IsNumeral.append_digit {text : List Char} {d : Char} (h : IsNumeral text)
    (hd : IsDigit d) : IsNumeral (text ++ [d]) := by
  have hmore : ∀ {digits : List Char}, IsDigits digits → IsDigits (digits ++ [d]) := by
    intro digits hdigits
    refine ⟨by simp, ?_⟩
    intro c hc
    rcases List.mem_append.mp hc with hc | hc
    · exact hdigits.2 c hc
    · rw [List.mem_singleton.mp hc]
      exact hd
  cases h with
  | whole hdigits => exact IsNumeral.whole (hmore hdigits)
  | fraction hwhole hpart =>
    rw [List.append_assoc, List.cons_append]
    exact IsNumeral.fraction hwhole (hmore hpart)

theorem IsNumeral.append_point {text : List Char} {d : Char} (h : IsNumeral text)
    (hpoint : '.' ∉ text) (hd : IsDigit d) : IsNumeral (text ++ ['.', d]) := by
  cases h with
  | whole hdigits =>
    refine IsNumeral.fraction hdigits ⟨by simp, ?_⟩
    intro c hc
    rw [List.mem_singleton.mp hc]
    exact hd
  | fraction _ _ => exact absurd (List.mem_append_right _ List.mem_cons_self) hpoint

/-- A longer numeral has a digit next, or the first point and a digit behind it. -/
theorem isNumeral_of_longer {text behind : List Char} {c : Char}
    (h : IsNumeral (text ++ c :: behind)) :
    IsDigit c ∨ (c = '.' ∧ '.' ∉ text ∧ ∃ d others, behind = d :: others ∧ IsDigit d) := by
  rcases h.mem (List.mem_append_right text List.mem_cons_self) with hdigit | rfl
  · exact Or.inl hdigit
  · right
    generalize hall : text ++ '.' :: behind = all at h
    cases h with
    | whole hdigits =>
      have hmem : '.' ∈ text ++ '.' :: behind := by simp
      exact absurd (hall ▸ hmem) (point_notMem hdigits.2)
    | @fraction whole part hwhole hpart =>
      -- there is one point only, so the text is what stands in front of it
      have hsame := (List.append_cons_inj_of_notMem (point_notMem hwhole.2)
        (point_notMem hpart.2)).mp hall.symm
      rcases hsame with ⟨rfl, -, rfl⟩
      refine ⟨rfl, point_notMem hwhole.2, ?_⟩
      rcases part with _ | ⟨d, others⟩
      · exact absurd rfl hpart.1
      · exact ⟨d, others, rfl, hpart.2 d List.mem_cons_self⟩

/-- A number goes on with a digit, or with a point and a digit behind it if it has no point yet. -/
theorem within_number {text rest : List Char} (h : Matches (.token .number) text) :
    Within text rest ↔
      (∀ c ∈ rest.head?, ¬ IsDigit c) ∧
        ('.' ∉ text → ∀ d, ['.', d] <+: rest → ¬ IsDigit d) := by
  rcases h.exists_continues with ⟨first, others, rfl, hannounces, hown⟩
  have hlead : Lead.ofChar first = .digit := Lead.ofChar_of_isDigit (hannounces.digit.mpr rfl)
  rw [hlead] at hown
  rw [within_iff]
  constructor
  · intro hnone
    refine ⟨?_, ?_⟩
    · intro c hc hdigit
      exact hnone _ c [] (Matches.number (hown.2.append_digit hdigit)) (singleton_starts hc)
    · intro hpoint d hbehind hdigit
      exact hnone _ '.' [d] (Matches.number (hown.2.append_point hpoint hdigit)) hbehind
  · rintro ⟨hdigit, hfraction⟩ shape c behind hmatches hbehind
    have hlonger := continues_of_matches hmatches
    rw [hlead] at hlonger
    have hnumeral : IsNumeral ((first :: others) ++ c :: behind) := hlonger.2
    rcases isNumeral_of_longer hnumeral with hc | ⟨rfl, hpoint, d, more, rfl, hd⟩
    · exact hdigit c (head?_of_starts hbehind) hc
    · have htwo : ['.', d] <+: '.' :: d :: more := ⟨more, rfl⟩
      exact hfraction hpoint d (htwo.trans hbehind) hd

/-- A comparison is one character, which may be joined with another. -/
theorem matches_comparison {kind : TokenKind} {text : List Char}
    (h : Matches (.token kind) text) (hkind : kind.IsComparison) :
    ∃ first joined, text = [first] ∧ Lead.ofChar first = .comparison kind joined := by
  have hmem : (text, kind) ∈ operators := by
    generalize hshape : Shape.token kind = shape at h
    cases h with
    | operator hoperator =>
      cases hshape
      exact hoperator
    | reserved hword =>
      cases hshape
      exact absurd hkind (TokenKind.isWord_of_reserved hword).separate.2.1
    | blank _ => cases hshape
    | comment _ => cases hshape
    | _ =>
      cases hshape
      exact absurd hkind (by decide)
  have htable : ∀ entry ∈ operators, entry.2.IsComparison →
      entry ∈ [(['!'], .bang), (['='], .equal), (['<'], .less), (['>'], .greater)] := by
    decide
  have hentry := htable _ hmem hkind
  simp only [List.mem_cons, Prod.mk.injEq, List.not_mem_nil, or_false] at hentry
  rcases hentry with ⟨rfl, rfl⟩ | ⟨rfl, rfl⟩ | ⟨rfl, rfl⟩ | ⟨rfl, rfl⟩
  · exact ⟨'!', .bangEqual, rfl, rfl⟩
  · exact ⟨'=', .equalEqual, rfl, rfl⟩
  · exact ⟨'<', .lessEqual, rfl, rfl⟩
  · exact ⟨'>', .greaterEqual, rfl, rfl⟩

/-- A comparison goes on with an equals sign. -/
theorem within_comparison {kind : TokenKind} {text rest : List Char}
    (h : Matches (.token kind) text) (hkind : kind.IsComparison) :
    Within text rest ↔ rest.head? ≠ some '=' := by
  rcases matches_comparison h hkind with ⟨first, joined, rfl, hlead⟩
  rw [within_iff]
  constructor
  · intro hnone hequals
    have hlonger : (Lead.ofChar first).Continues first (.token joined) ['='] := by
      rw [hlead]
      exact Or.inr ⟨rfl, rfl⟩
    exact hnone _ '=' [] (matches_of_continues hlonger) (singleton_starts hequals)
  · intro hhead shape c behind hmatches hbehind
    have hlonger : (Lead.ofChar first).Continues first shape (c :: behind) :=
      continues_of_matches hmatches
    rw [hlead] at hlonger
    rcases hlonger with ⟨-, hnil⟩ | ⟨-, hequals⟩
    · exact nomatch hnil
    · cases hequals
      exact hhead (head?_of_starts hbehind)

/-- A slash goes on with a slash, as a comment. -/
theorem within_slash {text rest : List Char} (h : Matches (.token .slash) text) :
    Within text rest ↔ rest.head? ≠ some '/' := by
  rcases h.exists_continues with ⟨first, others, rfl, hannounces, hown⟩
  have hfirst : first = '/' := hannounces.slash.mpr rfl
  subst hfirst
  rcases hown with ⟨-, rfl⟩ | ⟨hshape, -⟩
  · rw [within_iff]
    constructor
    · intro hnone hslash
      exact hnone _ '/' [] (Matches.comment List.not_mem_nil) (singleton_starts hslash)
    · intro hhead shape c behind hmatches hbehind
      have hlonger : Lead.slash.Continues '/' shape (c :: behind) := continues_of_matches hmatches
      rcases hlonger with ⟨-, hnil⟩ | ⟨-, body, -, hslash⟩
      · exact nomatch hnil
      · cases hslash
        exact hhead (head?_of_starts hbehind)
  · cases hshape

/-- A comment goes on with anything but a newline. -/
theorem within_comment {text rest : List Char} (h : Matches .comment text) :
    Within text rest ↔ ∀ c ∈ rest.head?, c = '\n' := by
  rw [within_iff]
  constructor
  · intro hnone c hc
    by_contra hne
    exact hnone _ c [] (h.comment_concat hne) (singleton_starts hc)
  · intro hhead shape c behind hmatches hbehind
    rcases matches_comment_iff.mp h with ⟨body, -, rfl⟩
    have hlonger : Lead.slash.Continues '/' shape (('/' :: body) ++ c :: behind) :=
      continues_of_matches hmatches
    rcases hlonger with ⟨-, hnil⟩ | ⟨-, body', hbody', hslash⟩
    · exact nomatch hnil
    · cases hslash
      rw [hhead c (head?_of_starts hbehind)] at hbody'
      exact hbody' (by simp)

/-- A comment that ends in front of a newline, or at the end, may be longer. -/
theorem Begins.comment_concat {text rest : List Char} {c : Char}
    (h : Begins (text ++ rest) { shape := .comment, text := text } rest) (hne : c ≠ '\n') :
    Begins (text ++ [c] ++ rest) { shape := .comment, text := text ++ [c] } rest := by
  have hmatches : Matches .comment text := h.grammatical nofun nofun
  have hlonger := hmatches.comment_concat hne
  rw [hmatches.begins_iff_within, within_comment hmatches] at h
  rw [hlonger.begins_iff_within, within_comment hlonger]
  exact h

/-- Any other token ends where it ends, whatever follows. -/
theorem within_closed {kind : TokenKind} {text : List Char} (h : Matches (.token kind) text)
    (hword : ¬ kind.IsWord) (hnumber : kind ≠ .number) (hcomparison : ¬ kind.IsComparison)
    (hslash : kind ≠ .slash) (rest : List Char) : Within text rest := by
  rcases h.exists_continues with ⟨first, others, rfl, hannounces, hown⟩
  rw [within_iff]
  intro shape c behind hmatches hbehind
  have hfits := Lead.fits_ofChar first
  have hlonger : (Lead.ofChar first).Continues first shape (others ++ c :: behind) :=
    continues_of_matches hmatches
  cases hlead : Lead.ofChar first with rw [hlead] at hown hlonger hfits
  | blank => exact nomatch hown.1
  | punctuation _ => exact absurd hlonger.2 (by simp)
  | comparison alone joined =>
    -- the joined form leaves nothing to be joined
    rcases hown with ⟨hshape, -⟩ | ⟨-, rfl⟩
    · cases hshape
      exact absurd (TokenKind.isComparison_of_ofComparison? hfits) hcomparison
    · rcases hlonger with ⟨-, hnil⟩ | ⟨-, hequals⟩
      · exact nomatch hnil
      · exact nomatch hequals
  | slash => exact absurd (hannounces.slash.mp hfits) hslash
  | quote =>
    -- a text ends at its second quote
    have htext : Matches (.token .text) (first :: others) := hown.1 ▸ h
    have hother : Matches (.token .text) (first :: others ++ c :: behind) := hlonger.1 ▸ hmatches
    have hsame := htext.text_eq_of_prefix hother (List.prefix_append _ _)
    exact absurd (List.self_eq_append_right.mp hsame) (List.cons_ne_nil c behind)
  | digit => exact absurd (hannounces.digit.mp hfits) hnumber
  | letter => exact absurd (hannounces.letter.mp hfits) hword
  | stray character => exact absurd hown id

/-! ## Other text behind a token -/

/-- A token ends where it ended when other text stands behind it, if that begins with a blank or as
the former did, and has no point and digit in front which the former did not have. -/
theorem Within.of_alike {kind : TokenKind} {text rest other : List Char} (h : Within text rest)
    (hmatches : Matches (.token kind) text)
    (hhead : ∀ c ∈ other.head?, c ∈ [' ', '\r', '\t', '\n'] ∨ rest.head? = some c)
    (hpoint : ∀ d, IsDigit d → ['.', d] <+: other → ['.', d] <+: rest) : Within text other := by
  -- what does not separate stood there before
  have hsame : ∀ c ∈ other.head?, ¬ Separates c → rest.head? = some c := fun c hc hsep =>
    (hhead c hc).resolve_left fun hblank => hsep (separates_of_mem_blanks hblank)
  by_cases hword : kind.IsWord
  · rw [within_word hmatches hword] at h ⊢
    intro c hc hpart
    have hsep : ¬ Separates c := fun hsep => hpart.elim hsep.1 hsep.2.1
    exact h c (hsame c hc hsep) hpart
  by_cases hcomparison : kind.IsComparison
  · rw [within_comparison hmatches hcomparison] at h ⊢
    exact fun hequals => h (hsame '=' hequals (by decide))
  by_cases hslash : kind = .slash
  · subst hslash
    rw [within_slash hmatches] at h ⊢
    exact fun hslash => h (hsame '/' hslash (by decide))
  by_cases hnumber : kind = .number
  · subst hnumber
    rw [within_number hmatches] at h ⊢
    refine ⟨fun c hc hdigit => ?_, fun hnone d hbehind hdigit => ?_⟩
    · have hsep : ¬ Separates c := fun hsep => hsep.2.1 hdigit
      exact h.1 c (hsame c hc hsep) hdigit
    · exact h.2 hnone d (hpoint d hdigit hbehind) hdigit
  · exact within_closed hmatches hword hnumber hcomparison hslash other

end Grammar

end LoxTokens
