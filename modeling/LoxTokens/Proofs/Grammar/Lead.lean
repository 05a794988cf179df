import LoxTokens.Proofs.Grammar

/-!
# First characters of segments

The first character of a segment decides how the segment goes on.  Here the grammar is sorted by
first characters, which is the order in which a segment is read.

- `Lead.Continues` is what may follow a first character
- `Grammar.matches_cons_iff` says that this is the grammar again
-/

namespace LoxTokens

open Grammar

/-! ## The character classes -/

theorem isDigit_iff {c : Char} : c.isDigit = true ↔ IsDigit c := by
  simp [Char.isDigit, IsDigit, Char.le_def]

theorem isWordStart_iff {c : Char} : isWordStart c = true ↔ IsLetter c := by
  have hupper : c.isUpper = true ↔ 'A' ≤ c ∧ c ≤ 'Z' := decide_eq_true_iff
  have hlower : c.isLower = true ↔ 'a' ≤ c ∧ c ≤ 'z' := by
    change (decide ('a' ≤ c) && decide (c ≤ 'z')) = true ↔ _
    rw [Bool.and_eq_true, decide_eq_true_iff, decide_eq_true_iff]
  have halpha : c.isAlpha = (c.isUpper || c.isLower) := rfl
  rw [isWordStart, IsLetter, halpha, Bool.or_eq_true, Bool.or_eq_true, hupper, hlower, beq_iff_eq]
  grind

theorem isWordPart_iff {c : Char} : isWordPart c = true ↔ IsLetter c ∨ IsDigit c := by
  rw [← isWordStart_iff, ← isDigit_iff]
  simp [isWordPart, isWordStart, Char.isAlphanum]
  grind

theorem isBlank_iff {c : Char} : isBlank c = true ↔ c ∈ [' ', '\r', '\t', '\n'] := by
  simp [isBlank]
  grind

namespace Lead

/-- Which first characters announce a lead. -/
def Fits (first : Char) : Lead → Prop
  | blank => first ∈ [' ', '\r', '\t', '\n']
  | punctuation kind => TokenKind.ofPunctuation? first = some kind
  | comparison alone joined => TokenKind.ofComparison? first = some (alone, joined)
  | slash => first = '/'
  | quote => first = '"'
  | digit => IsDigit first
  | letter => IsLetter first
  | stray character => character = first

theorem fits_ofChar (c : Char) : (Lead.ofChar c).Fits c := by
  unfold Lead.ofChar
  split
  · next h => exact isBlank_iff.mp h
  split
  · assumption
  split
  · assumption
  split
  · next h => exact isDigit_iff.mp h
  split
  · next h => exact isWordStart_iff.mp h
  split
  · assumption
  · assumption
  · rfl

theorem ofChar_of_mem_blanks {c : Char} (h : c ∈ [' ', '\r', '\t', '\n']) :
    Lead.ofChar c = .blank := by
  unfold Lead.ofChar
  rw [if_pos (isBlank_iff.mpr h)]

/-- Letters and digits are no blanks, and they begin neither a comment nor a text. -/
theorem plain_of_isWordPart {c : Char} (h : isWordPart c = true) :
    ¬ isBlank c = true ∧ c ≠ '/' ∧ c ≠ '"' := by
  refine ⟨?_, ?_, ?_⟩
  · intro hblank
    simp only [isBlank_iff, List.mem_cons, List.not_mem_nil, or_false] at hblank
    rcases hblank with rfl | rfl | rfl | rfl <;> revert h <;> decide
  · rintro rfl
    revert h
    decide
  · rintro rfl
    revert h
    decide

theorem not_isDigit_of_isLetter {c : Char} (h : IsLetter c) : ¬ IsDigit c := by
  intro hdigit
  simp only [IsDigit, IsLetter, Char.le_def, UInt32.le_iff_toNat_le] at h hdigit
  have hnine : '9'.val.toNat = 57 := rfl
  -- all digits come before all letters
  rcases h with h | h | rfl
  · have : 'a'.val.toNat = 97 := rfl
    omega
  · have : 'A'.val.toNat = 65 := rfl
    omega
  · revert hdigit
    decide

theorem ofChar_of_isDigit {c : Char} (h : IsDigit c) : Lead.ofChar c = .digit := by
  rcases plain_of_isWordPart (isWordPart_iff.mpr (Or.inr h)) with ⟨hblank, hslash, hquote⟩
  unfold Lead.ofChar
  rw [if_neg hblank, if_neg hslash, if_neg hquote, if_pos (isDigit_iff.mpr h)]

theorem ofChar_of_isLetter {c : Char} (h : IsLetter c) : Lead.ofChar c = .letter := by
  rcases plain_of_isWordPart (isWordPart_iff.mpr (Or.inl h)) with ⟨hblank, hslash, hquote⟩
  have hdigit : ¬ c.isDigit = true := fun hc => not_isDigit_of_isLetter h (isDigit_iff.mp hc)
  unfold Lead.ofChar
  rw [if_neg hblank, if_neg hslash, if_neg hquote, if_neg hdigit, if_pos (isWordStart_iff.mpr h)]

/-- What may follow the first character of a segment, and the shape of the whole. -/
def Continues (first : Char) : Lead → Shape → List Char → Prop
  | blank, shape, text => shape = .blank ∧ text = []
  | punctuation kind, shape, text => shape = .token kind ∧ text = []
  | comparison alone joined, shape, text =>
    (shape = .token alone ∧ text = []) ∨ (shape = .token joined ∧ text = ['='])
  | slash, shape, text =>
    (shape = .token .slash ∧ text = []) ∨
      (shape = .comment ∧ ∃ body, '\n' ∉ body ∧ text = '/' :: body)
  | quote, shape, text => shape = .token .text ∧ ∃ body, '"' ∉ body ∧ text = body ++ ['"']
  | digit, shape, text => shape = .token .number ∧ IsNumeral (first :: text)
  | letter, shape, text =>
    shape = .token (.ofWord (.ofList (first :: text))) ∧ ∀ c ∈ text, isWordPart c = true
  | stray _, _, _ => False

end Lead

/-! ## Reserved words -/

/-- A word that is looked up is found just if the grammar reserves it, and with the kind it has
there. -/
theorem keyword?_ofList_eq_some_iff {word : List Char} {kind : TokenKind} :
    TokenKind.keyword? (.ofList word) = some kind ↔ (word, kind) ∈ reservedWords := by
  constructor
  · intro h
    have table : ∀ entry ∈ TokenKind.keywords, (entry.1.toList, entry.2) ∈ reservedWords := by
      decide
    rcases List.lookup_eq_some_iff.mp h with ⟨before, after, hkeywords, -⟩
    have hentry := table (.ofList word, kind) (by rw [hkeywords]; simp)
    rwa [String.toList_ofList] at hentry
  · intro h
    have table : ∀ entry ∈ reservedWords,
        TokenKind.keyword? (.ofList entry.1) = some entry.2 := by
      decide
    exact table _ h

theorem ofWord_of_mem_reservedWords {word : List Char} {kind : TokenKind}
    (h : (word, kind) ∈ reservedWords) : TokenKind.ofWord (.ofList word) = kind := by
  unfold TokenKind.ofWord
  rw [keyword?_ofList_eq_some_iff.mpr h]
  rfl

theorem keyword?_ofList_eq_none {word : List Char} (h : ∀ entry ∈ reservedWords, entry.1 ≠ word) :
    TokenKind.keyword? (.ofList word) = none := by
  rw [Option.eq_none_iff_forall_ne_some]
  intro kind hkeyword
  exact h _ (keyword?_ofList_eq_some_iff.mp hkeyword) rfl

/-- Just the reserved words have kinds that are kinds of keywords. -/
theorem isKeyword_iff {kind : TokenKind} :
    kind.isKeyword = true ↔ ∃ word, (word, kind) ∈ reservedWords := by
  constructor
  · intro h
    rcases List.any_eq_true.mp h with ⟨⟨word, kind'⟩, hentry, hkind⟩
    have hlookup : ∀ entry ∈ TokenKind.keywords, TokenKind.keyword? entry.1 = some entry.2 := by
      decide
    have hkeyword := hlookup _ hentry
    rw [eq_of_beq hkind, ← String.ofList_toList (s := word)] at hkeyword
    exact ⟨word.toList, keyword?_ofList_eq_some_iff.mp hkeyword⟩
  · rintro ⟨word, h⟩
    have table : ∀ entry ∈ reservedWords, entry.2.isKeyword = true := by decide
    exact table _ h

/-- A reserved word is a word. -/
theorem isWord_of_mem_reservedWords {entry : List Char × TokenKind} (h : entry ∈ reservedWords) :
    ∃ first others, entry.1 = first :: others ∧ IsLetter first ∧
      ∀ c ∈ others, isWordPart c = true := by
  have table : ∀ entry ∈ reservedWords,
      IsLetter entry.1.head! ∧ entry.1 ≠ [] ∧ entry.1.tail.all isWordPart = true := by
    decide
  rcases table entry h with ⟨hletter, hne, hothers⟩
  rcases hword : entry.1 with _ | ⟨first, others⟩
  · exact absurd hword hne
  · rw [hword] at hletter hothers
    exact ⟨first, others, rfl, hletter, List.all_eq_true.mp hothers⟩

namespace Grammar

/-! ## The grammar by first characters -/

theorem IsNumeral.isDigit_head {first : Char} {text : List Char}
    (h : IsNumeral (first :: text)) : IsDigit first := by
  generalize htext : first :: text = numeral at h
  cases h with
  | whole hdigits =>
    subst htext
    exact hdigits.2 first (by simp)
  | @fraction whole part hwhole hpart =>
    cases whole with
    | nil => exact absurd rfl hwhole.1
    | cons c whole =>
      rw [List.cons_append, List.cons.injEq] at htext
      rw [htext.1]
      exact hwhole.2 c (by simp)

/-- Each operator goes on as its first character announces. -/
theorem continues_of_mem_operators :
    ∀ entry ∈ operators,
      (Lead.ofChar entry.1.head!).Continues entry.1.head! (.token entry.2) entry.1.tail := by
  simp only [operators, List.forall_mem_cons, List.not_mem_nil, false_implies, implies_true,
    and_true]
  exact ⟨⟨rfl, rfl⟩, ⟨rfl, rfl⟩, ⟨rfl, rfl⟩, ⟨rfl, rfl⟩, ⟨rfl, rfl⟩, ⟨rfl, rfl⟩, ⟨rfl, rfl⟩,
    ⟨rfl, rfl⟩, ⟨rfl, rfl⟩, ⟨rfl, rfl⟩, .inl ⟨rfl, rfl⟩,
    .inl ⟨rfl, rfl⟩, .inr ⟨rfl, rfl⟩, .inl ⟨rfl, rfl⟩, .inr ⟨rfl, rfl⟩,
    .inl ⟨rfl, rfl⟩, .inr ⟨rfl, rfl⟩, .inl ⟨rfl, rfl⟩, .inr ⟨rfl, rfl⟩⟩

theorem continues_of_matches {shape : Shape} {first : Char} {text : List Char}
    (h : Matches shape (first :: text)) : (Lead.ofChar first).Continues first shape text := by
  generalize hall : first :: text = all at h
  cases h with
  | blank hblank =>
    cases hall
    rw [Lead.ofChar_of_mem_blanks hblank]
    exact ⟨rfl, rfl⟩
  | comment hbody =>
    cases hall
    exact Or.inr ⟨rfl, _, hbody, rfl⟩
  | operator hoperator =>
    subst hall
    exact continues_of_mem_operators _ hoperator
  | text hbody =>
    cases hall
    exact ⟨rfl, _, hbody, rfl⟩
  | number hnumeral =>
    subst hall
    rw [Lead.ofChar_of_isDigit hnumeral.isDigit_head]
    exact ⟨rfl, hnumeral⟩
  | @reserved word kind hword =>
    -- a reserved word is a word, and the table gives it its kind
    subst hall
    rcases isWord_of_mem_reservedWords hword with ⟨c, others, hlist, hletter, hothers⟩
    cases hlist
    rw [Lead.ofChar_of_isLetter hletter]
    refine ⟨?_, hothers⟩
    rw [ofWord_of_mem_reservedWords hword]
  | identifier hword hfree =>
    -- any other word is not in the table
    subst hall
    cases hword with
    | mk hletter hothers =>
      rw [Lead.ofChar_of_isLetter hletter]
      refine ⟨?_, fun c hc => isWordPart_iff.mpr (hothers c hc)⟩
      unfold TokenKind.ofWord
      rw [keyword?_ofList_eq_none hfree]
      rfl

theorem mem_operators_of_ofPunctuation? {c : Char} {kind : TokenKind}
    (h : TokenKind.ofPunctuation? c = some kind) : ([c], kind) ∈ operators := by
  unfold TokenKind.ofPunctuation? at h
  split at h <;> cases h <;> decide

theorem mem_operators_of_ofComparison? {c : Char} {alone joined : TokenKind}
    (h : TokenKind.ofComparison? c = some (alone, joined)) :
    ([c], alone) ∈ operators ∧ ([c, '='], joined) ∈ operators := by
  unfold TokenKind.ofComparison? at h
  split at h <;> cases h <;> decide

/-- A word has the kind that the table of reserved words gives it. -/
theorem matches_word {word : List Char} (h : IsWord word) :
    Matches (.token (.ofWord (.ofList word))) word := by
  unfold TokenKind.ofWord
  cases hkeyword : TokenKind.keyword? (.ofList word) with
  | some kind => exact Matches.reserved (keyword?_ofList_eq_some_iff.mp hkeyword)
  | none =>
    refine Matches.identifier h ?_
    rintro ⟨reserved, kind⟩ hentry rfl
    rw [keyword?_ofList_eq_some_iff.mpr hentry] at hkeyword
    cases hkeyword

theorem matches_of_continues {shape : Shape} {first : Char} {text : List Char}
    (h : (Lead.ofChar first).Continues first shape text) : Matches shape (first :: text) := by
  have hfits := Lead.fits_ofChar first
  cases hlead : Lead.ofChar first with rw [hlead] at h hfits
  | blank =>
    rcases h with ⟨rfl, rfl⟩
    exact Matches.blank hfits
  | punctuation kind =>
    rcases h with ⟨rfl, rfl⟩
    exact Matches.operator (mem_operators_of_ofPunctuation? hfits)
  | comparison alone joined =>
    have hoperators := mem_operators_of_ofComparison? hfits
    rcases h with ⟨rfl, rfl⟩ | ⟨rfl, rfl⟩
    · exact Matches.operator hoperators.1
    · exact Matches.operator hoperators.2
  | slash =>
    cases hfits
    rcases h with ⟨rfl, rfl⟩ | ⟨rfl, body, hbody, rfl⟩
    · exact Matches.operator (by decide)
    · exact Matches.comment hbody
  | quote =>
    cases hfits
    rcases h with ⟨rfl, body, hbody, rfl⟩
    exact Matches.text hbody
  | digit =>
    rcases h with ⟨rfl, hnumeral⟩
    exact Matches.number hnumeral
  | letter =>
    rcases h with ⟨rfl, hothers⟩
    exact matches_word ⟨hfits, fun c hc => isWordPart_iff.mp (hothers c hc)⟩
  | stray character =>
    exact absurd h id

/-- What the grammar knows, sorted by first characters. -/
theorem matches_cons_iff {shape : Shape} {first : Char} {text : List Char} :
    Matches shape (first :: text) ↔ (Lead.ofChar first).Continues first shape text :=
  ⟨continues_of_matches, matches_of_continues⟩

theorem Matches.ne_nil {shape : Shape} {text : List Char} (h : Matches shape text) : text ≠ [] := by
  cases h with
  | operator hoperator =>
    have table : ∀ entry ∈ operators, entry.1 ≠ [] := by decide
    exact table _ hoperator
  | number hnumeral =>
    cases hnumeral with
    | whole hdigits => exact hdigits.1
    | fraction _ _ => simp
  | reserved hword =>
    rcases isWord_of_mem_reservedWords hword with ⟨c, others, rfl, -⟩
    exact List.cons_ne_nil c others
  | identifier hword _ =>
    cases hword
    simp
  | _ => simp

/-- A text is a segment of one shape at most. -/
theorem Matches.shape_eq {shape shape' : Shape} {text : List Char} (h : Matches shape text)
    (h' : Matches shape' text) : shape = shape' := by
  rcases text with _ | ⟨first, text⟩
  · exact absurd rfl h.ne_nil
  rw [matches_cons_iff] at h h'
  -- The first character leaves a choice of shapes only where one of them has no more characters.
  cases hlead : Lead.ofChar first with rw [hlead] at h h'
  | comparison alone joined =>
    rcases h with ⟨rfl, rfl⟩ | ⟨rfl, rfl⟩ <;> rcases h' with ⟨rfl, h'⟩ | ⟨rfl, h'⟩
    · rfl
    · simp at h'
    · simp at h'
    · rfl
  | slash =>
    rcases h with ⟨rfl, rfl⟩ | ⟨rfl, body, hbody, rfl⟩ <;>
      rcases h' with ⟨rfl, h'⟩ | ⟨rfl, body', hbody', h'⟩
    · rfl
    · simp at h'
    · simp at h'
    · rfl
  | stray character => exact absurd h id
  | _ => exact h.1.trans h'.1.symm

/-! ## Kinds with a value -/

theorem ne_of_mem_operators {entry : List Char × TokenKind} (h : entry ∈ operators) :
    entry.2 ≠ .text ∧ entry.2 ≠ .number := by
  have table : ∀ entry ∈ operators, entry.2 ≠ .text ∧ entry.2 ≠ .number := by decide
  exact table entry h

theorem ne_of_mem_reservedWords {entry : List Char × TokenKind} (h : entry ∈ reservedWords) :
    entry.2 ≠ .text ∧ entry.2 ≠ .number := by
  have table : ∀ entry ∈ reservedWords, entry.2 ≠ .text ∧ entry.2 ≠ .number := by decide
  exact table entry h

theorem matches_text_iff {text : List Char} :
    Matches (.token .text) text ↔ ∃ body, '"' ∉ body ∧ text = '"' :: (body ++ ['"']) := by
  constructor
  · intro h
    generalize hshape : Shape.token .text = shape at h
    cases h with
    | operator hoperator =>
      cases hshape
      exact absurd rfl (ne_of_mem_operators hoperator).1
    | reserved hword =>
      cases hshape
      exact absurd rfl (ne_of_mem_reservedWords hword).1
    | text hbody => exact ⟨_, hbody, rfl⟩
    | _ => cases hshape
  · rintro ⟨body, hbody, rfl⟩
    exact Matches.text hbody

end Grammar

end LoxTokens
