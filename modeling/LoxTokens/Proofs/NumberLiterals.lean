import LoxTokens.Proofs.Rounding
import LoxTokens.Proofs.Spelling

/-!
# Number literals

The literal of a number is the exact value of its digits, correctly rounded.  No numeral is too long
for this, and none is refused, so nothing hangs on what would stand in for a numeral that is.

- `Grammar.numeralValue` is the exact value of a numeral
- `ReadsNumerals` is said of whatever reads numerals and rounds them correctly
- `number_literals_rounded` is the result
-/

namespace LoxTokens

universe u

open Grammar

/-! ## Exact values -/

/-- The exact value of a numeral: that of the digits in front of the point, and that of the digits
behind it divided by ten for each of them. -/
def Grammar.numeralValue (numeral : List Char) : ℚ :=
  let whole := numeral.takeWhile (· != '.')
  let part := (numeral.dropWhile (· != '.')).tail
  Nat.ofDigitChars 10 whole 0 + Nat.ofDigitChars 10 part 0 / 10 ^ part.length

namespace Grammar

theorem numeralValue_whole {digits : List Char} (h : IsDigits digits) :
    numeralValue digits = (Nat.ofDigitChars 10 digits 0 : ℚ) / (1 : ℕ) := by
  have hpoint := forall_ne_point h.2
  have htake : digits.takeWhile (· != '.') = digits := List.takeWhile_eq_self_iff.mpr hpoint
  have hdrop : digits.dropWhile (· != '.') = [] := List.dropWhile_eq_nil_iff.mpr hpoint
  simp [numeralValue, htake, hdrop]

theorem numeralValue_fraction {whole part : List Char} (h : IsDigits whole) :
    numeralValue (whole ++ '.' :: part) =
      (Nat.ofDigitChars 10 (whole ++ part) 0 : ℚ) / (10 ^ part.length : ℕ) := by
  have hpoint := forall_ne_point h.2
  have htake := takeWhile_append_cons hpoint (by decide : ('.' != '.') = false) part
  have hdrop := dropWhile_append_cons hpoint (by decide : ('.' != '.') = false) part
  have hdigits : Nat.ofDigitChars 10 (whole ++ part) 0 =
      10 ^ part.length * Nat.ofDigitChars 10 whole 0 + Nat.ofDigitChars 10 part 0 := by
    rw [Nat.ofDigitChars_append, Nat.ofDigitChars_eq_ofDigitChars_zero]
  have hpower : (10 : ℚ) ^ part.length ≠ 0 := by positivity
  unfold numeralValue
  simp only [htake, hdrop, List.tail_cons, hdigits]
  push_cast
  field_simp

/-- Reading a numeral rounds its exact value, and nothing else is the rounding of that. -/
theorem roundsTo_numeralValue_iff {numeral : List Char} (h : IsNumeral numeral) {x : Binary64} :
    x.RoundsTo (numeralValue numeral) ↔ x = (Decimal.ofNumeral numeral).toBinary64 := by
  cases h with
  | whole hdigits =>
    rw [numeralValue_whole hdigits, toBinary64_ofNumeral_whole hdigits]
    exact Binary64.roundsTo_iff_eq_ofRatio Nat.one_pos
  | fraction hwhole hpart =>
    rw [numeralValue_fraction hwhole, toBinary64_ofNumeral_fraction hwhole]
    exact Binary64.roundsTo_iff_eq_ofRatio (Nat.pow_pos (by decide))

/-- The text of a number is a numeral. -/
theorem isNumeral_of_matches {text : List Char} (h : Matches (.token .number) text) :
    IsNumeral text := by
  generalize hshape : Shape.token .number = shape at h
  cases h with
  | number hnumeral => exact hnumeral
  | operator hoperator =>
    cases hshape
    exact absurd rfl (ne_of_mem_operators hoperator).2
  | reserved hword =>
    cases hshape
    exact absurd rfl (ne_of_mem_reservedWords hword).2
  | _ => cases hshape

end Grammar

/-! ## Reading numerals -/

/-- Whatever reads texts as numbers reads every numeral, and rounds its exact value correctly. -/
def ReadsNumerals (read? : List Char → Option Binary64) : Prop :=
  ∀ numeral, IsNumeral numeral → ∃ x, read? numeral = some x ∧ x.RoundsTo (numeralValue numeral)

theorem readsNumerals_ofNumeral :
    ReadsNumerals fun numeral => some (Decimal.ofNumeral numeral).toBinary64 := by
  intro numeral hnumeral
  exact ⟨_, rfl, (roundsTo_numeralValue_iff hnumeral).mpr rfl⟩

/-- All that read numerals read the same numbers. -/
theorem ReadsNumerals.read?_eq {read? : List Char → Option Binary64} (h : ReadsNumerals read?)
    {numeral : List Char} (hnumeral : IsNumeral numeral) :
    read? numeral = some (Decimal.ofNumeral numeral).toBinary64 := by
  rcases h numeral hnumeral with ⟨x, hread, hrounds⟩
  rw [hread, (roundsTo_numeralValue_iff hnumeral).mp hrounds]

namespace Binary64

theorem RoundsTo.isInfinite_iff {q : ℚ} {x : Binary64} (h : x.RoundsTo q) :
    x.isInfinite = true ↔ 2 ^ 1024 - 2 ^ 970 ≤ q := by
  constructor
  · intro hinfinite
    by_contra hsmall
    have hfinite := isFinite_iff.mp (h.finite (not_le.mp hsmall))
    rw [Binary64.isInfinite_iff.mp hinfinite] at hfinite
    exact lt_irrefl _ hfinite
  · exact h.infinite

theorem RoundsTo.isNaN {q : ℚ} {x : Binary64} (h : x.RoundsTo q) : x.isNaN = false := by
  apply decide_eq_false
  rcases le_or_gt (2 ^ 1024 - 2 ^ 970) q with hlarge | hsmall
  · rw [Binary64.isInfinite_iff.mp (h.infinite hlarge)]
    exact lt_irrefl _
  · exact (isFinite_iff.mp (h.finite hsmall)).not_gt

end Binary64

/-! ## The literals of a scan -/

theorem exists_numeral_of_mem_tokensOf {source : String} {t : Token} (h : t ∈ tokensOf source)
    (hkind : t.kind = .number) :
    IsNumeral t.lexeme.toList ∧
      t.literal = .number (Decimal.ofNumeral t.lexeme.toList).toBinary64 := by
  cases spelled_of_mem_tokensOf h with
  | eof => cases hkind
  | @lexeme kind text line hmatches =>
    have hnumber : kind = .number := hkind
    subst hnumber
    have htext : (Token.ofLexeme .number text line).lexeme.toList = text := String.toList_ofList
    rw [htext]
    exact ⟨isNumeral_of_matches hmatches, rfl⟩

/-- Number literals are correctly rounded.  The lexeme of a number is a numeral, and its literal is
the one number to which the exact value of the numeral is rounded: the nearest one, a tie going to
the even significand, and infinity just from half a step past the greatest finite number on.  It is
neither NaN nor signed.  Whatever else reads numerals and rounds them correctly reads this one, so
nothing hangs on what would stand in for a numeral that is refused. -/
theorem number_literals_rounded {σ : Type u} [Reporter σ] (source : String) (sink : σ) (t : Token)
    (ht : t ∈ (scan source sink).1) (hkind : t.kind = .number) :
    IsNumeral t.lexeme.toList ∧
      ∃ x, t.literal = .number x ∧
        (∀ y : Binary64, y.RoundsTo (numeralValue t.lexeme.toList) ↔ y = x) ∧
        (x.isInfinite = true ↔ 2 ^ 1024 - 2 ^ 970 ≤ numeralValue t.lexeme.toList) ∧
        x.isNaN = false ∧ x.negative = false ∧
        ∀ read?, ReadsNumerals read? →
          read? t.lexeme.toList ≠ none ∧
            ∀ fallback, t.literal = .number ((read? t.lexeme.toList).getD fallback) := by
  have hmem : t ∈ tokensOf source := by
    rw [scan_eq] at ht
    rwa [tokensOf_eq]
  rcases exists_numeral_of_mem_tokensOf hmem hkind with ⟨hnumeral, hliteral⟩
  have hrounds := (roundsTo_numeralValue_iff hnumeral).mpr rfl
  refine ⟨hnumeral, _, hliteral, fun y => roundsTo_numeralValue_iff hnumeral,
    hrounds.isInfinite_iff, hrounds.isNaN, hrounds.sign, ?_⟩
  intro read? hread
  rw [hread.read?_eq hnumeral]
  refine ⟨nofun, ?_⟩
  intro fallback
  exact hliteral

/-- `2 ^ 53 + 1` is half the way between two numbers, and a digit far behind the point decides. -/
theorem number_literals_rounded_beyond_tie :
    let numeral := "9007199254740993.00000000000000000001"
    let token := Token.ofLexeme .number numeral.toList 2
    let above : Binary64 := .ofBits 0x4340000000000001
    token ∈ (scan ("var x =\n" ++ numeral ++ ";") (#[] : Array Diagnostic)).1 ∧
      token.kind = .number ∧
      token.literal = .number above ∧
      (∀ y : Binary64, y.RoundsTo (numeralValue token.lexeme.toList) ↔ y = above) ∧
      ∀ fallback, token.literal =
        .number ((some (Decimal.ofNumeral token.lexeme.toList).toBinary64).getD fallback) := by
  intro numeral token above
  have hmem : token ∈ (scan ("var x =\n" ++ numeral ++ ";") (#[] : Array Diagnostic)).1 := by
    have hthird : (scan ("var x =\n" ++ numeral ++ ";") (#[] : Array Diagnostic)).1[3]? =
        some token := by decide +kernel
    exact List.mem_of_getElem? hthird
  have hliteral : token.literal = .number above := by decide +kernel
  rcases number_literals_rounded _ _ token hmem rfl with
    ⟨_, x, hx, hrounds, _, _, _, hread⟩
  have hsame : x = above := by
    have hboth := hx.symm.trans hliteral
    cases hboth
    rfl
  rw [hsame] at hrounds
  exact ⟨hmem, rfl, hliteral, hrounds, (hread _ readsNumerals_ofNumeral).2⟩

end LoxTokens
