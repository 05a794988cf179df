import LoxTokens.Proofs.NumberLiterals

/-!
# Equality of tokens

Tokens are compared field by field, and a number literal by its value.  So equality of tokens has
the two gaps of that of numbers: a token with a NaN differs from itself, and the signs of the zeros
are not told apart.  No scan finds a NaN or a signed number, and a lexeme says what its token is, so
for the tokens of scans the lexeme and the line decide.

- `Token.beq_iff` says when tokens are equal
- `Token.beq_self_iff` and `Token.beq_and_ne_iff` are the gaps
- `scanned_beq_iff` is the result
-/

namespace LoxTokens

universe u v

open Grammar

/-! ## Numbers -/

namespace Binary64

/-- The zero of this sign. -/
def zero (negative : Bool) : Binary64 where
  negative := negative
  magnitude := ⟨0, by decide⟩

theorem eq_zero_of_magnitude {x : Binary64} (h : x.magnitude.val = 0) : x = zero x.negative := by
  have hmagnitude : x.magnitude = (zero x.negative).magnitude := Fin.ext h
  rcases x with ⟨negative, magnitude⟩
  exact congrArg (mk negative) hmagnitude

/-- Numbers are equal if they are the same and no NaN, or if they are the two zeros. -/
theorem beq_iff {x y : Binary64} :
    (x == y) = true ↔ x = y ∧ x.isNaN = false ∨ ∃ sign, x = zero sign ∧ y = zero (!sign) := by
  have hdef : (x == y) = x.sameValue y := rfl
  rw [hdef]
  constructor
  · intro h
    have hparts : (x.isNaN = false ∧ y.isNaN = false) ∧
        (x = y ∨ x.magnitude.val = 0 ∧ y.magnitude.val = 0) := by
      simpa [sameValue] using h
    rcases hparts with ⟨⟨hnumber, -⟩, rfl | ⟨hx, hy⟩⟩
    · exact Or.inl ⟨rfl, hnumber⟩
    · -- zeros of one sign are the same
      have hzero := eq_zero_of_magnitude hx
      have hzero' := eq_zero_of_magnitude hy
      by_cases hsign : y.negative = x.negative
      · rw [hsign, ← hzero] at hzero'
        exact Or.inl ⟨hzero'.symm, hnumber⟩
      · rw [Bool.eq_not_of_ne hsign] at hzero'
        exact Or.inr ⟨x.negative, hzero, hzero'⟩
  · rintro (⟨rfl, hnumber⟩ | ⟨sign, rfl, rfl⟩)
    · simp [sameValue, hnumber]
    · cases sign <;> rfl

end Binary64

/-! ## Literals -/

namespace Literal

/-- Whether a literal is a number that is none. -/
def IsNaN (l : Literal) : Prop :=
  ∃ x, l = .number x ∧ x.isNaN = true

/-- Whether two literals are the zeros of either sign. -/
def AreZeros (l m : Literal) : Prop :=
  ∃ sign, l = .number (.zero sign) ∧ m = .number (.zero !sign)

theorem AreZeros.ne {l m : Literal} (h : l.AreZeros m) : l ≠ m := by
  rcases h with ⟨sign, rfl, rfl⟩
  intro heq
  have hsign : sign = !sign := congrArg Binary64.negative (number.inj heq)
  exact Bool.eq_not_self sign |>.mp hsign

theorem not_isNaN_number {x : Binary64} : ¬ (number x).IsNaN ↔ x.isNaN = false := by
  simp [IsNaN]

theorem beq_iff {l m : Literal} : (l == m) = true ↔ l = m ∧ ¬ l.IsNaN ∨ l.AreZeros m := by
  have hdef : (l == m) = l.sameValue m := rfl
  rw [hdef]
  cases l with
  | absent => cases m <;> simp [sameValue, IsNaN, AreZeros]
  | text s => cases m <;> simp [sameValue, IsNaN, AreZeros]
  | number x =>
    cases m with
    | number y =>
      -- the gaps are those of the numbers
      rw [sameValue, Binary64.beq_iff, not_isNaN_number, number.injEq]
      simp [AreZeros]
    | _ => simp [sameValue, AreZeros]

end Literal

/-! ## Tokens -/

namespace Token

theorem beq_iff_fields {t u : Token} :
    (t == u) = true ↔
      t.kind = u.kind ∧ t.lexeme = u.lexeme ∧ (t.literal == u.literal) = true ∧
        t.line = u.line := by
  have hdef : (t == u) = t.sameValue u := rfl
  rw [hdef]
  simp [sameValue, and_assoc]

/-- Tokens are equal if they are the same without a NaN, or if they differ in the sign of a zero
alone. -/
theorem beq_iff {t u : Token} :
    (t == u) = true ↔
      t = u ∧ ¬ t.literal.IsNaN ∨
        t.literal.AreZeros u.literal ∧ u = { t with literal := u.literal } := by
  rw [beq_iff_fields, Literal.beq_iff]
  rcases t with ⟨kind, lexeme, literal, line⟩
  rcases u with ⟨kind', lexeme', literal', line'⟩
  simp only [mk.injEq]
  tauto

/-- A token is equal to itself unless it has a NaN. -/
theorem beq_self_iff {t : Token} : (t == t) = true ↔ ¬ t.literal.IsNaN := by
  rw [beq_iff]
  constructor
  · rintro (⟨-, hnumber⟩ | ⟨hzeros, -⟩)
    · exact hnumber
    · exact absurd rfl hzeros.ne
  · exact fun hnumber => Or.inl ⟨rfl, hnumber⟩

/-- Different tokens are equal just if they differ in the sign of a zero alone. -/
theorem beq_and_ne_iff {t u : Token} :
    (t == u) = true ∧ t ≠ u ↔
      t.literal.AreZeros u.literal ∧ u = { t with literal := u.literal } := by
  rw [beq_iff]
  constructor
  · rintro ⟨⟨heq, -⟩ | hzeros, hne⟩
    · exact absurd heq hne
    · exact hzeros
  · intro hzeros
    exact ⟨Or.inr hzeros, fun heq => hzeros.1.ne (congrArg literal heq)⟩

end Token

/-! ## Tokens of scans -/

/-- A token that some scan finds. -/
def Token.Scanned (t : Token) : Prop :=
  ∃ source, t ∈ tokensOf source

/-- No scan finds a NaN: only a number has a number literal, and that is the rounding of its
numeral. -/
theorem Token.Spelled.not_isNaN {t : Token} (h : t.Spelled) : ¬ t.literal.IsNaN := by
  rintro ⟨x, hliteral, hnan⟩
  cases h with
  | eof => cases hliteral
  | @lexeme kind text line hmatches =>
    have hvalue : Literal.ofLexeme kind text = .number x := hliteral
    by_cases hnumber : kind = .number
    · -- rounding ends at a number or at an infinity
      subst hnumber
      have hread : (Decimal.ofNumeral text).toBinary64 = x := Literal.number.inj hvalue
      have hrounds := (roundsTo_numeralValue_iff (isNumeral_of_matches hmatches)).mpr hread.symm
      rw [hrounds.isNaN] at hnan
      cases hnan
    · have htext : kind ≠ .text := by
        rintro rfl
        cases hvalue
      rw [ofLexeme_of_ne htext hnumber] at hvalue
      cases hvalue

/-- A token of a scan is known by its lexeme and its line. -/
theorem Token.Spelled.eq_iff {t u : Token} (h : t.Spelled) (h' : u.Spelled) :
    t = u ↔ t.lexeme = u.lexeme ∧ t.line = u.line := by
  constructor
  · rintro rfl
    exact ⟨rfl, rfl⟩
  · rintro ⟨hlexeme, hline⟩
    have hcontent := h.content_eq h' hlexeme
    rcases t with ⟨kind, lexeme, literal, line⟩
    rcases u with ⟨kind', lexeme', literal', line'⟩
    simp_all [content]

theorem Token.Spelled.beq_iff_eq {t u : Token} (h : t.Spelled) (h' : u.Spelled) :
    (t == u) = true ↔ t = u := by
  constructor
  · intro hequal
    rcases beq_iff_fields.mp hequal with ⟨-, hlexeme, -, hline⟩
    exact (h.eq_iff h').mpr ⟨hlexeme, hline⟩
  · rintro rfl
    exact beq_self_iff.mpr h.not_isNaN

theorem Token.Scanned.spelled {t : Token} (h : t.Scanned) : t.Spelled := by
  rcases h with ⟨source, hmem⟩
  exact spelled_of_mem_tokensOf hmem

/-- Whatever the sink is, the tokens of a scan are among the scanned ones. -/
theorem scanned_of_mem_scan {σ : Type u} [Reporter σ] {source : String} {sink : σ} {t : Token}
    (h : t ∈ (scan source sink).1) : t.Scanned := by
  rw [scan_eq, ← tokensOf_eq] at h
  exact ⟨source, h⟩

theorem equivalence_scanned_beq :
    Equivalence fun t u : {t : Token // t.Scanned} => (t.val == u.val) = true where
  refl t := (t.property.spelled.beq_iff_eq t.property.spelled).mpr rfl
  symm {t u} h := by
    rw [t.property.spelled.beq_iff_eq u.property.spelled] at h
    exact (u.property.spelled.beq_iff_eq t.property.spelled).mpr h.symm
  trans {t u v} h h' := by
    rw [t.property.spelled.beq_iff_eq u.property.spelled] at h
    rw [u.property.spelled.beq_iff_eq v.property.spelled] at h'
    exact (t.property.spelled.beq_iff_eq v.property.spelled).mpr (h.trans h')

/-- Equality of scanned tokens is decided by the lexeme and the line.  Tokens of any scans, end
tokens among them, are equal just if these two agree, and then they are the same in every field, a
number in every bit; so on such tokens equality is an equivalence.  In general it is not: a token
with a NaN differs from itself, and different tokens are equal just if they differ in the sign of a
zero alone. -/
theorem scanned_beq_iff {σ : Type u} {τ : Type v} [Reporter σ] [Reporter τ] :
    (∀ (source source' : String) (sink : σ) (sink' : τ),
      ∀ t ∈ (scan source sink).1, ∀ t' ∈ (scan source' sink').1,
        ((t == t') = true ↔ t.lexeme = t'.lexeme ∧ t.line = t'.line) ∧
          ((t == t') = true → t = t')) ∧
      Equivalence (fun t t' : {t : Token // t.Scanned} => (t.val == t'.val) = true) ∧
      (∀ t : Token, (t == t) = false ↔ t.literal.IsNaN) ∧
      (∃ t : Token, (t == t) = false) ∧
      ∀ t t' : Token, (t == t') = true ∧ t ≠ t' ↔
        t.literal.AreZeros t'.literal ∧ t' = { t with literal := t'.literal } := by
  have hself : ∀ t : Token, (t == t) = false ↔ t.literal.IsNaN := by
    intro t
    rw [← Bool.not_eq_true, Token.beq_self_iff, not_not]
  refine ⟨?_, equivalence_scanned_beq, hself, ?_, fun _ _ => Token.beq_and_ne_iff⟩
  · intro source source' sink sink' t ht t' ht'
    have hspelled := (scanned_of_mem_scan ht).spelled
    have hspelled' := (scanned_of_mem_scan ht').spelled
    rw [hspelled.beq_iff_eq hspelled']
    exact ⟨hspelled.eq_iff hspelled', id⟩
  · -- any token may carry a NaN
    let nan : Binary64 := .ofBits 0x7ff8000000000000
    have hnan : nan.isNaN = true := by decide
    exact ⟨{ Token.eof 1 with literal := .number nan }, (hself _).mpr ⟨nan, rfl, hnan⟩⟩

/-- The zero behind a minus sign is the zero that stands alone, but not the one on the next line. -/
theorem scanned_beq_iff_zeros :
    let zero := Token.ofLexeme .number "0.0".toList
    let sink : Array Diagnostic := #[]
    zero 1 ∈ (scan "-0.0" sink).1 ∧ zero 1 ∈ (scan "0.0" sink).1 ∧ zero 2 ∈ (scan "\n0.0" sink).1 ∧
      ((zero 1 == zero 1) = true ↔
        (zero 1).lexeme = (zero 1).lexeme ∧ (zero 1).line = (zero 1).line) ∧
      ((zero 1 == zero 2) = true ↔
        (zero 1).lexeme = (zero 2).lexeme ∧ (zero 1).line = (zero 2).line) := by
  intro zero sink
  have hminus : (scan "-0.0" sink).1[1]? = some (zero 1) := by decide +kernel
  have halone : (scan "0.0" sink).1[0]? = some (zero 1) := by decide +kernel
  have hbelow : (scan "\n0.0" sink).1[0]? = some (zero 2) := by decide +kernel
  have hboth := scanned_beq_iff.1 "-0.0" "0.0" sink sink _ (List.mem_of_getElem? hminus) _
    (List.mem_of_getElem? halone)
  have hlines := scanned_beq_iff.1 "-0.0" "\n0.0" sink sink _ (List.mem_of_getElem? hminus) _
    (List.mem_of_getElem? hbelow)
  exact ⟨List.mem_of_getElem? hminus, List.mem_of_getElem? halone, List.mem_of_getElem? hbelow,
    hboth.1, hlines.1⟩

end LoxTokens
