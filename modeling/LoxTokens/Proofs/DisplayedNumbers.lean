import LoxTokens.Proofs.DecimalText
import LoxTokens.Proofs.Lookahead

/-!
# Displayed numbers

The text of a number says which number it is.  A scan finds the number again in the text of any
number that is displayed without an exponent.

- `Binary64.Displayed` lists the ways in which a finite magnitude is displayed, with the decimal
  that is written down
- `Binary64.StandsFor` reads a text as a number, sign and exponent included
- `display_faithful` and `display_scans_back` are the results
-/

namespace LoxTokens

open Grammar Decimal

namespace Binary64

/-- The number without its sign. -/
def abs (x : Binary64) : Binary64 :=
  { x with negative := false }

variable {x y : Binary64} {d : Decimal} {text : List Char}

/-! ## Sizes -/

theorem natCast_le_size_iff {k : ℕ} : k ≤ x.size ↔ k * quantaPerOne ≤ x.quanta := by
  rw [size_eq_div, le_div_iff₀ cast_quantaPerOne_pos]
  exact_mod_cast Iff.rfl

theorem size_eq_natCast_iff {k : ℕ} : x.size = k ↔ x.quanta = k * quantaPerOne := by
  rw [size_eq_div, div_eq_iff cast_quantaPerOne_pos.ne']
  exact_mod_cast Iff.rfl

theorem ten_pow_le_size_iff : 10 ^ 16 ≤ x.size ↔ Nat.pow 10 16 * quantaPerOne ≤ x.quanta := by
  rw [← natCast_le_size_iff]
  exact_mod_cast Iff.rfl

/-- A magnitude is a whole number if its quanta make up ones. -/
theorem exists_size_eq_natCast_iff :
    (∃ k : ℕ, x.size = k) ↔ x.quanta % quantaPerOne = 0 := by
  constructor
  · rintro ⟨k, hk⟩
    rw [size_eq_natCast_iff.mp hk, Nat.mul_mod_left]
  · intro hwhole
    refine ⟨x.quanta / quantaPerOne, size_eq_natCast_iff.mpr ?_⟩
    exact (Nat.div_mul_cancel (Nat.dvd_of_mod_eq_zero hwhole)).symm

theorem size_lt_of_whole {k : ℕ} (hless : k < 10 ^ 16) (hsize : x.size = k) : x.size < 10 ^ 16 := by
  rw [hsize]
  exact_mod_cast hless

/-! ## Ways of displaying a magnitude -/

/-- How a finite magnitude is displayed, and which decimal is written down. -/
inductive Displayed (x : Binary64) : Decimal → List Char → Prop where
  | great : 10 ^ 16 ≤ x.size → Displayed x x.shortest x.shortest.scientific
  | whole {k : ℕ} : k < 10 ^ 16 → x.size = k → Displayed x ⟨k, 0⟩ (positional ⟨k, 0⟩)
  | part : x.size < 10 ^ 16 → (∀ k : ℕ, x.size ≠ k) → Displayed x x.shortest x.shortest.positional

theorem exists_displayed (hfinite : x.isFinite = true) :
    ∃ d, Displayed x d x.displayMagnitude := by
  have hinfinite : ¬ x.isInfinite = true := by
    rw [isInfinite_iff]
    exact (isFinite_iff.mp hfinite).ne
  unfold displayMagnitude
  rw [if_neg hinfinite]
  -- the conditions are about quanta, the cases about the size
  by_cases hgreat : Nat.pow 10 16 * quantaPerOne ≤ x.quanta
  · rw [if_pos hgreat]
    exact ⟨_, .great (ten_pow_le_size_iff.mpr hgreat)⟩
  · have hsmall : x.size < 10 ^ 16 := not_le.mp (ten_pow_le_size_iff.not.mpr hgreat)
    rw [if_neg hgreat]
    by_cases hwhole : x.quanta % quantaPerOne = 0
    · rw [if_pos hwhole]
      have hsize : x.size = (x.quanta / quantaPerOne : ℕ) :=
        size_eq_natCast_iff.mpr (Nat.div_mul_cancel (Nat.dvd_of_mod_eq_zero hwhole)).symm
      refine ⟨_, .whole ?_ hsize⟩
      rw [hsize] at hsmall
      exact_mod_cast hsmall
    · rw [if_neg hwhole]
      refine ⟨_, .part hsmall fun k hk => ?_⟩
      exact hwhole (exists_size_eq_natCast_iff.mp ⟨k, hk⟩)

theorem quanta_pos_of_size_ne_zero (h : x.size ≠ 0) : 0 < x.quanta := by
  apply Nat.pos_of_ne_zero
  intro hzero
  apply h
  rw [size_eq_div, hzero, Nat.cast_zero, zero_div]

namespace Displayed

theorem quanta_pos_of_great (h : 10 ^ 16 ≤ x.size) : 0 < x.quanta := by
  apply quanta_pos_of_size_ne_zero
  intro hzero
  rw [hzero] at h
  exact absurd h (by norm_num)

theorem quanta_pos_of_part (h : ∀ k : ℕ, x.size ≠ k) : 0 < x.quanta :=
  quanta_pos_of_size_ne_zero fun hzero => h 0 (by rw [hzero, Nat.cast_zero])

/-- The decimal rounds to the magnitude. -/
theorem readsBack (h : x.Displayed d text) (hfinite : x.isFinite = true) :
    x.readsBack d = true := by
  cases h with
  | great hgreat => exact readsBack_shortest hfinite (quanta_pos_of_great hgreat)
  | @whole k _ hsize =>
    -- nothing is rounded
    apply readsBack_of_value_eq_size hfinite
    rw [hsize]
    unfold Decimal.value
    rw [zpow_zero, mul_one]
  | part _ hpart => exact readsBack_shortest hfinite (quanta_pos_of_part hpart)

theorem spells (h : x.Displayed d text) : Spells text d.value := by
  cases h with
  | great _ => exact spells_scientific _
  | whole _ _ => exact spells_positional _
  | part _ _ => exact spells_positional _

/-- A number that is not great is displayed as a numeral. -/
theorem isNumeral (h : x.Displayed d text) (hsmall : x.size < 10 ^ 16) : IsNumeral text := by
  cases h with
  | great hgreat => exact absurd hsmall hgreat.not_gt
  | whole _ _ => exact isNumeral_positional _
  | part _ _ => exact isNumeral_positional _

/-- Just the great numbers are displayed with an exponent. -/
theorem letter_mem_iff (h : x.Displayed d text) : 'e' ∈ text ↔ 10 ^ 16 ≤ x.size := by
  constructor
  · intro hmem
    by_contra hsmall
    exact letter_notMem_of_isNumeral (h.isNumeral (not_le.mp hsmall)) hmem
  · intro hgreat
    cases h with
    | great _ => exact letter_mem_scientific _
    | whole hless hsize => exact absurd hgreat (size_lt_of_whole hless hsize).not_ge
    | part hless _ => exact absurd hgreat hless.not_ge

theorem point_or_letter_mem (h : x.Displayed d text) : '.' ∈ text ∨ 'e' ∈ text := by
  cases h with
  | great _ => exact Or.inr (letter_mem_scientific _)
  | whole _ _ => exact Or.inl (point_mem_positional _)
  | part _ _ => exact Or.inl (point_mem_positional _)

/-- Unless the number is whole and not great, no decimal with fewer digits rounds to it. -/
theorem length_significantDigits_le (h : x.Displayed d text) (hfinite : x.isFinite = true)
    (hshort : 10 ^ 16 ≤ x.size ∨ ∀ k : ℕ, x.size ≠ k) {other : Decimal}
    (hother : x.readsBack other = true) :
    (significantDigits text).length ≤ (Nat.toDigits 10 other.digits).length := by
  cases h with
  | great hgreat =>
    exact (length_significantDigits_scientific_le _).trans
      (length_digits_shortest_le hfinite (quanta_pos_of_great hgreat) hother)
  | @whole k hless hsize =>
    rcases hshort with hgreat | hpart
    · exact absurd hgreat (size_lt_of_whole hless hsize).not_ge
    · exact absurd hsize (hpart k)
  | part hless hpart =>
    have hpos := quanta_pos_of_part hpart
    have hquanta : x.quanta % quantaPerOne ≠ 0 := fun hwhole =>
      absurd (exists_size_eq_natCast_iff.mpr hwhole) (not_exists.mpr hpart)
    have hnegative := exponent_neg_of_readsBack hfinite hquanta (readsBack_shortest hfinite hpos)
    exact (length_significantDigits_positional_le hnegative).trans
      (length_digits_shortest_le hfinite hpos hother)

/-- A whole number that is not great is displayed with its own digits and one zero. -/
theorem eq_of_whole (h : x.Displayed d text) {k : ℕ} (hless : k < 10 ^ 16) (hsize : x.size = k) :
    text = k.repr.toList ++ ['.', '0'] := by
  cases h with
  | great hgreat => exact absurd hgreat (size_lt_of_whole hless hsize).not_ge
  | @whole k' _ hsize' =>
    have hsame : k' = k := by exact_mod_cast hsize'.symm.trans hsize
    rw [hsame, Nat.toList_repr]
    exact positional_natCast k
  | part _ hpart => exact absurd hsize (hpart k)

end Displayed

/-! ## Reading a displayed number -/

/-- What reads back rounds to the magnitude. -/
theorem readsBack_iff_toBinary64_eq : x.readsBack d = true ↔ d.toBinary64 = x.abs := by
  unfold readsBack
  rw [decide_eq_true_iff]
  constructor
  · intro hmagnitude
    unfold abs
    rw [← hmagnitude]
    rfl
  · intro heq
    rw [heq]
    rfl

theorem roundsTo_value_iff_eq_abs (h : x.readsBack d = true) : y.RoundsTo d.value ↔ y = x.abs := by
  rw [roundsTo_value_iff, readsBack_iff_toBinary64_eq.mp h]

/-- The number that a text stands for: what is written is read exactly, and then rounded. -/
inductive StandsFor : List Char → Binary64 → Prop where
  | unsigned {text : List Char} {q : ℚ} {y : Binary64} :
      Spells text q → y.RoundsTo q → StandsFor text y
  | minus {text : List Char} {q : ℚ} {y : Binary64} :
      Spells text q → y.abs.RoundsTo q → y.negative = true → StandsFor ('-' :: text) y

theorem isNaN_of_isFinite (hfinite : x.isFinite = true) : x.isNaN = false :=
  decide_eq_false (isFinite_iff.mp hfinite).not_gt

theorem toList_display (h : x.isNaN = false) :
    (Literal.number x).display.toList =
      if x.negative then '-' :: x.displayMagnitude else x.displayMagnitude := by
  have hdisplay : (Literal.number x).display = x.display := rfl
  rw [hdisplay]
  unfold display
  rw [h, if_neg Bool.false_ne_true, String.toList_ofList]

theorem eq_iff_abs_eq : y = x ↔ y.negative = x.negative ∧ y.abs = x.abs := by
  rcases x with ⟨negative, magnitude⟩
  rcases y with ⟨negative', magnitude'⟩
  simp [abs]

/-- A text with a value stands for the number to which the value is rounded. -/
theorem standsFor_unsigned_iff {q : ℚ} (h : Spells text q) : StandsFor text y ↔ y.RoundsTo q := by
  constructor
  · intro hstands
    cases hstands with
    | unsigned htext hrounds => rwa [← htext.unique h]
    | minus _ _ _ =>
      -- a sign is no digit
      rcases h.exists_first with ⟨first, others, heq, hfirst⟩
      rw [← (List.cons.inj heq).1] at hfirst
      exact absurd hfirst (by decide)
  · exact .unsigned h

theorem standsFor_minus_iff {q : ℚ} (h : Spells text q) :
    StandsFor ('-' :: text) y ↔ y.negative = true ∧ y.abs.RoundsTo q := by
  constructor
  · intro hstands
    cases hstands with
    | unsigned hsigned _ =>
      rcases hsigned.exists_first with ⟨first, others, heq, hfirst⟩
      rw [← (List.cons.inj heq).1] at hfirst
      exact absurd hfirst (by decide)
    | minus htext hrounds hsign =>
      rw [← htext.unique h]
      exact ⟨hsign, hrounds⟩
  · rintro ⟨hsign, hrounds⟩
    exact .minus h hrounds hsign

/-- The text of a finite number stands for that number and for no other. -/
theorem standsFor_display_iff (hfinite : x.isFinite = true) :
    StandsFor (Literal.number x).display.toList y ↔ y = x := by
  rcases exists_displayed hfinite with ⟨d, hd⟩
  have hrounds : ∀ z : Binary64, z.RoundsTo d.value ↔ z = x.abs := fun _ =>
    roundsTo_value_iff_eq_abs (hd.readsBack hfinite)
  rw [toList_display (isNaN_of_isFinite hfinite)]
  cases hsign : x.negative with
  | true =>
    have hsame := eq_iff_abs_eq (x := x) (y := y)
    rw [hsign] at hsame
    rw [if_pos rfl, standsFor_minus_iff hd.spells, hrounds, hsame]
  | false =>
    have habs : x.abs = x := by
      unfold abs
      rw [← hsign]
    rw [if_neg Bool.false_ne_true, standsFor_unsigned_iff hd.spells, hrounds, habs]

theorem isInfinite_of_not_isFinite (hfinite : ¬ x.isFinite = true) (hnumber : x.isNaN = false) :
    x.isInfinite = true := by
  have hge : ¬ x.magnitude.val < infinityIndex := isFinite_iff.not.mp hfinite
  have hle : ¬ infinityIndex < x.magnitude.val := of_decide_eq_false hnumber
  exact isInfinite_iff.mpr (by omega)

theorem toList_display_of_isInfinite (hnumber : x.isNaN = false) (h : x.isInfinite = true) :
    (Literal.number x).display.toList =
      if x.negative then ['-', 'i', 'n', 'f'] else ['i', 'n', 'f'] := by
  rw [toList_display hnumber]
  unfold displayMagnitude
  rw [if_pos h]

/-- Just the texts of finite numbers have a point or an exponent. -/
theorem isFinite_iff_mem_display :
    x.isFinite = true ↔
      '.' ∈ (Literal.number x).display.toList ∨ 'e' ∈ (Literal.number x).display.toList := by
  by_cases hfinite : x.isFinite = true
  · refine iff_of_true hfinite ?_
    rcases exists_displayed hfinite with ⟨d, hd⟩
    rw [toList_display (isNaN_of_isFinite hfinite)]
    split
    · exact hd.point_or_letter_mem.imp (List.mem_cons_of_mem _) (List.mem_cons_of_mem _)
    · exact hd.point_or_letter_mem
  · refine iff_of_false hfinite ?_
    cases hnumber : x.isNaN with
    | true =>
      have hdisplay : (Literal.number x).display = "NaN" := if_pos hnumber
      rw [hdisplay]
      decide
    | false =>
      rw [toList_display_of_isInfinite hnumber (isInfinite_of_not_isFinite hfinite hnumber)]
      split <;> decide

/-- Two numbers that are displayed alike are the same. -/
theorem eq_of_display_eq (hx : x.isNaN = false) (hy : y.isNaN = false)
    (h : (Literal.number x).display = (Literal.number y).display) : x = y := by
  have hfinite : x.isFinite = true ↔ y.isFinite = true := by
    rw [isFinite_iff_mem_display, isFinite_iff_mem_display, h]
  by_cases hxf : x.isFinite = true
  · have hx' := (standsFor_display_iff hxf).mpr rfl
    rw [h] at hx'
    exact (standsFor_display_iff (hfinite.mp hxf)).mp hx'
  · -- what is infinite has only its sign
    have hxi := isInfinite_of_not_isFinite hxf hx
    have hyi := isInfinite_of_not_isFinite (hfinite.not.mp hxf) hy
    have htext := congrArg String.toList h
    rw [toList_display_of_isInfinite hx hxi, toList_display_of_isInfinite hy hyi] at htext
    have habs : x.abs = y.abs := by
      unfold abs
      rw [Fin.ext ((isInfinite_iff.mp hxi).trans (isInfinite_iff.mp hyi).symm)]
    rw [eq_iff_abs_eq]
    refine ⟨?_, habs⟩
    revert htext
    cases x.negative <;> cases y.negative <;> simp

end Binary64

open Binary64

/-- The text of a number literal says which number it is.  Different numbers have different texts,
where numbers differ if their bits do, and NaN apart.  What the text of a finite number says, read
as an exact decimal and rounded, is that number, sign included; from ten to the sixteenth on, and
for numbers that are not whole, no decimal with fewer digits rounds to it, and any other number is
written down exactly.  Just the finite numbers have a point or an exponent in their text, and just
those from ten to the sixteenth on an exponent. -/
theorem display_faithful :
    (∀ x y : Binary64, x.isNaN = false → y.isNaN = false → x.toBits ≠ y.toBits →
      (Literal.number x).display ≠ (Literal.number y).display) ∧
    (∀ x : Binary64, x.isFinite = true →
      (∀ y, StandsFor (Literal.number x).display.toList y ↔ y = x) ∧
      ((10 ^ 16 ≤ x.size ∨ ∀ k : ℕ, x.size ≠ k) → ∀ d : Decimal, x.abs.RoundsTo d.value →
        (significantDigits (Literal.number x).display.toList).length ≤
          (Nat.toDigits 10 d.digits).length) ∧
      (∀ k : ℕ, k < 10 ^ 16 → x.size = k →
        (Literal.number x).display = (if x.negative then "-" else "") ++ k.repr ++ ".0") ∧
      ('e' ∈ (Literal.number x).display.toList ↔ 10 ^ 16 ≤ x.size)) ∧
    ∀ x : Binary64, x.isFinite = true ↔
      '.' ∈ (Literal.number x).display.toList ∨ 'e' ∈ (Literal.number x).display.toList := by
  refine ⟨?_, ?_, fun _ => isFinite_iff_mem_display⟩
  · intro x y hx hy hbits hsame
    exact hbits (congrArg toBits (eq_of_display_eq hx hy hsame))
  · intro x hfinite
    rcases exists_displayed hfinite with ⟨d, hd⟩
    have htext := toList_display (isNaN_of_isFinite hfinite)
    refine ⟨fun _ => standsFor_display_iff hfinite, ?_, ?_, ?_⟩
    · intro hshort other hother
      have hback := readsBack_iff_toBinary64_eq.mpr (roundsTo_value_iff.mp hother).symm
      have hle := hd.length_significantDigits_le hfinite hshort hback
      rw [htext]
      -- the sign is no digit
      split
      · rwa [significantDigits_minus]
      · exact hle
    · intro k hless hsize
      apply String.toList_injective
      rw [htext, hd.eq_of_whole hless hsize, String.toList_append, String.toList_append]
      cases x.negative <;> rfl
    · rw [htext, ← hd.letter_mem_iff]
      split
      · simp
      · exact Iff.rfl

/-- Two neighbours of which the lower one is a power of two, a number that is written down exactly,
and the decimal of nineteen digits that is the exact value of the lower neighbour. -/
theorem display_faithful_neighbours :
    let power : Binary64 := .ofBits 0x43b0000000000000
    let next : Binary64 := .ofBits 0x43b0000000000001
    let whole : Binary64 := .ofBits 0xc340000000000001
    (power.isNaN = false ∧ next.isNaN = false ∧ power.toBits ≠ next.toBits ∧
        (Literal.number power).display ≠ (Literal.number next).display) ∧
      (power.isFinite = true ∧ 10 ^ 16 ≤ power.size ∧
        power.abs.RoundsTo (⟨1152921504606846976, 0⟩ : Decimal).value ∧
        (∀ y, StandsFor (Literal.number power).display.toList y ↔ y = power) ∧
        (significantDigits (Literal.number power).display.toList).length ≤
          (Nat.toDigits 10 1152921504606846976).length) ∧
      whole.isFinite = true ∧ whole.size = (9007199254740994 : ℕ) ∧
        (Literal.number whole).display = "-9007199254740994.0" := by
  intro power next whole
  have hpower : power.isFinite = true := by decide +kernel
  have hwhole : whole.isFinite = true := by decide +kernel
  have hbits : power.toBits ≠ next.toBits := by decide +kernel
  have hgreat : 10 ^ 16 ≤ power.size := ten_pow_le_size_iff.mpr (by decide +kernel)
  have hexact : power.abs.RoundsTo (⟨1152921504606846976, 0⟩ : Decimal).value :=
    roundsTo_value_iff.mpr (by decide +kernel)
  have hsize : whole.size = (9007199254740994 : ℕ) := size_eq_natCast_iff.mpr (by decide +kernel)
  have hdifferent := display_faithful.1 power next (by decide +kernel) (by decide +kernel) hbits
  rcases display_faithful.2.1 power hpower with ⟨hstands, hshort, -, -⟩
  rcases display_faithful.2.1 whole hwhole with ⟨-, -, hdigits, -⟩
  refine ⟨⟨by decide +kernel, by decide +kernel, hbits, hdifferent⟩,
    ⟨hpower, hgreat, hexact, hstands, hshort (Or.inl hgreat) _ hexact⟩, hwhole, hsize, ?_⟩
  rw [hdigits 9007199254740994 (by decide) hsize]
  decide +kernel

/-! ## Scanning a displayed number -/

/-- The tokens of a numeral, and of one with a minus in front of it. -/
theorem scan_numeral {source : String} {text : List Char} (h : IsNumeral text) (negative : Bool)
    (hsource : source.toList = if negative then '-' :: text else text) :
    reportsOf source = [] ∧
      tokensOf source =
        (if negative then [Token.ofLexeme .minus ['-'] 1] else []) ++
          [.ofLexeme .number text 1, .eof 1] := by
  have hnumber : Matches (.token .number) text := .number h
  have hminus : Matches (.token .minus) ['-'] := .operator (by decide)
  have hwithin : Within ['-'] text :=
    within_closed hminus (by decide) (by decide) (by decide) (by decide) text
  have hline : lineAfter source.toList = 1 := by
    -- the text is a single line
    have hfree : '\n' ∉ text := notMem_of_isNumeral h (by decide) (by decide)
    have hcount : source.toList.count '\n' = 0 := by
      rw [List.count_eq_zero, hsource]
      split
      · simpa using hfree
      · exact hfree
    unfold lineAfter
    rw [hcount]
  -- nothing makes a longer match of the minus
  have hcut : Cut source.toList ((if negative then [{ shape := .token .minus, text := ['-'] }]
      else []) ++ [{ shape := .token .number, text := text }]) := by
    rw [hsource]
    cases negative with
    | true => exact .next (hminus.begins_iff_within.mpr hwithin) (.next hnumber.begins .done)
    | false => exact .next hnumber.begins .done
  rw [reportsOf_eq, tokensOf_eq, ← cut_iff.mp hcut, hline]
  cases negative <;> exact ⟨rfl, rfl⟩

/-- A displayed number is found again by a scan.  Take a finite number below ten to the sixteenth,
of either sign: a scan of its text reports nothing and finds a minus if the sign bit is set, then
one number, which is the rest of the text and has just the bits of the number without its sign, and
an end token. -/
theorem display_scans_back (x : Binary64) (hfinite : x.isFinite = true) (hsize : x.size < 10 ^ 16) :
    ∃ text : String,
      (Literal.number x).display = (if x.negative then "-" else "") ++ text ∧
      reportsOf (Literal.number x).display = [] ∧
      tokensOf (Literal.number x).display =
        (if x.negative then [{ kind := .minus, lexeme := "-", literal := .absent, line := 1 }]
          else []) ++
        [{ kind := .number, lexeme := text,
           literal := .number { x with negative := false }, line := 1 },
          { kind := .eof, lexeme := "", literal := .absent, line := 1 }] := by
  rcases exists_displayed hfinite with ⟨d, hd⟩
  have hnumeral := hd.isNumeral hsize
  have htext := toList_display (isNaN_of_isFinite hfinite)
  rcases scan_numeral hnumeral x.negative htext with ⟨hreports, htokens⟩
  -- the literal is the one number to which the numeral rounds
  have hliteral : x.abs = (Decimal.ofNumeral x.displayMagnitude).toBinary64 := by
    rw [← roundsTo_numeralValue_iff hnumeral, ← hd.spells.unique (.numeral hnumeral)]
    exact (roundsTo_value_iff_eq_abs (hd.readsBack hfinite)).mpr rfl
  have hnumber : Token.ofLexeme .number x.displayMagnitude 1 =
      { kind := .number, lexeme := .ofList x.displayMagnitude, literal := .number x.abs,
        line := 1 } := by
    rw [hliteral]
    rfl
  refine ⟨.ofList x.displayMagnitude, ?_, hreports, ?_⟩
  · apply String.toList_injective
    rw [htext, String.toList_append, String.toList_ofList]
    cases x.negative <;> rfl
  · rw [htokens, hnumber]
    rfl

/-- Three times the least magnitude, and the greatest number below ten to the sixteenth, which has
more than fifty-three bits; both with a minus. -/
theorem display_scans_back_subnormal :
    let tiny : Binary64 := .ofBits 0x8000000000000003
    let whole : Binary64 := .ofBits 0xc341c37937e07fff
    (tiny.isFinite = true ∧ tiny.size < 10 ^ 16 ∧
        ∃ text : String,
          (Literal.number tiny).display = "-" ++ text ∧
          reportsOf (Literal.number tiny).display = [] ∧
          tokensOf (Literal.number tiny).display =
            [{ kind := .minus, lexeme := "-", literal := .absent, line := 1 },
              { kind := .number, lexeme := text,
                literal := .number { tiny with negative := false }, line := 1 },
              { kind := .eof, lexeme := "", literal := .absent, line := 1 }]) ∧
      whole.isFinite = true ∧ whole.size < 10 ^ 16 ∧
        (Literal.number whole).display = "-9999999999999998.0" ∧
        tokensOf "-9999999999999998.0" =
          [{ kind := .minus, lexeme := "-", literal := .absent, line := 1 },
            { kind := .number, lexeme := "9999999999999998.0",
              literal := .number { whole with negative := false }, line := 1 },
            { kind := .eof, lexeme := "", literal := .absent, line := 1 }] := by
  intro tiny whole
  have htiny : tiny.isFinite = true := by decide +kernel
  have hwhole : whole.isFinite = true := by decide +kernel
  have htinySize : tiny.size < 10 ^ 16 :=
    not_le.mp (ten_pow_le_size_iff.not.mpr (by decide +kernel))
  have hwholeSize : whole.size < 10 ^ 16 :=
    not_le.mp (ten_pow_le_size_iff.not.mpr (by decide +kernel))
  have hdisplay : (Literal.number whole).display = "-" ++ "9999999999999998.0" := by decide +kernel
  rcases display_scans_back whole hwhole hwholeSize with ⟨text, htext, -, htokens⟩
  have hsame : text = "9999999999999998.0" := by
    rw [hdisplay] at htext
    exact (String.append_right_inj _ |>.mp htext).symm
  rw [hsame, hdisplay] at htokens
  exact ⟨⟨htiny, htinySize, display_scans_back tiny htiny htinySize⟩, hwhole, hwholeSize, hdisplay,
    htokens⟩

end LoxTokens
