import LoxTokens.Proofs.NumberLiterals
import LoxTokens.Proofs.ShortestDigits

/-!
# Decimals written down

What the two layouts of a decimal say, if they are read as exact numbers.  Neither layout loses
anything, and neither has more digits than the decimal, leading zeros apart.

- `Decimal.Spells` is the exact value of a numeral that may have an exponent,
  `Decimal.Spells.unique` says that a text has one value at most
- `Decimal.significantDigits` are the digits that count
- `Decimal.spells_positional` and `Decimal.spells_scientific` read the layouts back
- `Decimal.length_significantDigits_positional_le` and
  `Decimal.length_significantDigits_scientific_le` count their digits
-/

namespace LoxTokens

open Binary64 Grammar

namespace Decimal

/-! ## Reading -/

/-- The exact value of a text: a numeral, or a numeral and the power of ten that it is times. -/
inductive Spells : List Char → ℚ → Prop where
  | numeral {text : List Char} : IsNumeral text → Spells text (numeralValue text)
  | scaled {text : List Char} {z : ℤ} :
      IsNumeral text → Spells (text ++ 'e' :: z.repr.toList) (numeralValue text * 10 ^ z)

/-- The digits of a text in front of the exponent, without the zeros that lead. -/
def significantDigits (text : List Char) : List Char :=
  ((text.takeWhile (· != 'e')).filter Char.isDigit).dropWhile (· == '0')

theorem isDigits_toDigits (n : ℕ) : IsDigits (Nat.toDigits 10 n) where
  left := Nat.toDigits_ne_nil
  right _ hc := isDigit_iff.mp (Nat.isDigit_of_mem_toDigits (by decide) (by decide) hc)

theorem toDigits_injective : Function.Injective (Nat.toDigits 10) := by
  intro n n' h
  have hvalue := congrArg (Nat.ofDigitChars 10 · 0) h
  simpa only [Nat.ofDigitChars_ten_toDigits] using hvalue

/-- The text of an integer is its digits, and a sign in front of them if it is negative. -/
theorem toList_repr (z : ℤ) :
    z.repr.toList = (if 0 ≤ z then [] else ['-']) ++ Nat.toDigits 10 z.natAbs := by
  rw [Int.repr_eq_if, Nat.repr_eq_ofList_toDigits, Nat.repr_eq_ofList_toDigits]
  by_cases hz : 0 ≤ z
  · have hsize : z.toNat = z.natAbs := by omega
    rw [if_pos hz, if_pos hz, String.toList_ofList, hsize, List.nil_append]
  · have hsize : (-z).toNat = z.natAbs := by omega
    have hminus : "-".toList = ['-'] := rfl
    rw [if_neg hz, if_neg hz, String.toList_append, hminus, String.toList_ofList, hsize]

/-- The text of an integer is that of no other integer. -/
theorem eq_of_toList_repr_eq {z z' : ℤ} (h : z.repr.toList = z'.repr.toList) : z = z' := by
  have hsign : ∀ n others, Nat.toDigits 10 n ≠ '-' :: others := by
    intro n others hdigits
    have hdigit : IsDigit '-' := (isDigits_toDigits n).2 '-' (hdigits ▸ List.mem_cons_self)
    exact absurd hdigit (by decide)
  rw [toList_repr, toList_repr] at h
  by_cases hz : 0 ≤ z <;> by_cases hz' : 0 ≤ z'
  · rw [if_pos hz, if_pos hz'] at h
    have hsize : z.natAbs = z'.natAbs := toDigits_injective h
    omega
  · rw [if_pos hz, if_neg hz'] at h
    exact absurd h (hsign _ _)
  · rw [if_neg hz, if_pos hz'] at h
    exact absurd h.symm (hsign _ _)
  · rw [if_neg hz, if_neg hz'] at h
    have hsize : z.natAbs = z'.natAbs := toDigits_injective (List.cons.inj h).2
    omega

/-- A numeral has nothing but digits and a point. -/
theorem notMem_of_isNumeral {text : List Char} (h : IsNumeral text) {c : Char}
    (hdigit : ¬ IsDigit c) (hpoint : c ≠ '.') : c ∉ text :=
  fun hmem => (h.mem hmem).elim hdigit hpoint

theorem letter_notMem_of_isNumeral {text : List Char} (h : IsNumeral text) : 'e' ∉ text :=
  notMem_of_isNumeral h (by decide) (by decide)

/-- The numeral and the exponent are told apart by the letter. -/
theorem eq_of_append_letter_eq {front front' back back' : List Char} (hfront : IsNumeral front)
    (hfront' : IsNumeral front') (h : front ++ 'e' :: back = front' ++ 'e' :: back') :
    front = front' ∧ back = back' := by
  have hstop : ('e' != 'e') = false := by decide
  have hfree := forall_ne_of_notMem (letter_notMem_of_isNumeral hfront)
  have hfree' := forall_ne_of_notMem (letter_notMem_of_isNumeral hfront')
  have htake := congrArg (List.takeWhile (· != 'e')) h
  have hdrop := congrArg (List.dropWhile (· != 'e')) h
  rw [takeWhile_append_cons hfree hstop, takeWhile_append_cons hfree' hstop] at htake
  rw [dropWhile_append_cons hfree hstop, dropWhile_append_cons hfree' hstop] at hdrop
  exact ⟨htake, (List.cons.inj hdrop).2⟩

/-- A text has one value at most. -/
theorem Spells.unique {text : List Char} {q q' : ℚ} (h : Spells text q) (h' : Spells text q') :
    q = q' := by
  -- a numeral has no letter, so the shape of the text tells how it is read
  have hletter : ∀ front back : List Char, ¬ IsNumeral (front ++ 'e' :: back) := fun front back h =>
    letter_notMem_of_isNumeral h (List.mem_append_right _ List.mem_cons_self)
  cases h with
  | numeral hnumeral =>
    cases h' with
    | numeral _ => rfl
    | scaled _ => exact absurd hnumeral (hletter _ _)
  | @scaled front z hfront =>
    generalize htext : front ++ 'e' :: z.repr.toList = other at h'
    cases h' with
    | numeral hnumeral =>
      rw [← htext] at hnumeral
      exact absurd hnumeral (hletter _ _)
    | @scaled front' z' hfront' =>
      rcases eq_of_append_letter_eq hfront hfront' htext with ⟨rfl, hexponent⟩
      rw [eq_of_toList_repr_eq hexponent]

/-- A text that has a value begins with a digit. -/
theorem Spells.exists_first {text : List Char} {q : ℚ} (h : Spells text q) :
    ∃ first others, text = first :: others ∧ IsDigit first := by
  have hnumeral : ∀ front : List Char, IsNumeral front →
      ∃ first others, front = first :: others ∧ IsDigit first := by
    intro front hfront
    rcases front with _ | ⟨first, others⟩
    · exact absurd rfl (Matches.number hfront).ne_nil
    · exact ⟨first, others, rfl, hfront.isDigit_head⟩
  cases h with
  | numeral htext => exact hnumeral _ htext
  | scaled hfront =>
    rcases hnumeral _ hfront with ⟨first, others, rfl, hfirst⟩
    exact ⟨first, _, rfl, hfirst⟩

theorem numeralValue_point {whole part : List Char} (h : IsDigits whole) :
    numeralValue (whole ++ '.' :: part) =
      Nat.ofDigitChars 10 whole 0 + Nat.ofDigitChars 10 part 0 / 10 ^ part.length := by
  have hpoint := forall_ne_point h.2
  unfold numeralValue
  simp only [takeWhile_append_cons hpoint (by decide : ('.' != '.') = false),
    dropWhile_append_cons hpoint (by decide : ('.' != '.') = false), List.tail_cons]

/-! ## The layout without an exponent -/

/-- The digits behind the point: this many places, or one if there are none. -/
def places (count n : ℕ) : List Char :=
  (Nat.toDigits 10 n).leftpad count '0'

theorem isDigits_places (count n : ℕ) : IsDigits (places count n) := by
  have hdigits := isDigits_toDigits n
  unfold places List.leftpad
  constructor
  · exact List.append_ne_nil_of_right_ne_nil _ hdigits.1
  · intro c hc
    rcases List.mem_append.mp hc with hzero | hdigit
    · rw [List.eq_of_mem_replicate hzero]
      decide
    · exact hdigits.2 c hdigit

theorem ofDigitChars_places (count n : ℕ) : Nat.ofDigitChars 10 (places count n) 0 = n := by
  unfold places List.leftpad
  rw [Nat.ofDigitChars_append, Nat.ofDigitChars_replicate_zero, Nat.mul_zero,
    Nat.ofDigitChars_ten_toDigits]

theorem length_places {count n : ℕ} (hcount : 0 < count) (h : n < 10 ^ count) :
    (places count n).length = count := by
  unfold places
  rw [List.length_leftpad]
  exact max_eq_left ((Nat.length_toDigits_le_iff (by decide) hcount).mpr h)

/-- The value of the digits behind the point.  The one digit for no places is zero. -/
theorem div_pow_length_places {count n : ℕ} (h : n < 10 ^ count) :
    (n : ℚ) / 10 ^ (places count n).length = n / 10 ^ count := by
  rcases Nat.eq_zero_or_pos count with rfl | hcount
  · have hzero : n = 0 := by omega
    rw [hzero, Nat.cast_zero, zero_div, zero_div]
  · rw [length_places hcount h]

variable {d : Decimal}

/-- The layout is that of the digits without the point, split in two by a division. -/
theorem positional_eq (d : Decimal) :
    d.positional =
      Nat.toDigits 10 (d.digits * 10 ^ d.exponent.toNat / 10 ^ (-d.exponent).toNat) ++ '.' ::
        places (-d.exponent).toNat
          (d.digits * 10 ^ d.exponent.toNat % 10 ^ (-d.exponent).toNat) := rfl

theorem isNumeral_positional (d : Decimal) : IsNumeral d.positional := by
  rw [positional_eq]
  exact .fraction (isDigits_toDigits _) (isDigits_places _ _)

theorem point_mem_positional (d : Decimal) : '.' ∈ d.positional := by
  rw [positional_eq]
  exact List.mem_append_right _ List.mem_cons_self

/-- A natural number has the digit zero behind the point. -/
theorem positional_natCast (k : ℕ) : positional ⟨k, 0⟩ = Nat.toDigits 10 k ++ ['.', '0'] := by
  have hwhole : k * 10 ^ (0 : ℤ).toNat / 10 ^ (-0 : ℤ).toNat = k := by simp
  have hpart : k * 10 ^ (0 : ℤ).toNat % 10 ^ (-0 : ℤ).toNat = 0 := by simp [Nat.mod_one]
  rw [positional_eq, hwhole, hpart]
  rfl

/-- The layout without an exponent keeps the value. -/
theorem spells_positional (d : Decimal) : Spells d.positional d.value := by
  have hone : 0 < 10 ^ (-d.exponent).toNat := Nat.pow_pos (by decide)
  have hpart := Nat.mod_lt (d.digits * 10 ^ d.exponent.toNat) hone
  have hvalue : numeralValue d.positional = d.value := by
    calc
      numeralValue d.positional
          = (d.digits * 10 ^ d.exponent.toNat / 10 ^ (-d.exponent).toNat : ℕ) +
              (d.digits * 10 ^ d.exponent.toNat % 10 ^ (-d.exponent).toNat : ℕ) /
                10 ^ (-d.exponent).toNat := by
            rw [positional_eq, numeralValue_point (isDigits_toDigits _),
              Nat.ofDigitChars_ten_toDigits, ofDigitChars_places, div_pow_length_places hpart]
      _ = d.value := by
            rw [value_eq_div, natCast_div_eq_add _ hone, Nat.cast_pow, Nat.cast_ofNat]
  rw [← hvalue]
  exact .numeral d.isNumeral_positional

/-! ## The layout with an exponent -/

/-- A first digit, and a point and the other digits if there are any. -/
def pointed (first : Char) (others : List Char) : List Char :=
  first :: if others.isEmpty then [] else '.' :: others

theorem isDigits_singleton {first : Char} {others : List Char} (h : IsDigits (first :: others)) :
    IsDigits [first] :=
  ⟨List.cons_ne_nil _ _, List.forall_mem_singleton.mpr (h.2 first List.mem_cons_self)⟩

theorem isNumeral_pointed {first : Char} {others : List Char} (h : IsDigits (first :: others)) :
    IsNumeral (pointed first others) := by
  have hfirst := isDigits_singleton h
  unfold pointed
  rcases others with _ | ⟨second, others⟩
  · exact .whole hfirst
  · exact .fraction hfirst
      ⟨List.cons_ne_nil _ _, fun c hc => h.2 c (List.mem_cons_of_mem first hc)⟩

theorem numeralValue_pointed {first : Char} {others : List Char} (h : IsDigits (first :: others)) :
    numeralValue (pointed first others) =
      Nat.ofDigitChars 10 (first :: others) 0 / 10 ^ others.length := by
  have hfirst := isDigits_singleton h
  unfold pointed
  rcases others with _ | ⟨second, others⟩
  · -- one digit stands without a point
    rw [List.isEmpty_nil, if_pos rfl, numeralValue_whole hfirst, Nat.cast_one, List.length_nil,
      pow_zero]
  · have hvalue : numeralValue ([first] ++ '.' :: second :: others) = _ :=
      numeralValue_fraction hfirst
    rw [Nat.cast_pow, Nat.cast_ofNat] at hvalue
    exact hvalue

/-- The digits of the layout are those of the decimal. -/
theorem exists_scientific_eq (d : Decimal) :
    ∃ first others, Nat.toDigits 10 d.digits = first :: others ∧
      d.scientific = pointed first others ++ 'e' :: (d.exponent + others.length).repr.toList := by
  rcases hdigits : Nat.toDigits 10 d.digits with _ | ⟨first, others⟩
  · -- every number has a digit
    exact absurd hdigits Nat.toDigits_ne_nil
  · refine ⟨first, others, rfl, ?_⟩
    unfold scientific
    rw [hdigits]
    rfl

theorem letter_mem_scientific (d : Decimal) : 'e' ∈ d.scientific := by
  rcases d.exists_scientific_eq with ⟨first, others, -, htext⟩
  rw [htext]
  exact List.mem_append_right _ List.mem_cons_self

/-- The layout with an exponent keeps the value. -/
theorem spells_scientific (d : Decimal) : Spells d.scientific d.value := by
  rcases d.exists_scientific_eq with ⟨first, others, hdigits, htext⟩
  have hisDigits := isDigits_toDigits d.digits
  rw [hdigits] at hisDigits
  have hten : (10 : ℚ) ≠ 0 := by norm_num
  have hvalue : numeralValue (pointed first others) * 10 ^ (d.exponent + others.length) =
      d.value := by
    rw [numeralValue_pointed hisDigits, ← hdigits, Nat.ofDigitChars_ten_toDigits, zpow_add₀ hten,
      zpow_natCast]
    unfold value
    field_simp
  rw [htext, ← hvalue]
  exact .scaled (isNumeral_pointed hisDigits)

/-! ## Digits that count -/

/-- Without leading zeros there are no more digits than the number needs. -/
theorem length_dropWhile_zero_le {digits : List Char} (h : ∀ c ∈ digits, IsDigit c) :
    (digits.dropWhile (· == '0')).length ≤
      (Nat.toDigits 10 (Nat.ofDigitChars 10 digits 0)).length := by
  induction digits with
  | nil => exact Nat.zero_le _
  | cons c digits ih =>
    by_cases hc : c = '0'
    · -- a leading zero adds nothing to the value
      have hzero : Nat.ofDigitChars 10 (c :: digits) 0 = Nat.ofDigitChars 10 digits 0 := by
        rw [hc, Nat.ofDigitChars_cons, Nat.mul_zero, Nat.zero_add, Nat.sub_self]
      rw [List.dropWhile_cons_of_pos (by simp [hc]), hzero]
      exact ih fun d hd => h d (List.mem_cons_of_mem c hd)
    · -- any other digit makes the value at least a power of ten
      have hpos : 0 < c.toNat - '0'.toNat := by
        have hle : '0'.toNat ≤ c.toNat := (h c List.mem_cons_self).1
        have hne : c.toNat ≠ '0'.toNat := fun heq => hc (Char.toNat_inj.mp heq)
        omega
      have hleast : 10 ^ digits.length ≤ Nat.ofDigitChars 10 (c :: digits) 0 := by
        rw [Nat.ofDigitChars_cons, Nat.mul_zero, Nat.zero_add,
          Nat.ofDigitChars_eq_ofDigitChars_zero]
        exact (Nat.le_mul_of_pos_right _ hpos).trans (Nat.le_add_right _ _)
      rw [List.dropWhile_cons_of_neg (by simp [hc]), List.length_cons]
      exact (Nat.pow_lt_pow_iff_right (by decide)).mp
        (hleast.trans_lt (lt_pow_length_toDigits _))

theorem filter_isDigit {digits : List Char} (h : ∀ c ∈ digits, IsDigit c) :
    digits.filter Char.isDigit = digits :=
  List.filter_eq_self.mpr fun c hc => isDigit_iff.mpr (h c hc)

/-- Behind the sign the same digits count. -/
theorem significantDigits_minus (text : List Char) :
    significantDigits ('-' :: text) = significantDigits text := by
  have hfree : ('-' :: text).takeWhile (· != 'e') = '-' :: text.takeWhile (· != 'e') := by simp
  have hsign : ¬ Char.isDigit '-' = true := by decide
  unfold significantDigits
  rw [hfree, List.filter_cons_of_neg hsign]

/-- The digits on both sides of the point are counted as one number. -/
theorem length_significantDigits_point_le {whole part : List Char} (hwhole : IsDigits whole)
    (hpart : IsDigits part) :
    (significantDigits (whole ++ '.' :: part)).length ≤
      (Nat.toDigits 10 (Nat.ofDigitChars 10 (whole ++ part) 0)).length := by
  have hfree := forall_ne_of_notMem (letter_notMem_of_isNumeral (.fraction hwhole hpart))
  have hpoint : ¬ Char.isDigit '.' = true := by decide
  have hdigits : (whole ++ '.' :: part).filter Char.isDigit = whole ++ part := by
    rw [List.filter_append, List.filter_cons_of_neg hpoint, filter_isDigit hwhole.2,
      filter_isDigit hpart.2]
  unfold significantDigits
  rw [List.takeWhile_eq_self_iff.mpr hfree, hdigits]
  exact length_dropWhile_zero_le (List.forall_mem_append.mpr ⟨hwhole.2, hpart.2⟩)

/-- Unless it stands for a great whole number, the layout without an exponent has no more digits
than the decimal. -/
theorem length_significantDigits_positional_le (h : d.exponent < 0) :
    (significantDigits d.positional).length ≤ (Nat.toDigits 10 d.digits).length := by
  have hwhole : d.exponent.toNat = 0 := by omega
  have hplaces : 0 < (-d.exponent).toNat := by omega
  have hpart : d.digits % 10 ^ (-d.exponent).toNat < 10 ^ (-d.exponent).toNat :=
    Nat.mod_lt _ (Nat.pow_pos (by decide))
  -- all digits together are those of the decimal
  have hvalue : Nat.ofDigitChars 10 (Nat.toDigits 10 (d.digits / 10 ^ (-d.exponent).toNat) ++
      places (-d.exponent).toNat (d.digits % 10 ^ (-d.exponent).toNat)) 0 = d.digits := by
    rw [Nat.ofDigitChars_append, Nat.ofDigitChars_ten_toDigits,
      Nat.ofDigitChars_eq_ofDigitChars_zero, ofDigitChars_places, length_places hplaces hpart,
      Nat.div_add_mod]
  have hle := length_significantDigits_point_le
    (isDigits_toDigits (d.digits / 10 ^ (-d.exponent).toNat))
    (isDigits_places (-d.exponent).toNat (d.digits % 10 ^ (-d.exponent).toNat))
  rw [hvalue] at hle
  rw [positional_eq, hwhole, Nat.pow_zero, Nat.mul_one]
  exact hle

theorem filter_pointed {first : Char} {others : List Char} (h : IsDigits (first :: others)) :
    (pointed first others).filter Char.isDigit = first :: others := by
  have hfirst := isDigit_iff.mpr (h.2 first List.mem_cons_self)
  have hpoint : ¬ Char.isDigit '.' = true := by decide
  have hothers := filter_isDigit fun c hc => h.2 c (List.mem_cons_of_mem first hc)
  unfold pointed
  rw [List.filter_cons_of_pos hfirst]
  rcases others with _ | ⟨second, others⟩
  · rfl
  · rw [List.isEmpty_cons, if_neg Bool.false_ne_true, List.filter_cons_of_neg hpoint, hothers]

/-- The layout with an exponent has no more digits than the decimal. -/
theorem length_significantDigits_scientific_le (d : Decimal) :
    (significantDigits d.scientific).length ≤ (Nat.toDigits 10 d.digits).length := by
  rcases d.exists_scientific_eq with ⟨first, others, hdigits, htext⟩
  have hisDigits := isDigits_toDigits d.digits
  rw [hdigits] at hisDigits ⊢
  have hfree := forall_ne_of_notMem (letter_notMem_of_isNumeral (isNumeral_pointed hisDigits))
  unfold significantDigits
  rw [htext, takeWhile_append_cons hfree (by decide), filter_pointed hisDigits]
  exact List.length_dropWhile_le _ _

end Decimal

end LoxTokens
