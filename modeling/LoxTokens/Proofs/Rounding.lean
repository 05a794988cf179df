import LoxTokens.Proofs.Magnitudes
import LoxTokens.Proofs.Nearest

/-!
# Rounding to double precision

A fraction is rounded to the nearest double-precision number, a tie going to the even significand,
and to infinity from half a step past the greatest finite number on.

- `Binary64.value` is the exact value of a bit pattern
- `Binary64.RoundsTo` says that a number is the rounding of an exact value
- `Binary64.nearestIn_nearestIndex` is the rounding without a greatest number
- `Binary64.roundsTo_iff_eq_ofRatio` is the result
-/

namespace LoxTokens

namespace Binary64

/-! ## Values -/

/-- The exponent field of the bit pattern. -/
def exponent (x : Binary64) : ℕ :=
  x.magnitude.val / 2 ^ 52

/-- The fraction field of the bit pattern, whose last bit is that of the significand. -/
def fraction (x : Binary64) : ℕ :=
  x.magnitude.val % 2 ^ 52

/-- The exact magnitude of a finite number.  Under the exponent zero the fraction is the
significand, and under any other one it follows a leading bit. -/
def size (x : Binary64) : ℚ :=
  if x.exponent = 0 then x.fraction * 2 ^ (-1074 : ℤ)
  else (2 ^ 52 + x.fraction) * 2 ^ ((x.exponent : ℤ) - 1075)

/-- The exact value of a finite number. -/
def value (x : Binary64) : ℚ :=
  if x.negative then -x.size else x.size

/-- The rounding of an exact value that is not negative: nearest among the finite numbers, of two
equally near ones the one with the even significand, and infinity if the value is too great. -/
structure RoundsTo (q : ℚ) (x : Binary64) : Prop where
  sign : x.negative = false
  infinite : 2 ^ 1024 - 2 ^ 970 ≤ q → x.isInfinite = true
  finite : q < 2 ^ 1024 - 2 ^ 970 → x.isFinite = true
  nearest : x.isFinite = true → ∀ y : Binary64, y.isFinite = true →
    |x.value - q| ≤ |y.value - q|
  even : x.isFinite = true → ∀ y : Binary64, y.isFinite = true → y.value ≠ x.value →
    |x.value - q| = |y.value - q| → x.fraction % 2 = 0

/-- The value of the magnitude of this index. -/
def indexValue (index : ℕ) : ℚ :=
  indexQuanta index / 2 ^ 1074

theorem indexValue_strictMono : StrictMono indexValue := by
  intro i j hlt
  have hquanta : (indexQuanta i : ℚ) < indexQuanta j := by
    exact_mod_cast indexQuanta_strictMono hlt
  exact div_lt_div_of_pos_right hquanta (by positivity)

theorem indexValue_nonneg (index : ℕ) : 0 ≤ indexValue index := by
  unfold indexValue
  positivity

theorem indexValue_zero : indexValue 0 = 0 := by
  simp [indexValue, indexQuanta]

/-- The fields of a bit pattern count the quanta of its index. -/
theorem size_eq (x : Binary64) : x.size = indexValue x.magnitude.val := by
  have hquanta : indexQuanta x.magnitude.val =
      if x.exponent = 0 then x.magnitude.val
      else (2 ^ 52 + x.fraction) * 2 ^ (x.exponent - 1) := rfl
  have hunit : (2 : ℚ) ^ (-1074 : ℤ) = (2 ^ 1074)⁻¹ := by
    rw [zpow_neg]
    rfl
  unfold size indexValue
  by_cases hexponent : x.exponent = 0
  · have hfraction : x.magnitude.val = x.fraction := by
      unfold exponent at hexponent
      unfold fraction
      omega
    rw [if_pos hexponent, hquanta, if_pos hexponent, hfraction, hunit, div_eq_mul_inv]
  · have hpower : (2 : ℚ) ^ ((x.exponent : ℤ) - 1075) =
        2 ^ (x.exponent - 1) * 2 ^ (-1074 : ℤ) := by
      rw [← zpow_natCast, ← zpow_add₀ two_ne_zero]
      congr 1
      omega
    rw [if_neg hexponent, hquanta, if_neg hexponent, hpower, hunit, div_eq_mul_inv, ← mul_assoc]
    push_cast
    rfl

/-! ## The bounds of the format -/

/-- The last bit of the fraction is the last bit of the index. -/
theorem fraction_mod_two (x : Binary64) : x.fraction % 2 = x.magnitude.val % 2 := by
  unfold fraction
  omega

/-- Half the way between the last significand of a grid and the carry into the next grid. -/
theorem half_way_to_carry (shift : ℕ) :
    (indexValue (shift * 2 ^ 52 + (2 ^ 53 - 1)) + indexValue (shift * 2 ^ 52 + 2 ^ 53)) / 2 =
      (2 ^ 54 - 1) * 2 ^ shift / 2 ^ 1075 := by
  have hlast : Significand shift (2 ^ 53 - 1) := ⟨by omega, by omega⟩
  have hcarry : Significand shift (2 ^ 53) := ⟨by omega, by omega⟩
  have hunit : (2 : ℚ) ^ 1075 = 2 ^ 1074 * 2 := pow_succ 2 1074
  unfold indexValue
  rw [indexQuanta_add hlast, indexQuanta_add hcarry, hunit, ← add_div, div_div]
  congr 1
  push_cast
  ring

/-- Half the way between the greatest finite magnitude and the one that infinity stands for. -/
theorem half_way_to_infinity :
    (indexValue (infinityIndex - 1) + indexValue (infinityIndex - 1 + 1)) / 2 =
      2 ^ 1024 - 2 ^ 970 := by
  have hgreatest : infinityIndex - 1 = 2045 * 2 ^ 52 + (2 ^ 53 - 1) := rfl
  have hinfinity : infinityIndex - 1 + 1 = 2045 * 2 ^ 52 + 2 ^ 53 := rfl
  have hunits : (2 : ℚ) ^ 2045 = 2 ^ 970 * 2 ^ 1075 := by rw [← pow_add]
  have hnonzero : (2 : ℚ) ^ 1075 ≠ 0 := pow_ne_zero _ two_ne_zero
  calc
    (indexValue (infinityIndex - 1) + indexValue (infinityIndex - 1 + 1)) / 2
        = (2 ^ 54 - 1) * 2 ^ 2045 / 2 ^ 1075 := by
          rw [hinfinity, hgreatest, half_way_to_carry]
    _ = (2 ^ 54 - 1) * 2 ^ 970 := by rw [hunits, ← mul_assoc, mul_div_cancel_right₀ _ hnonzero]
    _ = 2 ^ 1024 - 2 ^ 970 := by rw [sub_mul, one_mul, ← pow_add]

/-! ## The grid of a quotient -/

/-- The grid on which a quotient is rounded: as fine as fifty-three bits allow. -/
def gridShift (scaled denominator : ℕ) : ℕ :=
  (scaled / denominator).log2 - 52

/-- On its grid a quotient has fifty-three bits before the point, or fewer on the finest grid. -/
theorem gridShift_spec (scaled : ℕ) {denominator : ℕ} (h : 0 < denominator) :
    scaled < 2 ^ 53 * (denominator * 2 ^ gridShift scaled denominator) ∧
      (gridShift scaled denominator = 0 ∨
        2 ^ 52 * (denominator * 2 ^ gridShift scaled denominator) ≤ scaled) := by
  have hregroup : ∀ bits shift : ℕ,
      2 ^ bits * (denominator * 2 ^ shift) = 2 ^ (bits + shift) * denominator := by
    intro bits shift
    rw [Nat.pow_add]
    ring
  rw [hregroup, hregroup]
  constructor
  · apply (Nat.div_lt_iff_lt_mul h).mp
    calc
      scaled / denominator < 2 ^ ((scaled / denominator).log2 + 1) := Nat.lt_log2_self
      _ ≤ 2 ^ (53 + gridShift scaled denominator) := by
            apply Nat.pow_le_pow_right Nat.zero_lt_two
            unfold gridShift
            omega
  · rcases Nat.eq_zero_or_pos (gridShift scaled denominator) with hfinest | hcoarse
    · exact Or.inl hfinest
    · right
      have hbits : 52 + gridShift scaled denominator = (scaled / denominator).log2 := by
        unfold gridShift at hcoarse ⊢
        omega
      have hnonzero : scaled / denominator ≠ 0 := by
        intro hzero
        unfold gridShift at hcoarse
        rw [hzero, Nat.log2_zero] at hcoarse
        omega
      apply (Nat.le_div_iff_mul_le h).mp
      rw [hbits]
      exact Nat.log2_self_le hnonzero

/-- Rounding a quotient on its grid gives a significand of that grid. -/
theorem significand_roundQuotient (scaled : ℕ) {denominator : ℕ} (h : 0 < denominator) :
    Significand (gridShift scaled denominator)
      (roundQuotient scaled (denominator * 2 ^ gridShift scaled denominator)) := by
  rcases gridShift_spec scaled h with ⟨hupper, hlower⟩
  generalize gridShift scaled denominator = shift at *
  have hstep : 0 < denominator * 2 ^ shift := Nat.mul_pos h (Nat.two_pow_pos shift)
  have hcast : (0 : ℚ) < (denominator * 2 ^ shift : ℕ) := by exact_mod_cast hstep
  have hmono : StrictMono fun k : ℕ => (k : ℚ) := Nat.strictMono_cast
  have hnearest := nearestIn_roundQuotient scaled hstep
  constructor
  · apply hnearest.le_of_le hmono (Set.mem_univ _)
    rw [div_le_iff₀ hcast]
    exact_mod_cast hupper.le
  · refine hlower.imp_right fun hnormal => ?_
    apply hnearest.ge_of_ge hmono (Set.mem_univ _)
    rw [le_div_iff₀ hcast]
    exact_mod_cast hnormal

/-! ## One grid and all magnitudes -/

/-- The step of a grid. -/
def gridStep (shift : ℕ) : ℚ :=
  2 ^ shift / 2 ^ 1074

theorem gridStep_pos (shift : ℕ) : 0 < gridStep shift := by
  unfold gridStep
  positivity

theorem indexValue_eq_mul_gridStep {shift index k : ℕ} (h : indexQuanta index = k * 2 ^ shift) :
    indexValue index = k * gridStep shift := by
  unfold indexValue gridStep
  rw [h, mul_div_assoc']
  push_cast
  rfl

theorem indexValue_lt_mul_gridStep {shift index k : ℕ} (h : indexQuanta index < k * 2 ^ shift) :
    indexValue index < k * gridStep shift := by
  unfold indexValue gridStep
  rw [mul_div_assoc']
  apply div_lt_div_of_pos_right _ (by positivity)
  exact_mod_cast h

theorem abs_mul_gridStep_sub (shift : ℕ) (a q : ℚ) :
    |a * gridStep shift - q * gridStep shift| = |a - q| * gridStep shift := by
  rw [← sub_mul, abs_mul, abs_of_pos (gridStep_pos shift)]

/-- Of a number between normal significands, every magnitude below them is farther away than the
nearest one of them. -/
theorem lt_abs_sub_of_below_grid {shift m j : ℕ} {q : ℚ}
    (hnearest : NearestIn Set.univ (fun k => (k : ℚ)) q m) (hlower : 2 ^ 52 ≤ q)
    (hbelow : indexQuanta j < 2 ^ 52 * 2 ^ shift) :
    |m * gridStep shift - q * gridStep shift| < |indexValue j - q * gridStep shift| := by
  have hstep := gridStep_pos shift
  have hj := indexValue_lt_mul_gridStep hbelow
  have hleast : ((2 ^ 52 : ℕ) : ℚ) * gridStep shift ≤ q * gridStep shift := by
    apply mul_le_mul_of_nonneg_right _ hstep.le
    exact_mod_cast hlower
  calc
    |m * gridStep shift - q * gridStep shift|
        = |(m : ℚ) - q| * gridStep shift := abs_mul_gridStep_sub shift m q
    _ ≤ |((2 ^ 52 : ℕ) : ℚ) - q| * gridStep shift :=
          mul_le_mul_of_nonneg_right (hnearest.le (2 ^ 52) (Set.mem_univ _)) hstep.le
    _ = q * gridStep shift - (2 ^ 52 : ℕ) * gridStep shift := by
          rw [← abs_mul_gridStep_sub, abs_of_nonpos (by linarith), neg_sub]
    _ < q * gridStep shift - indexValue j := by linarith
    _ = |indexValue j - q * gridStep shift| := by rw [abs_of_nonpos (by linarith), neg_sub]

/-- What is nearest on the grid of a number is nearest of all magnitudes: those that are not on the
grid lie below it. -/
theorem nearestIn_of_significand {shift m : ℕ} {q : ℚ} (hm : Significand shift m)
    (hnearest : NearestIn Set.univ (fun k => (k : ℚ)) q m)
    (hlower : shift = 0 ∨ 2 ^ 52 ≤ q) :
    NearestIn Set.univ indexValue (q * gridStep shift) (shift * 2 ^ 52 + m) := by
  have hstep := gridStep_pos shift
  have hpicked := indexValue_eq_mul_gridStep (indexQuanta_add hm)
  refine ⟨Set.mem_univ _, ?_, ?_⟩
  · intro j _
    rw [hpicked]
    rcases on_grid_or_below shift j with ⟨k, hk⟩ | ⟨hshift, hbelow⟩
    · rw [indexValue_eq_mul_gridStep hk, abs_mul_gridStep_sub, abs_mul_gridStep_sub]
      exact mul_le_mul_of_nonneg_right (hnearest.le k (Set.mem_univ k)) hstep.le
    · exact (lt_abs_sub_of_below_grid hnearest (hlower.resolve_left hshift) hbelow).le
  · intro j _ hj heq
    rw [hpicked] at heq
    rcases on_grid_or_below shift j with ⟨k, hk⟩ | ⟨hshift, hbelow⟩
    · have hk' : k ≠ m := by
        rintro rfl
        have hquanta : indexQuanta j = indexQuanta (shift * 2 ^ 52 + k) := by
          rw [hk, indexQuanta_add hm]
        exact hj (indexQuanta_strictMono.injective hquanta)
      rw [indexValue_eq_mul_gridStep hk, abs_mul_gridStep_sub, abs_mul_gridStep_sub] at heq
      have heven := hnearest.even k (Set.mem_univ k) hk' (mul_right_cancel₀ hstep.ne' heq)
      omega
    · have hfarther := lt_abs_sub_of_below_grid hnearest (hlower.resolve_left hshift) hbelow
      exact absurd heq hfarther.ne

/-! ## The nearest index -/

/-- A fraction is rounded to the nearest of all magnitudes, were there no greatest one. -/
theorem nearestIn_nearestIndex (numerator : ℕ) {denominator : ℕ} (h : 0 < denominator) :
    NearestIn Set.univ indexValue ((numerator : ℚ) / denominator)
      (nearestIndex numerator denominator) := by
  have hsignificand := significand_roundQuotient (numerator * quantaPerOne) h
  have hlower := (gridShift_spec (numerator * quantaPerOne) h).2
  have hindex : nearestIndex numerator denominator =
      gridShift (numerator * quantaPerOne) denominator * 2 ^ 52 +
        roundQuotient (numerator * quantaPerOne)
          (denominator * 2 ^ gridShift (numerator * quantaPerOne) denominator) := rfl
  rw [hindex]
  generalize gridShift (numerator * quantaPerOne) denominator = shift at *
  have hstep : 0 < denominator * 2 ^ shift := Nat.mul_pos h (Nat.two_pow_pos shift)
  have hcast : (0 : ℚ) < (denominator * 2 ^ shift : ℕ) := by exact_mod_cast hstep
  have hvalue : (numerator : ℚ) / denominator =
      (numerator * quantaPerOne : ℕ) / (denominator * 2 ^ shift : ℕ) * gridStep shift := by
    have hpower : ∀ n, ((Nat.pow 2 n : ℕ) : ℚ) = 2 ^ n := fun n => Nat.cast_pow 2 n
    have hquanta : (quantaPerOne : ℚ) = 2 ^ 1074 := by
      unfold quantaPerOne
      exact hpower 1074
    have hone : (2 : ℚ) ^ 1074 ≠ 0 := pow_ne_zero _ two_ne_zero
    have hdenominator : (denominator : ℚ) ≠ 0 := by exact_mod_cast h.ne'
    unfold gridStep
    rw [Nat.cast_mul, Nat.cast_mul, Nat.cast_pow, Nat.cast_ofNat, hquanta]
    generalize (2 : ℚ) ^ 1074 = one at *
    field_simp
  rw [hvalue]
  apply nearestIn_of_significand hsignificand (nearestIn_roundQuotient _ hstep)
  refine hlower.imp_right fun hnormal => ?_
  rw [le_div_iff₀ hcast]
  exact_mod_cast hnormal

/-! ## The nearest number -/

theorem value_of_positive {x : Binary64} (h : x.negative = false) :
    x.value = indexValue x.magnitude.val := by
  simp [value, h, size_eq]

theorem value_of_negative {x : Binary64} (h : x.negative = true) :
    x.value = -indexValue x.magnitude.val := by
  simp [value, h, size_eq]

theorem isFinite_iff {x : Binary64} : x.isFinite = true ↔ x.magnitude.val < infinityIndex :=
  decide_eq_true_iff

theorem isInfinite_iff {x : Binary64} : x.isInfinite = true ↔ x.magnitude.val = infinityIndex :=
  decide_eq_true_iff

/-- The finite number of this index, without a sign. -/
def ofIndex (index : ℕ) (h : index < infinityIndex) : Binary64 where
  negative := false
  magnitude := ⟨index, Nat.lt_trans h (by decide)⟩

/-- A finite number has the value of an index, or lies below zero and is farther away than any
member that is no farther away than zero. -/
theorem exists_index_or_lt {q : ℚ} (hq : 0 ≤ q) {i : ℕ}
    (hnear : |indexValue i - q| ≤ |indexValue 0 - q|) {y : Binary64} (hy : y.isFinite = true) :
    (∃ j < infinityIndex, y.value = indexValue j) ∨ |indexValue i - q| < |y.value - q| := by
  have hnonneg := indexValue_nonneg y.magnitude.val
  cases hsign : y.negative with
  | false => exact Or.inl ⟨y.magnitude.val, isFinite_iff.mp hy, value_of_positive hsign⟩
  | true =>
    have hvalue := value_of_negative hsign
    rcases hnonneg.eq_or_lt with hzero | hpos
    · -- the negative zero has the value of the other one
      left
      refine ⟨0, by decide, ?_⟩
      rw [hvalue, indexValue_zero, ← hzero, neg_zero]
    · right
      calc
        |indexValue i - q| ≤ |indexValue 0 - q| := hnear
        _ = q := by rw [indexValue_zero, zero_sub, abs_neg, abs_of_nonneg hq]
        _ < indexValue y.magnitude.val + q := by linarith
        _ = |y.value - q| := by
              rw [hvalue, abs_of_nonpos (by linarith)]
              ring

/-- The rounding of a value to a finite number is a matter of indices. -/
theorem nearestIn_of_roundsTo {q : ℚ} {x : Binary64} (h : RoundsTo q x)
    (hfinite : x.isFinite = true) :
    NearestIn (Set.Iio infinityIndex) indexValue q x.magnitude.val := by
  have hx := value_of_positive h.sign
  refine ⟨isFinite_iff.mp hfinite, ?_, ?_⟩
  · intro j hj
    have hother : (ofIndex j hj).value = indexValue j := value_of_positive rfl
    have hnearest := h.nearest hfinite (ofIndex j hj) (isFinite_iff.mpr hj)
    rwa [hx, hother] at hnearest
  · intro j hj hne heq
    have hother : (ofIndex j hj).value = indexValue j := value_of_positive rfl
    rw [← fraction_mod_two]
    apply h.even hfinite (ofIndex j hj) (isFinite_iff.mpr hj)
    · rw [hx, hother]
      exact indexValue_strictMono.injective.ne hne
    · rw [hx, hother]
      exact heq

theorem roundsTo_of_nearestIn {q : ℚ} (hq : 0 ≤ q) (hbound : q < 2 ^ 1024 - 2 ^ 970)
    {x : Binary64} (hsign : x.negative = false)
    (h : NearestIn (Set.Iio infinityIndex) indexValue q x.magnitude.val) : RoundsTo q x := by
  have hx := value_of_positive hsign
  have hzero : 0 ∈ Set.Iio infinityIndex := by decide
  have hnear := h.le 0 hzero
  refine ⟨hsign, fun hlarge => absurd hlarge hbound.not_ge, fun _ => isFinite_iff.mpr h.mem, ?_, ?_⟩
  · intro _ y hy
    rw [hx]
    rcases exists_index_or_lt hq hnear hy with ⟨j, hj, hvalue⟩ | hfarther
    · rw [hvalue]
      exact h.le j hj
    · exact hfarther.le
  · intro _ y hy hne heq
    rw [hx] at heq hne
    rw [fraction_mod_two]
    rcases exists_index_or_lt hq hnear hy with ⟨j, hj, hvalue⟩ | hfarther
    · rw [hvalue] at heq hne
      apply h.even j hj _ heq
      rintro rfl
      exact hne rfl
    · exact absurd heq hfarther.ne

/-- A value is rounded to one number only. -/
theorem RoundsTo.unique {q : ℚ} {x y : Binary64} (h : RoundsTo q x) (h' : RoundsTo q y) :
    x = y := by
  have hmagnitude : x.magnitude.val = y.magnitude.val := by
    rcases le_or_gt (2 ^ 1024 - 2 ^ 970) q with hlarge | hsmall
    · rw [isInfinite_iff.mp (h.infinite hlarge), isInfinite_iff.mp (h'.infinite hlarge)]
    · exact (nearestIn_of_roundsTo h (h.finite hsmall)).unique indexValue_strictMono
        Set.ordConnected_Iio (nearestIn_of_roundsTo h' (h'.finite hsmall))
  have hsign : x.negative = y.negative := h.sign.trans h'.sign.symm
  rcases x with ⟨negative, magnitude⟩
  rcases y with ⟨negative', magnitude'⟩
  rw [mk.injEq]
  exact ⟨hsign, Fin.ext hmagnitude⟩

/-- The index of infinity is reached from half a step past the greatest finite magnitude on. -/
theorem infinityIndex_le_iff (numerator : ℕ) {denominator : ℕ} (h : 0 < denominator) :
    infinityIndex ≤ nearestIndex numerator denominator ↔
      2 ^ 1024 - 2 ^ 970 ≤ (numerator : ℚ) / denominator := by
  have heven : (infinityIndex - 1 + 1) % 2 = 0 := by decide
  have hreached := (nearestIn_nearestIndex numerator h).succ_le_iff indexValue_strictMono heven
  rw [half_way_to_infinity] at hreached
  exact hreached

theorem roundsTo_ofRatio (numerator : ℕ) {denominator : ℕ} (h : 0 < denominator) :
    RoundsTo ((numerator : ℚ) / denominator) (ofRatio numerator denominator) := by
  have hbound := infinityIndex_le_iff numerator h
  have hmagnitude : (ofRatio numerator denominator).magnitude.val =
      min (nearestIndex numerator denominator) infinityIndex := rfl
  rcases le_or_gt infinityIndex (nearestIndex numerator denominator) with hlarge | hsmall
  · rw [min_eq_right hlarge] at hmagnitude
    have hfinite : (ofRatio numerator denominator).isFinite ≠ true := by
      rw [Ne, isFinite_iff, hmagnitude]
      exact lt_irrefl _
    exact ⟨rfl, fun _ => isInfinite_iff.mpr hmagnitude,
      fun hless => absurd (hbound.mp hlarge) hless.not_ge,
      fun hnot => absurd hnot hfinite, fun hnot => absurd hnot hfinite⟩
  · rw [min_eq_left hsmall.le] at hmagnitude
    have hnonneg : (0 : ℚ) ≤ (numerator : ℚ) / denominator := by positivity
    apply roundsTo_of_nearestIn hnonneg (not_le.mp (hbound.not.mp hsmall.not_ge)) rfl
    rw [hmagnitude]
    exact (nearestIn_nearestIndex numerator h).mono (Set.subset_univ _) hsmall

/-- A fraction of natural numbers has one rounding, and it is found. -/
theorem roundsTo_iff_eq_ofRatio {numerator denominator : ℕ} (h : 0 < denominator)
    {x : Binary64} :
    RoundsTo ((numerator : ℚ) / denominator) x ↔ x = ofRatio numerator denominator := by
  constructor
  · intro hx
    exact hx.unique (roundsTo_ofRatio numerator h)
  · rintro rfl
    exact roundsTo_ofRatio numerator h

-- half the way between two numbers, and down to the even one
example : (ofRatio 9007199254740993 1).toBits = 0x4340000000000000 := by decide +kernel

end Binary64

end LoxTokens
