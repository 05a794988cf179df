import Mathlib.Algebra.Order.Field.Power
import Mathlib.Algebra.Order.Floor.Semifield
import Mathlib.Data.Rat.Floor
import LoxTokens.Decimal.Shortest
import LoxTokens.Proofs.Rounding

/-!
# Shortest digits

The shortest decimal of a double-precision number rounds to that number, and no decimal with fewer
digits does.  A decimal of few digits that rounds to a number lies on a coarse grid, and then one of
the two neighbours of the number on that grid rounds to it as well.

- `Decimal.value` is the exact value of a decimal, `Binary64.readsBack_iff` says when it rounds to a
  number
- `Binary64.pointPlace_spec` counts the digits in front of the point
- `Binary64.onGrid?_ne_none` says that a grid is searched in full, `Binary64.seventeen_digits` that
  the search comes to an end
- `Binary64.readsBack_shortest` and `Binary64.length_digits_shortest_le` are the results
-/

namespace LoxTokens

open Binary64

/-! ## Exact values -/

namespace Decimal

/-- The exact value of a decimal. -/
def value (d : Decimal) : ℚ :=
  d.digits * 10 ^ d.exponent

theorem zpow_eq_div (e : ℤ) : (10 : ℚ) ^ e = 10 ^ e.toNat / 10 ^ (-e).toNat := by
  have hsplit : e = (e.toNat : ℤ) - ((-e).toNat : ℤ) := by omega
  conv_lhs => rw [hsplit]
  rw [zpow_sub₀ (by norm_num), zpow_natCast, zpow_natCast]

theorem value_eq_div (d : Decimal) :
    d.value = (d.digits * 10 ^ d.exponent.toNat : ℕ) / (10 ^ (-d.exponent).toNat : ℕ) := by
  unfold value
  rw [zpow_eq_div, mul_div_assoc']
  push_cast
  rfl

theorem value_le_value {m n : ℕ} (h : m ≤ n) (e : ℤ) :
    (⟨m, e⟩ : Decimal).value ≤ (⟨n, e⟩ : Decimal).value := by
  have hcast : (m : ℚ) ≤ n := by exact_mod_cast h
  exact mul_le_mul_of_nonneg_right hcast (by positivity)

theorem value_lt_value {m n : ℕ} (h : m < n) (e : ℤ) :
    (⟨m, e⟩ : Decimal).value < (⟨n, e⟩ : Decimal).value := by
  have hcast : (m : ℚ) < n := by exact_mod_cast h
  exact mul_lt_mul_of_pos_right hcast (by positivity)

/-- One unit more is one step of the grid farther. -/
theorem value_succ (n : ℕ) (e : ℤ) :
    (⟨n + 1, e⟩ : Decimal).value = (⟨n, e⟩ : Decimal).value + 10 ^ e := by
  unfold value
  push_cast
  ring

/-- Powers of ten move between the digits and the exponent. -/
theorem value_mul_pow (n count : ℕ) (e : ℤ) :
    (⟨n * 10 ^ count, e⟩ : Decimal).value = (⟨n, count + e⟩ : Decimal).value := by
  unfold value
  rw [Nat.cast_mul, Nat.cast_pow, Nat.cast_ofNat, ← zpow_natCast, mul_assoc,
    ← zpow_add₀ (by norm_num)]

theorem value_of_digits_eq_pow {d : Decimal} {count : ℕ} (h : d.digits = 10 ^ count) :
    d.value = 10 ^ (count + d.exponent) := by
  unfold value
  rw [h, Nat.cast_pow, Nat.cast_ofNat, ← zpow_natCast, ← zpow_add₀ (by norm_num)]

theorem value_pow (count : ℕ) (e : ℤ) : (⟨10 ^ count, e⟩ : Decimal).value = 10 ^ (count + e) :=
  value_of_digits_eq_pow rfl

/-- A decimal that is not below a power of ten lies on the grid that has as many places under this
power as the decimal has digits. -/
theorem exists_value_eq_on_grid {d : Decimal} {count : ℕ} {place : ℤ}
    (hdigits : d.digits < 10 ^ count) (hlarge : (10 : ℚ) ^ (place - 1) ≤ d.value) :
    ∃ m, (⟨m, place - count⟩ : Decimal).value = d.value := by
  have hless : (10 : ℚ) ^ (place - 1) < 10 ^ (count + d.exponent) := by
    calc
      (10 : ℚ) ^ (place - 1) ≤ d.value := hlarge
      _ < (⟨10 ^ count, d.exponent⟩ : Decimal).value := value_lt_value hdigits d.exponent
      _ = 10 ^ (count + d.exponent) := value_pow count d.exponent
  have hexponent : place - 1 < count + d.exponent :=
    (zpow_lt_zpow_iff_right₀ (by norm_num)).mp hless
  -- the exponent is not below that of the grid, so the digits take zeros up
  have hshift : ((d.exponent - (place - count)).toNat + (place - count) : ℤ) = d.exponent := by
    omega
  refine ⟨d.digits * 10 ^ (d.exponent - (place - count)).toNat, ?_⟩
  rw [value_mul_pow, hshift]

/-- The index that the value of a decimal is rounded to, were there no greatest one. -/
def index (d : Decimal) : ℕ :=
  nearestIndex (d.digits * 10 ^ d.exponent.toNat) (10 ^ (-d.exponent).toNat)

theorem nearestIn_index (d : Decimal) : NearestIn Set.univ indexValue d.value d.index := by
  rw [value_eq_div]
  exact nearestIn_nearestIndex _ (Nat.pow_pos (by decide))

/-- A decimal is rounded to one number, and it is found. -/
theorem roundsTo_value_iff {d : Decimal} {x : Binary64} :
    x.RoundsTo d.value ↔ x = d.toBinary64 := by
  rw [value_eq_div]
  exact roundsTo_iff_eq_ofRatio (Nat.pow_pos (by decide))

end Decimal

namespace Binary64

variable {x : Binary64} {d : Decimal}

/-! ## Exact magnitudes -/

theorem indexValue_eq_div (index : ℕ) : indexValue index = indexQuanta index / quantaPerOne := by
  unfold indexValue
  rw [quantaPerOne_eq rfl, Nat.cast_pow, Nat.cast_ofNat]

theorem size_eq_div (x : Binary64) : x.size = x.quanta / quantaPerOne :=
  (size_eq x).trans (indexValue_eq_div _)

theorem size_nonneg (x : Binary64) : 0 ≤ x.size := by
  rw [size_eq]
  exact indexValue_nonneg _

theorem cast_quantaPerOne_pos : (0 : ℚ) < quantaPerOne := by
  exact_mod_cast quantaPerOne_pos

/-- The value of an index is rounded to that index. -/
theorem eq_of_nearestIn_indexValue {i j : ℕ}
    (h : NearestIn Set.univ indexValue (indexValue j) i) : i = j :=
  h.unique indexValue_strictMono Set.ordConnected_univ
    (NearestIn.self indexValue_strictMono (Set.mem_univ j))

theorem nearestIn_size (x : Binary64) : NearestIn Set.univ indexValue x.size x.magnitude.val := by
  rw [size_eq]
  exact NearestIn.self indexValue_strictMono (Set.mem_univ _)

/-! ## Reading back -/

/-- A decimal reads back as a finite number if it is nearest to its magnitude. -/
theorem readsBack_iff (hfinite : x.isFinite = true) :
    x.readsBack d = true ↔ NearestIn Set.univ indexValue d.value x.magnitude.val := by
  have hmagnitude : d.toBinary64.magnitude.val = min d.index infinityIndex := rfl
  have hindex := d.nearestIn_index
  have hbound := isFinite_iff.mp hfinite
  unfold readsBack
  rw [decide_eq_true_iff, Fin.ext_iff, hmagnitude]
  -- below infinity nothing is cut off
  constructor
  · intro hmin
    have hsame : d.index = x.magnitude.val := by omega
    rwa [hsame] at hindex
  · intro hnearest
    have hsame := hindex.unique indexValue_strictMono Set.ordConnected_univ hnearest
    omega

/-- Only the value of a decimal counts. -/
theorem readsBack_of_value_eq (hfinite : x.isFinite = true) {other : Decimal}
    (h : x.readsBack other = true) (hvalue : d.value = other.value) : x.readsBack d = true := by
  rw [readsBack_iff hfinite, hvalue]
  exact (readsBack_iff hfinite).mp h

theorem readsBack_of_value_eq_size (hfinite : x.isFinite = true) (h : d.value = x.size) :
    x.readsBack d = true := by
  rw [readsBack_iff hfinite, h]
  exact x.nearestIn_size

/-- What is nearer to a magnitude than a decimal that reads back, on the same side, reads back. -/
theorem readsBack_of_between (hfinite : x.isFinite = true) {other : Decimal}
    (h : x.readsBack other = true)
    (hbetween : other.value ≤ d.value ∧ d.value ≤ x.size ∨
      x.size ≤ d.value ∧ d.value ≤ other.value) :
    x.readsBack d = true := by
  rw [readsBack_iff hfinite] at h
  have hsame : d.index = x.magnitude.val := by
    rcases hbetween with ⟨hle, hge⟩ | ⟨hle, hge⟩
    · exact NearestIn.eq_of_between indexValue_strictMono Set.ordConnected_univ h x.nearestIn_size
        d.nearestIn_index hle hge
    · exact NearestIn.eq_of_between indexValue_strictMono Set.ordConnected_univ x.nearestIn_size h
        d.nearestIn_index hle hge
  have hindex := d.nearestIn_index
  rw [hsame] at hindex
  exact (readsBack_iff hfinite).mpr hindex

theorem indexValue_le_mul_sub {i j : ℕ} (h : i < j) :
    indexValue j ≤ 2 ^ 53 * (indexValue j - indexValue i) := by
  have hquanta : (indexQuanta j : ℚ) ≤ 2 ^ 53 * (indexQuanta j - indexQuanta i) := by
    rw [← Nat.cast_sub (indexQuanta_strictMono h).le]
    exact_mod_cast indexQuanta_le_mul_sub h
  unfold indexValue
  rw [← sub_div, mul_div_assoc']
  exact div_le_div_of_nonneg_right hquanta (by positivity)

/-- Two values are not close to each other beside either of them. -/
theorem indexValue_le_mul_abs_sub {i j : ℕ} (h : j ≠ i) :
    indexValue i ≤ 2 ^ 53 * |indexValue j - indexValue i| := by
  rcases Nat.lt_or_gt_of_ne h with hlt | hgt
  · have hvalue := indexValue_strictMono hlt
    rw [abs_of_neg (by linarith), neg_sub]
    exact indexValue_le_mul_sub hlt
  · have hvalue := indexValue_strictMono hgt
    rw [abs_of_pos (by linarith)]
    exact hvalue.le.trans (indexValue_le_mul_sub hgt)

/-- What is close to a magnitude reads back. -/
theorem readsBack_of_near (hfinite : x.isFinite = true)
    (hnear : 2 ^ 54 * |d.value - x.size| < x.size) : x.readsBack d = true := by
  rw [readsBack_iff hfinite]
  refine NearestIn.of_forall_two_mul_lt (Set.mem_univ _) fun j _ hj => ?_
  -- half of the way to the next magnitude is more than this
  have hroom := indexValue_le_mul_abs_sub hj
  rw [← size_eq, abs_sub_comm x.size d.value]
  rw [← size_eq] at hroom
  linarith

/-! ## One grid of decimals -/

/-- The greatest number of steps of a grid that does not exceed the magnitude. -/
def gridFloor (x : Binary64) (e : ℤ) : ℕ :=
  x.quanta * Nat.pow 10 (-e).toNat / (quantaPerOne * Nat.pow 10 e.toNat)

/-- The magnitude, counted in steps of a grid. -/
theorem quotient_eq_size_div (x : Binary64) (e : ℤ) :
    ((x.quanta * 10 ^ (-e).toNat : ℕ) : ℚ) / (quantaPerOne * 10 ^ e.toNat : ℕ) =
      x.size / 10 ^ e := by
  have hone := cast_quantaPerOne_pos.ne'
  rw [size_eq_div, Decimal.zpow_eq_div]
  push_cast
  field_simp

theorem gridFloor_eq (x : Binary64) (e : ℤ) : x.gridFloor e = ⌊x.size / 10 ^ e⌋₊ := by
  have hpower : ∀ n, Nat.pow 10 n = 10 ^ n := fun _ => rfl
  unfold gridFloor
  rw [hpower, hpower, ← quotient_eq_size_div, Nat.floor_div_eq_div]

theorem value_gridFloor_le (x : Binary64) (e : ℤ) :
    (⟨x.gridFloor e, e⟩ : Decimal).value ≤ x.size := by
  have hstep : (0 : ℚ) < 10 ^ e := by positivity
  have hfloor := Nat.floor_le (div_nonneg x.size_nonneg hstep.le)
  rw [← gridFloor_eq, le_div_iff₀ hstep] at hfloor
  exact hfloor

theorem size_lt_value_gridFloor_succ (x : Binary64) (e : ℤ) :
    x.size < (⟨x.gridFloor e + 1, e⟩ : Decimal).value := by
  have hstep : (0 : ℚ) < 10 ^ e := by positivity
  have hfloor := Nat.lt_floor_add_one (x.size / 10 ^ e)
  rw [← gridFloor_eq, div_lt_iff₀ hstep] at hfloor
  unfold Decimal.value
  exact_mod_cast hfloor

/-- The nearer neighbour of a magnitude is at most half a step away. -/
theorem neighbour_near (x : Binary64) (e : ℤ) :
    2 * |(⟨x.gridFloor e, e⟩ : Decimal).value - x.size| ≤ 10 ^ e ∨
      2 * |(⟨x.gridFloor e + 1, e⟩ : Decimal).value - x.size| ≤ 10 ^ e := by
  have hbelow := x.value_gridFloor_le e
  have habove := x.size_lt_value_gridFloor_succ e
  rw [abs_of_nonpos (by linarith), abs_of_pos (by linarith)]
  rw [Decimal.value_succ] at habove ⊢
  rcases le_total (2 * (x.size - (⟨x.gridFloor e, e⟩ : Decimal).value)) (10 ^ e) with hnear | hfar
  · left
    linarith
  · right
    linarith

/-- What is found on a grid reads back, and it is a neighbour of the magnitude. -/
theorem onGrid?_eq_some {e : ℤ} (h : x.onGrid? e = some d) :
    x.readsBack d = true ∧ (d = ⟨x.gridFloor e, e⟩ ∨ d = ⟨x.gridFloor e + 1, e⟩) := by
  simp only [onGrid?, Bool.and_eq_true] at h
  split at h
  · next hbelow =>
    split at h
    · next habove =>
      cases h
      exact ⟨habove.1, Or.inr rfl⟩
    · cases h
      exact ⟨hbelow, Or.inl rfl⟩
  · split at h
    · next habove =>
      cases h
      exact ⟨habove, Or.inr rfl⟩
    · cases h

/-- If a neighbour of the magnitude reads back, something is found. -/
theorem onGrid?_ne_none_of_neighbour {e : ℤ}
    (h : x.readsBack ⟨x.gridFloor e, e⟩ = true ∨ x.readsBack ⟨x.gridFloor e + 1, e⟩ = true) :
    x.onGrid? e ≠ none := by
  intro hnone
  simp only [onGrid?, Bool.and_eq_true] at hnone
  split at hnone
  · split at hnone <;> cases hnone
  · next hbelow =>
    split at hnone
    · cases hnone
    · next habove => exact h.elim hbelow habove

/-- If any decimal on the grid reads back, something is found: a neighbour of the magnitude lies
between the two. -/
theorem onGrid?_ne_none (hfinite : x.isFinite = true) {m : ℕ} {e : ℤ}
    (h : x.readsBack ⟨m, e⟩ = true) : x.onGrid? e ≠ none := by
  have hbelow := x.value_gridFloor_le e
  have habove := x.size_lt_value_gridFloor_succ e
  apply onGrid?_ne_none_of_neighbour
  rcases Nat.lt_or_ge (x.gridFloor e) m with hlt | hge
  · right
    exact readsBack_of_between hfinite h (Or.inr ⟨habove.le, Decimal.value_le_value hlt e⟩)
  · left
    exact readsBack_of_between hfinite h (Or.inl ⟨Decimal.value_le_value hge e, hbelow⟩)

/-! ## The place of the point -/

theorem lt_pow_length_toDigits (n : ℕ) : n < 10 ^ (Nat.toDigits 10 n).length :=
  (Nat.length_toDigits_le_iff (by decide) Nat.length_toDigits_pos).mp le_rfl

theorem pow_pred_length_toDigits_le {n : ℕ} (h : 0 < n) :
    10 ^ ((Nat.toDigits 10 n).length - 1) ≤ n := by
  by_contra hless
  rcases Nat.eq_zero_or_pos ((Nat.toDigits 10 n).length - 1) with hone | hmore
  · rw [hone] at hless
    omega
  · have hfewer := (Nat.length_toDigits_le_iff (by decide) hmore).mpr (not_le.mp hless)
    omega

theorem gridFloor_neg (x : Binary64) (places : ℕ) :
    x.gridFloor (-places) = x.quanta * Nat.pow 10 places / quantaPerOne := by
  have hraised : (-(-(places : ℤ))).toNat = places := by omega
  have hone : Nat.pow 10 (-(places : ℤ)).toNat = 1 := by
    rw [Int.toNat_neg_natCast]
  unfold gridFloor
  rw [hraised, hone, Nat.mul_one]

/-- The digits in front of the point are counted on a grid that every positive magnitude exceeds. -/
theorem exists_pointPlace_eq (hpos : 0 < x.quanta) :
    ∃ places : ℕ, 0 < x.gridFloor (-places) ∧
      x.pointPlace = (Nat.toDigits 10 (x.gridFloor (-places))).length + -places := by
  -- the number of places gets a name, so that no power of it is evaluated
  obtain ⟨places, hplaces⟩ : ∃ places, places = 324 := ⟨_, rfl⟩
  have hexceeds : quantaPerOne ≤ Nat.pow 10 places := by
    rw [hplaces]
    decide +kernel
  refine ⟨places, ?_, ?_⟩
  · rw [gridFloor_neg]
    exact Nat.div_pos (hexceeds.trans (Nat.le_mul_of_pos_left _ hpos)) quantaPerOne_pos
  · unfold pointPlace
    rw [gridFloor_neg, ← hplaces]
    omega

/-- A positive magnitude lies between two neighbouring powers of ten. -/
theorem pointPlace_spec (hpos : 0 < x.quanta) :
    (10 : ℚ) ^ (x.pointPlace - 1) ≤ x.size ∧ x.size < 10 ^ x.pointPlace := by
  rcases exists_pointPlace_eq hpos with ⟨places, hfloor, hplace⟩
  have hlower := pow_pred_length_toDigits_le hfloor
  have hupper := lt_pow_length_toDigits (x.gridFloor (-places))
  have hlength : 0 < (Nat.toDigits 10 (x.gridFloor (-places))).length := Nat.length_toDigits_pos
  have hpred : x.pointPlace - 1 =
      ((Nat.toDigits 10 (x.gridFloor (-places))).length - 1 : ℕ) + -(places : ℤ) := by omega
  -- both bounds lie on the grid on which the digits are counted
  constructor
  · rw [hpred, ← Decimal.value_pow]
    exact (Decimal.value_le_value hlower _).trans (x.value_gridFloor_le _)
  · rw [hplace, ← Decimal.value_pow]
    exact (x.size_lt_value_gridFloor_succ _).trans_le (Decimal.value_le_value hupper _)

/-! ## The search -/

/-- Seventeen digits are enough: then half a step is little beside the magnitude. -/
theorem seventeen_digits (hfinite : x.isFinite = true) (hpos : 0 < x.quanta) :
    x.onGrid? (x.pointPlace - 17) ≠ none := by
  have hplace := (pointPlace_spec hpos).1
  have hpower : (10 : ℚ) ^ (x.pointPlace - 1) = 10 ^ 16 * 10 ^ (x.pointPlace - 17) := by
    have hexponent : x.pointPlace - 1 = (16 : ℕ) + (x.pointPlace - 17) := by omega
    rw [hexponent, zpow_add₀ (by norm_num), zpow_natCast]
  have hstep : (0 : ℚ) < 10 ^ (x.pointPlace - 17) := by positivity
  rw [hpower] at hplace
  apply onGrid?_ne_none_of_neighbour
  refine (x.neighbour_near (x.pointPlace - 17)).imp ?_ ?_ <;>
    exact fun hnear => readsBack_of_near hfinite (by linarith)

/-- A search through the first natural numbers stops at the least one that gives something. -/
theorem exists_least_of_findSome? {α : Type} {f : ℕ → Option α} {n : ℕ} {found : α}
    (h : (List.range n).findSome? f = some found) :
    ∃ count < n, f count = some found ∧ ∀ fewer < count, f fewer = none := by
  rcases List.findSome?_eq_some_iff.mp h with ⟨front, count, back, hrange, hfound, hnone⟩
  have hcount : count ∈ List.range n := by simp [hrange]
  refine ⟨count, List.mem_range.mp hcount, hfound, ?_⟩
  intro fewer hfewer
  have hmem : fewer ∈ front ++ count :: back := by
    rw [← hrange]
    exact List.mem_range.mpr (hfewer.trans (List.mem_range.mp hcount))
  have hsorted : (front ++ count :: back).Pairwise (· < ·) := by
    rw [← hrange]
    exact List.pairwise_lt_range
  rcases List.mem_append.mp hmem with hfront | hback
  · exact hnone fewer hfront
  · -- whatever stands behind it is greater
    rcases List.mem_cons.mp hback with rfl | hback
    · exact absurd hfewer (Nat.lt_irrefl _)
    · have hless := (List.pairwise_cons.mp (List.pairwise_append.mp hsorted).2.1).1 fewer hback
      exact absurd hfewer hless.asymm

/-- The shortest decimal is what the search finds, on the coarsest grid on which it finds any. -/
theorem exists_onGrid?_eq_shortest (hfinite : x.isFinite = true) (hpos : 0 < x.quanta) :
    ∃ count : ℕ, x.onGrid? (x.pointPlace - count) = some x.shortest ∧
      ∀ fewer < count, x.onGrid? (x.pointPlace - fewer) = none := by
  -- the search does not fail, so the exact value that stands behind it is not needed
  have hsome : ((List.range 18).findSome?
      fun count : ℕ => x.onGrid? (x.pointPlace - count)).isSome = true := by
    rw [List.findSome?_isSome_iff]
    exact ⟨17, by decide, Option.isSome_iff_ne_none.mpr (seventeen_digits hfinite hpos)⟩
  rcases Option.isSome_iff_exists.mp hsome with ⟨found, hfound⟩
  have hshortest : x.shortest = found := by
    simp only [shortest, hfound, Option.getD_some]
  rcases exists_least_of_findSome? hfound with ⟨count, -, hcount, hfewer⟩
  rw [hshortest]
  exact ⟨count, hcount, hfewer⟩

/-! ## The shortest decimal -/

/-- The shortest decimal rounds to the number. -/
theorem readsBack_shortest (hfinite : x.isFinite = true) (hpos : 0 < x.quanta) :
    x.readsBack x.shortest = true := by
  rcases exists_onGrid?_eq_shortest hfinite hpos with ⟨count, hfound, -⟩
  exact (onGrid?_eq_some hfound).1

/-- What reads back as a positive magnitude is not zero. -/
theorem digits_pos_of_readsBack (hfinite : x.isFinite = true) (hpos : 0 < x.quanta)
    (h : x.readsBack d = true) : 0 < d.digits := by
  rw [readsBack_iff hfinite] at h
  by_contra hzero
  have hvalue : d.value = indexValue 0 := by
    unfold Decimal.value
    rw [Nat.eq_zero_of_not_pos hzero, indexValue_zero, Nat.cast_zero, zero_mul]
  rw [hvalue] at h
  unfold quanta at hpos
  rw [eq_of_nearestIn_indexValue h] at hpos
  exact absurd hpos (by decide)

/-- If a decimal reads back, so does one on the grid that has as many digits in front of the place
of the point. -/
theorem exists_readsBack_on_grid (hfinite : x.isFinite = true) (hpos : 0 < x.quanta)
    (h : x.readsBack d = true) {count : ℕ} (hdigits : d.digits < 10 ^ count) :
    ∃ m, x.readsBack ⟨m, x.pointPlace - count⟩ = true := by
  have hplace := (pointPlace_spec hpos).1
  have hnonzero := digits_pos_of_readsBack hfinite hpos h
  rcases lt_or_ge d.value (10 ^ (x.pointPlace - 1)) with hsmall | hlarge
  · -- the power of ten below the magnitude lies between the two
    have hcount : count ≠ 0 := by
      rintro rfl
      omega
    have hpower : (⟨10 ^ (count - 1), x.pointPlace - count⟩ : Decimal).value =
        10 ^ (x.pointPlace - 1) := by
      have hexponent : ((count - 1 : ℕ) : ℤ) + (x.pointPlace - count) = x.pointPlace - 1 := by omega
      rw [Decimal.value_pow, hexponent]
    refine ⟨10 ^ (count - 1), readsBack_of_between hfinite h (Or.inl ⟨?_, ?_⟩)⟩
    · rw [hpower]
      exact hsmall.le
    · rw [hpower]
      exact hplace
  · rcases Decimal.exists_value_eq_on_grid hdigits hlarge with ⟨m, hm⟩
    exact ⟨m, readsBack_of_value_eq hfinite h hm⟩

/-- The digits of a neighbour on a grid fit in front of the place of the point, or they are the next
power of ten. -/
theorem digits_le_of_onGrid?_eq_some (hpos : 0 < x.quanta) {count : ℕ}
    (h : x.onGrid? (x.pointPlace - count) = some d) :
    d.exponent = x.pointPlace - count ∧ d.digits ≤ 10 ^ count := by
  have hbelow : (⟨x.gridFloor (x.pointPlace - count), x.pointPlace - count⟩ : Decimal).value <
      (⟨10 ^ count, x.pointPlace - count⟩ : Decimal).value := by
    rw [Decimal.value_pow, add_sub_cancel]
    exact (x.value_gridFloor_le _).trans_lt (pointPlace_spec hpos).2
  have hfloor : x.gridFloor (x.pointPlace - count) < 10 ^ count := by
    by_contra hge
    exact absurd (Decimal.value_le_value (not_lt.mp hge) _) hbelow.not_ge
  rcases (onGrid?_eq_some h).2 with rfl | rfl
  · exact ⟨rfl, hfloor.le⟩
  · exact ⟨rfl, hfloor⟩

/-- No decimal that rounds to the number has fewer digits than the shortest one. -/
theorem length_digits_shortest_le (hfinite : x.isFinite = true) (hpos : 0 < x.quanta)
    (h : x.readsBack d = true) :
    (Nat.toDigits 10 x.shortest.digits).length ≤ (Nat.toDigits 10 d.digits).length := by
  rcases exists_onGrid?_eq_shortest hfinite hpos with ⟨count, hfound, hfewer⟩
  rcases exists_readsBack_on_grid hfinite hpos h (lt_pow_length_toDigits d.digits) with ⟨m, hm⟩
  rcases digits_le_of_onGrid?_eq_some hpos hfound with ⟨hexponent, hdigits⟩
  have hlength : 0 < (Nat.toDigits 10 d.digits).length := Nat.length_toDigits_pos
  have hcount : count ≤ (Nat.toDigits 10 d.digits).length := by
    -- otherwise the search would have stopped before
    by_contra hmore
    exact onGrid?_ne_none hfinite hm (hfewer _ (not_le.mp hmore))
  rw [Nat.length_toDigits_le_iff (by decide) hlength]
  generalize (Nat.toDigits 10 d.digits).length = length at *
  rcases hdigits.lt_or_eq with hless | hpower
  · exact hless.trans_le (Nat.pow_le_pow_right (by decide) hcount)
  · rw [hpower]
    rcases Nat.eq_zero_or_pos count with rfl | hsome
    · exact Nat.pow_lt_pow_right (by decide) hlength
    · -- the next power of ten would have been found on the coarsest grid
      have hvalue : (⟨10 ^ 0, x.pointPlace - (0 : ℕ)⟩ : Decimal).value = x.shortest.value := by
        rw [Decimal.value_of_digits_eq_pow hpower, hexponent, Decimal.value_pow, add_sub_cancel,
          add_sub_cancel]
      have hback := readsBack_of_value_eq hfinite (readsBack_shortest hfinite hpos) hvalue
      exact absurd (hfewer 0 hsome) (onGrid?_ne_none hfinite hback)

/-! ## Whole numbers -/

theorem indexValue_eq_natCast {index n : ℕ} (h : indexQuanta index = n * quantaPerOne) :
    indexValue index = n := by
  rw [indexValue_eq_div, h, Nat.cast_mul, mul_div_cancel_right₀ _ cast_quantaPerOne_pos.ne']

/-- A whole number does not round to a number that is not whole. -/
theorem exponent_neg_of_readsBack (hfinite : x.isFinite = true)
    (hpart : x.quanta % quantaPerOne ≠ 0) (h : x.readsBack d = true) : d.exponent < 0 := by
  by_contra hwhole
  rw [readsBack_iff hfinite] at h
  -- without a negative exponent the decimal is a whole number
  obtain ⟨n, hn⟩ : ∃ n : ℕ, d.value = n := by
    refine ⟨d.digits * 10 ^ d.exponent.toNat, ?_⟩
    have hexponent : (-d.exponent).toNat = 0 := by omega
    rw [Decimal.value_eq_div, hexponent, Nat.pow_zero, Nat.cast_one, div_one]
  rw [hn] at h
  unfold quanta at hpart
  rcases Nat.lt_or_ge n (2 ^ 52) with hsmall | hlarge
  · -- a small whole number is a magnitude, and rounds to itself
    rcases exists_indexQuanta_eq (hsmall.trans (by decide)) with ⟨index, hquanta⟩
    rw [← indexValue_eq_natCast hquanta] at h
    rw [eq_of_nearestIn_indexValue h, hquanta, Nat.mul_mod_left] at hpart
    exact hpart rfl
  · -- a number that is reached by `2 ^ 52` is whole
    rcases exists_indexQuanta_eq (by decide : 2 ^ 52 < 2 ^ 53) with ⟨index, hquanta⟩
    have hreached : indexValue index ≤ n := by
      rw [indexValue_eq_natCast hquanta]
      exact_mod_cast hlarge
    have hle := h.ge_of_ge indexValue_strictMono (Set.mem_univ index) hreached
    have hgreat := indexQuanta_strictMono.monotone hle
    rw [hquanta] at hgreat
    exact hpart (Nat.mod_eq_zero_of_dvd (dvd_indexQuanta hgreat))

end Binary64

end LoxTokens
