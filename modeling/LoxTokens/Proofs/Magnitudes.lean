import Mathlib.Algebra.Ring.Nat
import Mathlib.Order.Monotone.Basic
import LoxTokens.Binary64

/-!
# Magnitudes

The magnitudes of double-precision numbers lie on grids, each twice as coarse as the one before.  An
index is a significand on one of these grids, and the next index is the next significand, so the
magnitudes increase with their indices.

- `Binary64.Significand` says which significands a grid has
- `Binary64.indexQuanta_add` is the magnitude of a significand
- `Binary64.indexQuanta_strictMono` orders the magnitudes
- `Binary64.indexQuanta_le_mul_sub` says how far the magnitudes are apart
- `Binary64.exists_indexQuanta_eq` and `Binary64.dvd_indexQuanta` are about whole numbers
- `Binary64.on_grid_or_below` compares all magnitudes with one grid
-/

namespace LoxTokens

namespace Binary64

/-- A significand on the grid of steps of `2 ^ shift` quanta: fifty-three bits at most, the first of
which is only missing on the finest grid.  The carry into the next grid counts. -/
structure Significand (shift m : ℕ) : Prop where
  le : m ≤ 2 ^ 53
  normal : shift = 0 ∨ 2 ^ 52 ≤ m

/-- Every index is a significand on a grid. -/
theorem exists_significand (index : ℕ) :
    ∃ shift m, index = shift * 2 ^ 52 + m ∧ m < 2 ^ 53 ∧ Significand shift m := by
  refine ⟨index / 2 ^ 52 - 1, index - (index / 2 ^ 52 - 1) * 2 ^ 52, ?_, ?_, ?_, ?_⟩ <;> omega

/-- The index of a significand stands for that many steps of its grid. -/
theorem indexQuanta_add {shift m : ℕ} (h : Significand shift m) :
    indexQuanta (shift * 2 ^ 52 + m) = m * 2 ^ shift := by
  have hle := h.le
  have hstep : Nat.pow 2 52 = 2 ^ 52 := rfl
  unfold indexQuanta
  simp only [hstep]
  rcases Nat.lt_or_ge m (2 ^ 52) with hsmall | hlarge
  · -- a missing first bit is the exponent zero
    have hshift : shift = 0 := h.normal.resolve_right (Nat.not_le.mpr hsmall)
    subst hshift
    have hexponent : (0 * 2 ^ 52 + m) / 2 ^ 52 = 0 := by omega
    rw [if_pos hexponent]
    simp
  · rcases Nat.lt_or_eq_of_le hle with hlt | rfl
    · have hexponent : (shift * 2 ^ 52 + m) / 2 ^ 52 = shift + 1 := by omega
      have hfraction : (shift * 2 ^ 52 + m) % 2 ^ 52 = m - 2 ^ 52 := by omega
      rw [if_neg (by omega), hexponent, hfraction, Nat.add_sub_cancel' hlarge,
        Nat.add_sub_cancel]
      rfl
    · -- the carry is the first significand of the next grid
      have hexponent : (shift * 2 ^ 52 + 2 ^ 53) / 2 ^ 52 = shift + 2 := by omega
      have hfraction : (shift * 2 ^ 52 + 2 ^ 53) % 2 ^ 52 = 0 := by omega
      rw [if_neg (by omega), hexponent, hfraction]
      change (2 ^ 52 + 0) * 2 ^ (shift + 1) = 2 ^ 53 * 2 ^ shift
      rw [Nat.pow_succ]
      omega

theorem indexQuanta_lt_succ (index : ℕ) : indexQuanta index < indexQuanta (index + 1) := by
  rcases exists_significand index with ⟨shift, m, hindex, hlt, hm⟩
  have hnext : Significand shift (m + 1) :=
    ⟨hlt, hm.normal.imp_right fun hlarge => Nat.le_succ_of_le hlarge⟩
  have hsucc : index + 1 = shift * 2 ^ 52 + (m + 1) := by omega
  calc
    indexQuanta index = m * 2 ^ shift := by rw [hindex, indexQuanta_add hm]
    _ < (m + 1) * 2 ^ shift :=
          Nat.mul_lt_mul_of_pos_right (Nat.lt_succ_self m) (Nat.two_pow_pos shift)
    _ = indexQuanta (index + 1) := by rw [hsucc, indexQuanta_add hnext]

theorem indexQuanta_strictMono : StrictMono indexQuanta :=
  strictMono_nat_of_lt_succ indexQuanta_lt_succ

/-- The step behind a magnitude is not small beside the magnitude that it leads to. -/
theorem indexQuanta_succ_le (index : ℕ) :
    indexQuanta (index + 1) ≤ 2 ^ 53 * (indexQuanta (index + 1) - indexQuanta index) := by
  rcases exists_significand index with ⟨shift, m, hindex, hlt, hm⟩
  have hnext : Significand shift (m + 1) :=
    ⟨hlt, hm.normal.imp_right fun hlarge => Nat.le_succ_of_le hlarge⟩
  have hsucc : index + 1 = shift * 2 ^ 52 + (m + 1) := by omega
  have hstep : indexQuanta (index + 1) - indexQuanta index = 2 ^ shift := by
    rw [hsucc, hindex, indexQuanta_add hm, indexQuanta_add hnext, Nat.succ_mul,
      Nat.add_sub_cancel_left]
  rw [hstep, hsucc, indexQuanta_add hnext]
  exact Nat.mul_le_mul_right _ hlt

/-- Two magnitudes are not close to each other beside either of them. -/
theorem indexQuanta_le_mul_sub {i j : ℕ} (h : i < j) :
    indexQuanta j ≤ 2 ^ 53 * (indexQuanta j - indexQuanta i) := by
  obtain ⟨n, rfl⟩ : ∃ n, j = n + 1 := ⟨j - 1, by omega⟩
  have hle : indexQuanta i ≤ indexQuanta n := indexQuanta_strictMono.monotone (by omega)
  calc
    indexQuanta (n + 1) ≤ 2 ^ 53 * (indexQuanta (n + 1) - indexQuanta n) := indexQuanta_succ_le n
    _ ≤ 2 ^ 53 * (indexQuanta (n + 1) - indexQuanta i) :=
          Nat.mul_le_mul_left _ (Nat.sub_le_sub_left hle _)

theorem quantaPerOne_eq {n : ℕ} (h : n = 1074) : quantaPerOne = 2 ^ n := by
  have hpower : ∀ k, Nat.pow 2 k = 2 ^ k := fun _ => rfl
  unfold quantaPerOne
  rw [← h, hpower]

theorem quantaPerOne_pos : 0 < quantaPerOne := by
  have hpower : ∀ n, n = 1074 → 0 < Nat.pow 2 n := fun n _ => Nat.two_pow_pos n
  unfold quantaPerOne
  apply hpower
  rfl

/-- A whole number of at most fifty-three bits is a magnitude. -/
theorem exists_indexQuanta_eq {n : ℕ} (h : n < 2 ^ 53) :
    ∃ index, indexQuanta index = n * quantaPerOne := by
  rcases Nat.eq_zero_or_pos n with rfl | hpos
  · exact ⟨0, (Nat.zero_mul _).symm⟩
  · have hbits : n.log2 ≤ 52 := Nat.le_of_lt_succ ((Nat.log2_lt hpos.ne').mpr h)
    -- shifted to the left, the number has all fifty-three bits
    have hm : Significand (1022 + n.log2) (n * 2 ^ (52 - n.log2)) := by
      constructor
      · calc
          n * 2 ^ (52 - n.log2) ≤ 2 ^ (n.log2 + 1) * 2 ^ (52 - n.log2) :=
                Nat.mul_le_mul_right _ Nat.lt_log2_self.le
          _ = 2 ^ 53 := by
                rw [← Nat.pow_add]
                congr 1
                omega
      · right
        calc
          2 ^ 52 = 2 ^ n.log2 * 2 ^ (52 - n.log2) := by
                rw [← Nat.pow_add]
                congr 1
                omega
          _ ≤ n * 2 ^ (52 - n.log2) := Nat.mul_le_mul_right _ (Nat.log2_self_le hpos.ne')
    have hexponent : 52 - n.log2 + (1022 + n.log2) = 1074 := by omega
    refine ⟨_, (indexQuanta_add hm).trans ?_⟩
    rw [quantaPerOne_eq hexponent, Nat.pow_add _ (52 - n.log2), Nat.mul_assoc]

/-- A great magnitude is a whole number. -/
theorem dvd_indexQuanta {index : ℕ} (h : 2 ^ 52 * quantaPerOne ≤ indexQuanta index) :
    quantaPerOne ∣ indexQuanta index := by
  rcases exists_significand index with ⟨shift, m, hindex, hlt, hm⟩
  have hquanta : indexQuanta index = m * 2 ^ shift := by
    rw [hindex, indexQuanta_add hm]
  have hshift : 1074 ≤ shift := by
    by_contra hsmall
    have hexponent : 1 + shift + (1073 - shift) = 1074 := by omega
    have hless : indexQuanta index < 2 ^ 52 * quantaPerOne := by
      calc
        indexQuanta index = m * 2 ^ shift := hquanta
        _ < 2 ^ 53 * 2 ^ shift := Nat.mul_lt_mul_of_pos_right hlt (Nat.two_pow_pos shift)
        _ = 2 ^ 52 * 2 ^ (1 + shift) := by
              rw [Nat.pow_add 2 1]
              omega
        _ ≤ 2 ^ 52 * (2 ^ (1 + shift) * 2 ^ (1073 - shift)) :=
              Nat.mul_le_mul_left _ (Nat.le_mul_of_pos_right _ (Nat.two_pow_pos _))
        _ = 2 ^ 52 * quantaPerOne := by rw [← Nat.pow_add, quantaPerOne_eq hexponent]
    exact absurd h hless.not_ge
  have hexponent : shift - (shift - 1074) = 1074 := by omega
  rw [hquanta, quantaPerOne_eq hexponent]
  exact Nat.dvd_mul_left_of_dvd (Nat.pow_dvd_pow 2 (Nat.sub_le _ _)) m

/-- A magnitude lies on a grid, or below the first significand of it that is not subnormal. -/
theorem on_grid_or_below (shift index : ℕ) :
    (∃ k, indexQuanta index = k * 2 ^ shift) ∨
      shift ≠ 0 ∧ indexQuanta index < 2 ^ 52 * 2 ^ shift := by
  rcases exists_significand index with ⟨own, m, hindex, hlt, hm⟩
  have hown : indexQuanta index = m * 2 ^ own := by
    rw [hindex, indexQuanta_add hm]
  rcases Nat.lt_or_ge own shift with hfiner | hcoarser
  · right
    refine ⟨by omega, ?_⟩
    calc
      indexQuanta index = m * 2 ^ own := hown
      _ < 2 ^ 53 * 2 ^ own := Nat.mul_lt_mul_of_pos_right hlt (Nat.two_pow_pos own)
      _ = 2 ^ 52 * 2 ^ (own + 1) := by
            rw [Nat.pow_succ]
            omega
      _ ≤ 2 ^ 52 * 2 ^ shift :=
            Nat.mul_le_mul_left _ (Nat.pow_le_pow_right Nat.zero_lt_two hfiner)
  · left
    refine ⟨m * 2 ^ (own - shift), ?_⟩
    calc
      indexQuanta index = m * 2 ^ (own - shift + shift) := by
            rw [hown, Nat.sub_add_cancel hcoarser]
      _ = m * 2 ^ (own - shift) * 2 ^ shift := by rw [Nat.pow_add, Nat.mul_assoc]

end Binary64

end LoxTokens
