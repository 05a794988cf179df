import Mathlib.Algebra.Order.Field.Basic
import Mathlib.Data.Rat.Cast.Order
import Mathlib.Order.Interval.Set.OrdConnected
import Mathlib.Tactic.FieldSimp
import Mathlib.Tactic.Linarith
import Mathlib.Tactic.Positivity
import Mathlib.Tactic.Ring
import LoxTokens.Binary64

/-!
# Nearest members

Rounding to nearest picks a member of an increasing sequence, and of two equally near members the
one with the even index.

- `NearestIn` says that a member is picked so, `NearestIn.unique` that no other one is
- `NearestIn.le_of_le_of_le` says that greater numbers are not rounded to lesser members
- `NearestIn.succ_le_iff` says where the picked index passes an even one
- `nearestIn_roundQuotient` is the rounding of a quotient to a natural number
-/

namespace LoxTokens

/-- Of the members of a sequence with these indices, the one nearest to a number, with an even index
if another one is as near. -/
structure NearestIn (indices : Set ℕ) (f : ℕ → ℚ) (q : ℚ) (i : ℕ) : Prop where
  mem : i ∈ indices
  le : ∀ j ∈ indices, |f i - q| ≤ |f j - q|
  even : ∀ j ∈ indices, j ≠ i → |f i - q| = |f j - q| → i % 2 = 0

namespace NearestIn

variable {indices : Set ℕ} {f : ℕ → ℚ} {q : ℚ} {i j : ℕ}

theorem mono {fewer : Set ℕ} (h : NearestIn indices f q i) (hsubset : fewer ⊆ indices)
    (hmem : i ∈ fewer) : NearestIn fewer f q i where
  mem := hmem
  le j hj := h.le j (hsubset hj)
  even j hj := h.even j (hsubset hj)

/-- Strictly between two members, one is nearer than the farther of the two. -/
theorem abs_sub_lt {a b c : ℚ} (hab : a < b) (hbc : b < c) (heq : |a - q| = |c - q|) :
    |b - q| < |a - q| := by
  have ha : a - q < b - q := by linarith
  have hc : b - q < c - q := by linarith
  rcases abs_cases (a - q) with ⟨ha', _⟩ | ⟨ha', _⟩ <;>
    rcases abs_cases (b - q) with ⟨hb', _⟩ | ⟨hb', _⟩ <;>
    rcases abs_cases (c - q) with ⟨hc', _⟩ | ⟨hc', _⟩ <;>
    linarith

theorem not_before (hf : StrictMono f) (hindices : indices.OrdConnected)
    (h : NearestIn indices f q i) (h' : NearestIn indices f q j) : ¬ i < j := by
  intro hlt
  have heq : |f i - q| = |f j - q| := le_antisymm (h.le j h'.mem) (h'.le i h.mem)
  have hi : i % 2 = 0 := h.even j h'.mem hlt.ne' heq
  have hj : j % 2 = 0 := h'.even i h.mem hlt.ne heq.symm
  -- two even indices leave room for one between them
  have hmiddle : i + 1 ∈ indices := hindices.out h.mem h'.mem ⟨by omega, by omega⟩
  have hnearer : |f (i + 1) - q| < |f i - q| :=
    abs_sub_lt (hf (by omega)) (hf (by omega)) heq
  exact absurd (h.le (i + 1) hmiddle) (not_le.mpr hnearer)

/-- Only one member is nearest. -/
theorem unique (hf : StrictMono f) (hindices : indices.OrdConnected)
    (h : NearestIn indices f q i) (h' : NearestIn indices f q j) : i = j := by
  apply Nat.le_antisymm
  · exact Nat.le_of_not_lt (h'.not_before hf hindices h)
  · exact Nat.le_of_not_lt (h.not_before hf hindices h')

/-- A greater number is not rounded to a lesser member. -/
theorem le_of_le_of_le (hf : StrictMono f) (hindices : indices.OrdConnected) {q' : ℚ}
    (h : NearestIn indices f q i) (h' : NearestIn indices f q' j) (hq : q ≤ q') : i ≤ j := by
  by_contra hless
  have hmember : f j < f i := hf (Nat.lt_of_not_le hless)
  have hnear := h.le j h'.mem
  have hnear' := h'.le i h.mem
  -- both numbers would lie half the way between the two members
  have hsame : q = q' := by
    rcases abs_cases (f i - q) with ⟨_, _⟩ | ⟨_, _⟩ <;>
      rcases abs_cases (f j - q) with ⟨_, _⟩ | ⟨_, _⟩ <;>
      rcases abs_cases (f i - q') with ⟨_, _⟩ | ⟨_, _⟩ <;>
      rcases abs_cases (f j - q') with ⟨_, _⟩ | ⟨_, _⟩ <;>
      linarith
  subst hsame
  exact hless (h.unique hf hindices h').le

/-- What lies between two numbers is rounded as they are. -/
theorem eq_of_between (hf : StrictMono f) (hindices : indices.OrdConnected) {below above : ℚ}
    (hbelow : NearestIn indices f below i) (habove : NearestIn indices f above i)
    (h : NearestIn indices f q j) (hle : below ≤ q) (hge : q ≤ above) : j = i :=
  Nat.le_antisymm (h.le_of_le_of_le hf hindices habove hge)
    (hbelow.le_of_le_of_le hf hindices h hle)

/-- A number is nearest to a member if it is nearer to it than half the way to any other. -/
theorem of_forall_two_mul_lt (hmem : i ∈ indices)
    (h : ∀ j ∈ indices, j ≠ i → 2 * |f i - q| < |f j - f i|) : NearestIn indices f q i := by
  have hfarther : ∀ j ∈ indices, j ≠ i → |f i - q| < |f j - q| := by
    intro j hj hne
    have htriangle : |f j - f i| ≤ |f j - q| + |f i - q| := by
      rw [abs_sub_comm (f i) q]
      exact abs_sub_le _ _ _
    linarith [h j hj hne]
  refine ⟨hmem, ?_, ?_⟩
  · intro j hj
    by_cases hji : j = i
    · rw [hji]
    · exact (hfarther j hj hji).le
  · intro j hj hne heq
    exact absurd heq (hfarther j hj hne).ne

/-- A member is nearest to itself. -/
theorem self (hf : StrictMono f) (hmem : i ∈ indices) : NearestIn indices f (f i) i := by
  refine of_forall_two_mul_lt hmem fun j _ hne => ?_
  rw [sub_self, abs_zero, mul_zero]
  exact abs_pos.mpr (sub_ne_zero.mpr (hf.injective.ne hne))

/-- A member that is not below the number is not passed. -/
theorem le_of_le (hf : StrictMono f) (h : NearestIn indices f q i) {n : ℕ} (hn : n ∈ indices)
    (hq : q ≤ f n) : i ≤ n := by
  by_contra hpassed
  have hmember : f n < f i := hf (by omega)
  have hnear := h.le n hn
  rw [abs_of_nonneg (by linarith), abs_of_nonneg (by linarith)] at hnear
  linarith

/-- A member that is not above the number is reached. -/
theorem ge_of_ge (hf : StrictMono f) (h : NearestIn indices f q i) {n : ℕ} (hn : n ∈ indices)
    (hq : f n ≤ q) : n ≤ i := by
  by_contra hmissed
  have hmember : f i < f n := hf (by omega)
  have hnear := h.le n hn
  rw [abs_of_nonpos (by linarith), abs_of_nonpos (by linarith)] at hnear
  linarith

/-- An even index is reached as soon as the number comes half the way to its member. -/
theorem succ_le_iff (hf : StrictMono f) (h : NearestIn Set.univ f q i) {n : ℕ}
    (heven : (n + 1) % 2 = 0) : n + 1 ≤ i ↔ (f n + f (n + 1)) / 2 ≤ q := by
  have hstep : f n < f (n + 1) := hf (Nat.lt_succ_self n)
  constructor
  · intro hle
    have hmember : f (n + 1) ≤ f i := hf.monotone hle
    have hnear := h.le n (Set.mem_univ n)
    by_contra hless
    rcases abs_cases (f i - q) with ⟨hi, _⟩ | ⟨hi, _⟩ <;>
      rcases abs_cases (f n - q) with ⟨hn, _⟩ | ⟨hn, _⟩ <;>
      linarith
  · intro hhalf
    by_contra hless
    have hbelow : i ≤ n := by omega
    have hmember : f i ≤ f n := hf.monotone hbelow
    have hnear := h.le (n + 1) (Set.mem_univ _)
    have hnear' := h.le n (Set.mem_univ _)
    -- the two members around the number are equally near, so the lower one has an even index
    have heq : |f i - q| = |f (n + 1) - q| := by
      rcases abs_cases (f i - q) with ⟨hi, _⟩ | ⟨hi, _⟩ <;>
        rcases abs_cases (f (n + 1) - q) with ⟨hn, _⟩ | ⟨hn, _⟩ <;>
        linarith
    have hi : i % 2 = 0 := h.even (n + 1) (Set.mem_univ _) (by omega) heq
    have hsame : i ≠ n := by omega
    have hmember' : f i < f n := hf (by omega)
    rcases abs_cases (f i - q) with ⟨hi, _⟩ | ⟨hi, _⟩ <;>
      rcases abs_cases (f n - q) with ⟨hn, _⟩ | ⟨hn, _⟩ <;>
      linarith

/-- A number at most half a step away from a natural number is nearest to it. -/
theorem of_two_mul_abs_le {m : ℕ} (hhalf : 2 * |(m : ℚ) - q| ≤ 1)
    (heven : 2 * |(m : ℚ) - q| = 1 → m % 2 = 0) :
    NearestIn Set.univ (fun k => (k : ℚ)) q m := by
  -- any other natural number is a whole step away from this one
  have hother : ∀ k : ℕ, k ≠ m → 1 ≤ |(k : ℚ) - q| + |(m : ℚ) - q| := by
    intro k hk
    have hint : 1 ≤ |(k : ℤ) - m| := Int.one_le_abs (by omega)
    have hstep : (1 : ℚ) ≤ |(k : ℚ) - m| := by exact_mod_cast hint
    have htriangle : |(k : ℚ) - m| ≤ |(k : ℚ) - q| + |(m : ℚ) - q| := by
      rw [abs_sub_comm (m : ℚ) q]
      exact abs_sub_le _ _ _
    exact hstep.trans htriangle
  refine ⟨Set.mem_univ m, ?_, ?_⟩
  · intro k _
    by_cases hk : k = m
    · rw [hk]
    · have := hother k hk
      linarith
  · intro k _ hk heq
    have := hother k hk
    exact heven (by linarith)

/-- A whole number and a part of one are rounded by comparing the part with a half. -/
theorem whole_add_part (whole : ℕ) {part : ℚ} (hnonneg : 0 ≤ part) (hless : part < 1) :
    NearestIn Set.univ (fun k => (k : ℚ)) (whole + part)
      (if 2 * part < 1 ∨ 2 * part = 1 ∧ whole % 2 = 0 then whole else whole + 1) := by
  split
  · next hdown =>
    have hdistance : |(whole : ℚ) - (whole + part)| = part := by
      rw [sub_add_cancel_left, abs_neg, abs_of_nonneg hnonneg]
    apply of_two_mul_abs_le
    · rw [hdistance]
      rcases hdown with hdown | ⟨hdown, _⟩ <;> linarith
    · rw [hdistance]
      intro hhalf
      rcases hdown with hdown | ⟨_, heven⟩
      · linarith
      · exact heven
  · next hup =>
    have hdistance : |((whole + 1 : ℕ) : ℚ) - (whole + part)| = 1 - part := by
      have hdifference : ((whole + 1 : ℕ) : ℚ) - (whole + part) = 1 - part := by
        push_cast
        ring
      rw [hdifference, abs_of_pos (by linarith)]
    rw [not_or, not_lt, not_and_or] at hup
    apply of_two_mul_abs_le
    · rw [hdistance]
      linarith [hup.1]
    · rw [hdistance]
      intro hhalf
      -- a tie goes up only from an odd number
      rcases hup.2 with hodd | hodd
      · exact absurd (by linarith) hodd
      · omega

end NearestIn

namespace Binary64

/-- A quotient is a whole number and a part of one. -/
theorem natCast_div_eq_add (n : ℕ) {d : ℕ} (hd : 0 < d) :
    (n : ℚ) / d = (n / d : ℕ) + ((n % d : ℕ) : ℚ) / d := by
  have hpos : (0 : ℚ) < d := by exact_mod_cast hd
  have hsplit : (d : ℚ) * (n / d : ℕ) + (n % d : ℕ) = n := by exact_mod_cast Nat.div_add_mod n d
  rw [← hsplit]
  field_simp

/-- The quotient of two natural numbers is rounded to the nearest natural number, a tie to the even
one. -/
theorem nearestIn_roundQuotient (n : ℕ) {d : ℕ} (hd : 0 < d) :
    NearestIn Set.univ (fun k => (k : ℚ)) ((n : ℚ) / d) (roundQuotient n d) := by
  have hpos : (0 : ℚ) < d := by exact_mod_cast hd
  have hquotient := natCast_div_eq_add n hd
  have hnonneg : (0 : ℚ) ≤ ((n % d : ℕ) : ℚ) / d := by positivity
  have hless : ((n % d : ℕ) : ℚ) / d < 1 := by
    rw [div_lt_one hpos]
    exact_mod_cast Nat.mod_lt n hd
  -- the remainder is compared with half of the divisor as the part is with a half
  have hbelow : 2 * (n % d) < d ↔ 2 * (((n % d : ℕ) : ℚ) / d) < 1 := by
    rw [← mul_div_assoc, div_lt_one hpos]
    exact_mod_cast Iff.rfl
  have htie : 2 * (n % d) = d ↔ 2 * (((n % d : ℕ) : ℚ) / d) = 1 := by
    rw [← mul_div_assoc, div_eq_one_iff_eq hpos.ne']
    exact_mod_cast Iff.rfl
  have hnearest := NearestIn.whole_add_part (n / d) hnonneg hless
  simp only [← hbelow, ← htie, ← hquotient] at hnearest
  exact hnearest

end Binary64

end LoxTokens
