/-
  MixTor.Lib.Correlation

  The correlation coefficient of two measurements of finitely many samples, over an
  ordered field with square roots.

  It is between -1 and 1 by the Cauchy-Schwarz inequality, 0 if one measurement is
  constant, and of magnitude 1 exactly if one is an affine image of the other.
-/

import Mathlib.Algebra.BigOperators.Field
import Mathlib.Algebra.Order.BigOperators.Expect
import Mathlib.Algebra.Order.BigOperators.Ring.Finset
import Mathlib.Algebra.Order.Field.Basic
import Mathlib.Tactic.FieldSimp
import Mathlib.Tactic.Linarith
import Mathlib.Tactic.LinearCombination

namespace Correlation

open Finset
open scoped BigOperators

variable {ι K : Type*} [Fintype ι] [Field K] [LinearOrder K] [IsStrictOrderedRing K]

-- ============================================================================
-- Deviations from the mean
-- ============================================================================

/-- What a sample deviates from the mean. -/
def deviation (f : ι → K) (i : ι) : K := f i - 𝔼 j, f j

/-- The sum of the products of the deviations. -/
def comoment (f g : ι → K) : K := ∑ i, deviation f i * deviation g i

variable {f g : ι → K}

theorem comoment_comm (f g : ι → K) : comoment f g = comoment g f :=
  sum_congr rfl fun _ _ => mul_comm _ _

theorem comoment_self_nonneg (f : ι → K) : 0 ≤ comoment f f :=
  sum_nonneg fun _ _ => mul_self_nonneg _

/-- A sample deviates nowhere exactly if it is constant. -/
theorem comoment_self_eq_zero_iff : comoment f f = 0 ↔ ∃ c, ∀ i, f i = c := by
  rw [comoment, sum_eq_zero_iff_of_nonneg fun _ _ => mul_self_nonneg _]
  simp only [mem_univ, forall_const, mul_self_eq_zero, deviation, sub_eq_zero]
  refine ⟨fun h => ⟨_, h⟩, ?_⟩
  rintro ⟨c, hc⟩ i
  have : Nonempty ι := ⟨i⟩
  rw [funext hc, Fintype.expect_const]

/-- Deviations of an affine image are scaled. -/
theorem deviation_affine {c d : K} (h : ∀ i, g i = c * f i + d) (i : ι) :
    deviation g i = c * deviation f i := by
  have : Nonempty ι := ⟨i⟩
  have hmean : 𝔼 j, g j = c * 𝔼 j, f j + d := by
    rw [funext h, expect_add_distrib, Fintype.expect_const, ← mul_expect]
  rw [deviation, deviation, hmean, h i]
  ring

theorem comoment_affine {c d : K} (h : ∀ i, g i = c * f i + d) :
    comoment f g = c * comoment f f ∧ comoment g g = c * c * comoment f f := by
  simp only [comoment, deviation_affine h, mul_sum]
  exact ⟨sum_congr rfl fun _ _ => by ring, sum_congr rfl fun _ _ => by ring⟩

/-- The Cauchy-Schwarz inequality. -/
theorem comoment_mul_self_le (f g : ι → K) :
    comoment f g * comoment f g ≤ comoment f f * comoment g g := by
  have h := sum_mul_sq_le_sq_mul_sq univ (deviation f) (deviation g)
  simpa only [comoment, sq] using h

/-- Where it is an equality the deviations are proportional. -/
theorem deviation_of_comoment_eq (h : comoment f g * comoment f g = comoment f f * comoment g g)
    (i : ι) : comoment g g * deviation f i = comoment f g * deviation g i := by
  have hexpand : ∀ j, (comoment g g * deviation f j - comoment f g * deviation g j)
      * (comoment g g * deviation f j - comoment f g * deviation g j)
      = comoment g g * comoment g g * (deviation f j * deviation f j)
        - 2 * comoment g g * comoment f g * (deviation f j * deviation g j)
        + comoment f g * comoment f g * (deviation g j * deviation g j) := fun _ => by ring
  have hsum : ∑ j, (comoment g g * deviation f j - comoment f g * deviation g j)
      * (comoment g g * deviation f j - comoment f g * deviation g j) = 0 := by
    rw [sum_congr rfl fun j _ => hexpand j, sum_add_distrib, sum_sub_distrib, ← mul_sum,
      ← mul_sum, ← mul_sum]
    change comoment g g * comoment g g * comoment f f
      - 2 * comoment g g * comoment f g * comoment f g
      + comoment f g * comoment f g * comoment g g = 0
    linear_combination comoment g g * -h
  rw [sum_eq_zero_iff_of_nonneg fun _ _ => mul_self_nonneg _] at hsum
  exact sub_eq_zero.mp (mul_self_eq_zero.mp (hsum i (mem_univ i)))

-- ============================================================================
-- The coefficient
-- ============================================================================

/-- A square root of the numbers that have one. -/
structure IsSqrt (sqrt : K → K) : Prop where
  nonneg : ∀ x, 0 ≤ x → 0 ≤ sqrt x
  mul_self : ∀ x, 0 ≤ x → sqrt x * sqrt x = x

/-- The correlation coefficient, 0 where it is not defined. -/
def coefficient (sqrt : K → K) (f g : ι → K) : K :=
  let den := sqrt (comoment f f) * sqrt (comoment g g)
  if den = 0 then 0 else comoment f g / den

variable {sqrt : K → K}

theorem coefficient_comm (f g : ι → K) : coefficient sqrt f g = coefficient sqrt g f := by
  rw [coefficient, coefficient, comoment_comm f g, mul_comm]

theorem IsSqrt.eq_zero_iff (hs : IsSqrt sqrt) {x : K} (hx : 0 ≤ x) : sqrt x = 0 ↔ x = 0 := by
  conv_rhs => rw [← hs.mul_self x hx, mul_self_eq_zero]

/-- The denominator, and its square. -/
theorem IsSqrt.denominator (hs : IsSqrt sqrt) (f g : ι → K) :
    0 ≤ sqrt (comoment f f) * sqrt (comoment g g) ∧
      (sqrt (comoment f f) * sqrt (comoment g g)) * (sqrt (comoment f f) * sqrt (comoment g g))
        = comoment f f * comoment g g := by
  have hf := comoment_self_nonneg f
  have hg := comoment_self_nonneg g
  refine ⟨mul_nonneg (hs.nonneg _ hf) (hs.nonneg _ hg), ?_⟩
  rw [mul_mul_mul_comm, hs.mul_self _ hf, hs.mul_self _ hg]

/-- The coefficient is between -1 and 1. -/
theorem abs_coefficient_le_one (hs : IsSqrt sqrt) (f g : ι → K) : |coefficient sqrt f g| ≤ 1 := by
  obtain ⟨hnonneg, hsq⟩ := hs.denominator f g
  unfold coefficient
  dsimp only
  split
  · rw [abs_zero]
    exact zero_le_one
  · next hden =>
    have hpos := lt_of_le_of_ne hnonneg (Ne.symm hden)
    rw [abs_div, abs_of_pos hpos, div_le_one hpos]
    refine abs_le_of_sq_le_sq ?_ hnonneg
    rw [sq, sq, hsq]
    exact comoment_mul_self_le f g

/-- What is constant is correlated with nothing. -/
theorem coefficient_of_const (hs : IsSqrt sqrt) (h : ∃ c, ∀ i, f i = c) :
    coefficient sqrt f g = 0 := by
  have hzero : sqrt (comoment f f) = 0 :=
    (hs.eq_zero_iff (comoment_self_nonneg f)).mpr (comoment_self_eq_zero_iff.mpr h)
  rw [coefficient, hzero, zero_mul, if_pos rfl]

/-- What is not constant is fully correlated with its affine images. -/
theorem abs_coefficient_affine (hs : IsSqrt sqrt) {c d : K} (hc : c ≠ 0)
    (h : ∀ i, g i = c * f i + d) (hf : ¬ ∃ a, ∀ i, f i = a) : |coefficient sqrt f g| = 1 := by
  obtain ⟨hcross, hself⟩ := comoment_affine h
  obtain ⟨hnonneg, hsq⟩ := hs.denominator f g
  have hpos : comoment f f ≠ 0 := fun hzero => hf (comoment_self_eq_zero_iff.mp hzero)
  have hsquare : comoment f g * comoment f g = comoment f f * comoment g g := by
    rw [hcross, hself]
    ring
  have hne : comoment f g ≠ 0 := hcross ▸ mul_ne_zero hc hpos
  have hden : sqrt (comoment f f) * sqrt (comoment g g) ≠ 0 := by
    intro hzero
    rw [hzero, zero_mul, ← hsquare, eq_comm, mul_self_eq_zero] at hsq
    exact hne hsq
  rw [coefficient, if_neg hden, abs_div, abs_of_nonneg hnonneg, div_eq_one_iff_eq hden]
  exact (abs_eq_abs.mpr (mul_self_eq_mul_self_iff.mp (hsquare.trans hsq.symm))).trans
    (abs_of_nonneg hnonneg)

/-- A root of a number scaled by a square. -/
theorem IsSqrt.mul_self_mul (hs : IsSqrt sqrt) {c x : K} (hc : 0 ≤ c) (hx : 0 ≤ x) :
    sqrt (c * c * x) = c * sqrt x := by
  have hcx : 0 ≤ c * c * x := mul_nonneg (mul_self_nonneg c) hx
  refine (mul_self_inj (hs.nonneg _ hcx) (mul_nonneg hc (hs.nonneg x hx))).mp ?_
  rw [hs.mul_self _ hcx, mul_mul_mul_comm, hs.mul_self x hx]

/-- The coefficient does not depend on the units of the measurements. -/
theorem coefficient_scale (hs : IsSqrt sqrt) {f' g' : ι → K} {c d : K} (hc : 0 < c) (hd : 0 < d)
    (hf : ∀ i, f' i = c * f i) (hg : ∀ i, g' i = d * g i) :
    coefficient sqrt f' g' = coefficient sqrt f g := by
  have hdevf : ∀ i, deviation f' i = c * deviation f i :=
    deviation_affine (d := 0) fun i => by rw [hf, add_zero]
  have hdevg : ∀ i, deviation g' i = d * deviation g i :=
    deviation_affine (d := 0) fun i => by rw [hg, add_zero]
  have hff : comoment f' f' = c * c * comoment f f := by
    simp only [comoment, hdevf, mul_sum]
    exact sum_congr rfl fun _ _ => by ring
  have hgg : comoment g' g' = d * d * comoment g g := by
    simp only [comoment, hdevg, mul_sum]
    exact sum_congr rfl fun _ _ => by ring
  have hfg : comoment f' g' = c * d * comoment f g := by
    simp only [comoment, hdevf, hdevg, mul_sum]
    exact sum_congr rfl fun _ _ => by ring
  have hcd : c * d ≠ 0 := (mul_pos hc hd).ne'
  rw [coefficient, coefficient, hff, hgg, hfg,
    hs.mul_self_mul hc.le (comoment_self_nonneg f),
    hs.mul_self_mul hd.le (comoment_self_nonneg g), mul_mul_mul_comm]
  simp only [mul_eq_zero, hcd, false_or, mul_div_mul_left _ _ hcd]

/-- Only affine images are fully correlated. -/
theorem exists_affine_of_abs_coefficient (hs : IsSqrt sqrt) (h : |coefficient sqrt f g| = 1) :
    ∃ c d, ∀ i, f i = c * g i + d := by
  obtain ⟨hnonneg, hsq⟩ := hs.denominator f g
  unfold coefficient at h
  dsimp only at h
  split at h
  · rw [abs_zero] at h
    exact absurd h zero_ne_one
  · next hden =>
    rw [abs_div, abs_of_nonneg hnonneg, div_eq_one_iff_eq hden] at h
    have hsquare : comoment f g * comoment f g = comoment f f * comoment g g := by
      rw [← hsq, ← h, abs_mul_abs_self]
    have hg : comoment g g ≠ 0 := fun hzero =>
      hden (mul_self_eq_zero.mp (hsq.trans (by rw [hzero, mul_zero])))
    refine ⟨comoment f g / comoment g g,
      𝔼 j, f j - comoment f g / comoment g g * 𝔼 j, g j, fun i => ?_⟩
    have hdev := deviation_of_comoment_eq hsquare i
    rw [deviation, deviation] at hdev
    field_simp
    linear_combination hdev

end Correlation
