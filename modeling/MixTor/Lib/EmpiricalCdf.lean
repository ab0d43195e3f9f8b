/-
  MixTor.Lib.EmpiricalCdf

  Empirical distribution functions of two samples, and their largest gap.

  The share of a sample at or below a point jumps at the entries of the sample only, so
  the gap between two of them is, at any point, its value at the last entry before
  the point.  Behind the last entry of all there is no gap.
-/

import Mathlib.Algebra.Order.Field.Rat
import Mathlib.Data.Finset.Max
import Mathlib.Order.Bounds.Basic
import Mathlib.Tactic.Ring

namespace EmpiricalCdf

variable {α : Type*} [LinearOrder α]

/-- The share of the sample at or below `x`. -/
def cdf (sample : List α) (x : α) : ℚ :=
  (sample.countP fun y => decide (y ≤ x) : ℕ) / (sample.length : ℕ)

/-- How far the two distribution functions are apart at `x`. -/
def gap (a b : List α) (x : α) : ℚ := |cdf a x - cdf b x|

variable {a b sample : List α} {x z : α}

theorem gap_nonneg (a b : List α) (x : α) : 0 ≤ gap a b x := abs_nonneg _

/-- Points between which no entry lies are alike. -/
theorem cdf_congr (h : ∀ y ∈ sample, (y ≤ x ↔ y ≤ z)) : cdf sample x = cdf sample z := by
  have hcount : sample.countP (fun y => decide (y ≤ x)) = sample.countP fun y => decide (y ≤ z) :=
    List.countP_congr fun y hy => by simpa using h y hy
  rw [cdf, cdf, hcount]

theorem cdf_eq_zero (h : ∀ y ∈ sample, x < y) : cdf sample x = 0 := by
  unfold cdf
  rw [List.countP_eq_zero.mpr fun y hy => by simpa using h y hy, Nat.cast_zero, zero_div]

theorem cdf_eq_one (hne : sample ≠ []) (h : ∀ y ∈ sample, y ≤ x) : cdf sample x = 1 := by
  unfold cdf
  rw [List.countP_eq_length.mpr fun y hy => by simpa using h y hy]
  exact div_self (Nat.cast_ne_zero.mpr (mt List.length_eq_zero_iff.mp hne))

/-- A sample of one value repeated has one step. -/
theorem cdf_replicate {n : Nat} (hn : 0 < n) (y x : α) :
    cdf (List.replicate n y) x = if y ≤ x then 1 else 0 := by
  split
  · next hle =>
    refine cdf_eq_one (List.ne_nil_of_length_pos (by rwa [List.length_replicate])) fun z hz => ?_
    rwa [List.eq_of_mem_replicate hz]
  · next hlt =>
    refine cdf_eq_zero fun z hz => ?_
    rw [List.eq_of_mem_replicate hz]
    exact not_le.mp hlt

/-- Among the entries with a property there is a largest one. -/
theorem exists_max {l : List α} {P : α → Prop} (h : ∃ y ∈ l, P y) :
    ∃ m ∈ l, P m ∧ ∀ y ∈ l, P y → y ≤ m := by
  classical
  obtain ⟨y, hy, hPy⟩ := h
  obtain ⟨m, hm, hmax⟩ := (l.toFinset.filter P).exists_max_image id
    ⟨y, Finset.mem_filter.mpr ⟨List.mem_toFinset.mpr hy, hPy⟩⟩
  obtain ⟨hml, hPm⟩ := Finset.mem_filter.mp hm
  exact ⟨m, List.mem_toFinset.mp hml, hPm, fun z hz hPz =>
    hmax z (Finset.mem_filter.mpr ⟨List.mem_toFinset.mpr hz, hPz⟩)⟩

/-- The gap at any point is none, or that at an entry of one of the samples. -/
theorem gap_eq_zero_or_entry (a b : List α) (x : α) :
    gap a b x = 0 ∨ ∃ y ∈ a ++ b, gap a b x = gap a b y := by
  by_cases hbelow : ∃ y ∈ a ++ b, y ≤ x
  · obtain ⟨m, hm, hmx, hmax⟩ := exists_max hbelow
    have hsame : ∀ y ∈ a ++ b, (y ≤ x ↔ y ≤ m) :=
      fun y hy => ⟨hmax y hy, fun hym => hym.trans hmx⟩
    refine .inr ⟨m, hm, ?_⟩
    have ha : cdf a x = cdf a m := cdf_congr fun y hy => hsame y (List.mem_append_left b hy)
    have hb : cdf b x = cdf b m := cdf_congr fun y hy => hsame y (List.mem_append_right a hy)
    rw [gap, gap, ha, hb]
  · have habove : ∀ y ∈ a ++ b, x < y := fun y hy => not_le.mp fun hle => hbelow ⟨y, hy, hle⟩
    refine .inl ?_
    rw [gap, cdf_eq_zero fun y hy => habove y (List.mem_append_left b hy),
      cdf_eq_zero fun y hy => habove y (List.mem_append_right a hy), sub_zero, abs_zero]

/-- Behind the last entry both samples are below the point. -/
theorem exists_gap_eq_zero (ha : a ≠ []) (hb : b ≠ []) : ∃ x, gap a b x = 0 := by
  obtain ⟨first, rest, rfl⟩ := List.exists_cons_of_ne_nil ha
  obtain ⟨m, -, -, hmax⟩ := exists_max (l := first :: rest ++ b) (P := fun _ => True)
    ⟨first, List.mem_cons_self, trivial⟩
  refine ⟨m, ?_⟩
  rw [gap, cdf_eq_one ha fun y hy => hmax y (List.mem_append_left b hy) trivial,
    cdf_eq_one hb fun y hy => hmax y (List.mem_append_right _ hy) trivial, sub_self, abs_zero]

/-- **Largest gap.**  A number that no gap at an entry exceeds, and that is zero or such a
    gap, is the largest gap at any point. -/
theorem isGreatest_gap {d : ℚ} (ha : a ≠ []) (hb : b ≠ []) (hle : ∀ y ∈ a ++ b, gap a b y ≤ d)
    (hd : d = 0 ∨ ∃ y, gap a b y = d) : IsGreatest (Set.range (gap a b)) d := by
  constructor
  · rcases hd with rfl | hy
    · exact exists_gap_eq_zero ha hb
    · exact hy
  · rintro _ ⟨x, rfl⟩
    have hnonneg : 0 ≤ d := by
      rcases hd with rfl | ⟨y, rfl⟩
      · exact le_rfl
      · exact gap_nonneg a b y
    rcases gap_eq_zero_or_entry a b x with hzero | ⟨y, hy, heq⟩
    · exact hzero.trans_le hnonneg
    · exact heq.trans_le (hle y hy)

end EmpiricalCdf
