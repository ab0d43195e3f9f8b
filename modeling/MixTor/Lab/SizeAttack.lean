/-
  MixTor.Lab.SizeAttack

  The size attack of the lab's adversary (correlation_attack.rs): the two-sample
  Kolmogorov-Smirnov statistic of real and dummy sizes, and the accuracy of the best
  threshold; and the copy of the statistic in the self test (self_test.rs).

  Sizes are finite numbers of any ordered type, and the shares are exact fractions.
  The walk over both samples is given fuel; `none` is that it runs out.
-/

import MixTor.Lib.EmpiricalCdf
import MixTor.Lib.RunningMax
import Mathlib.Data.List.Sort
import Mathlib.Order.WithBot
import Mathlib.Tactic.Linarith

namespace MixTor

open EmpiricalCdf (cdf gap)

variable {α : Type*} [LinearOrder α]

-- ============================================================================
-- The Kolmogorov-Smirnov statistic
-- ============================================================================

/-- `sort_by(partial_cmp)`. -/
def sortSizes (xs : List α) : List α := xs.insertionSort (· ≤ ·)

/-- `xs.get(i).copied().unwrap_or(f64::INFINITY)`. -/
def nextSize (xs : List α) (i : Nat) : WithTop α := (xs[i]?.map WithTop.some).getD ⊤

/-- `while i < xs.len() && xs[i] <= x { i += 1 }`, from index `i` on. -/
def skipTies (xs : List α) (x : WithTop α) (i : Nat) : Nat :=
  i + ((xs.drop i).takeWhile fun y : α => decide ((y : WithTop α) ≤ x)).length

/-- The walk over two sorted samples, from the indices `ia` and `ib` on. -/
def ksWalk (a b : List α) : Nat → Nat → Nat → ℚ → Option ℚ
  | 0, _, _, _ => none
  | fuel + 1, ia, ib, maxDiff =>
      if ia < a.length ∨ ib < b.length then
        let x := min (nextSize a ia) (nextSize b ib)
        let ia := skipTies a x ia
        let ib := skipTies b x ib
        ksWalk a b fuel ia ib
          (max maxDiff |((ia : ℕ) / (a.length : ℕ) - (ib : ℕ) / (b.length : ℕ) : ℚ)|)
      else some maxDiff

/-- `ks_statistic`. -/
def ksStatistic (fuel : Nat) (a b : List α) : Option ℚ :=
  if a = [] ∨ b = [] then some 0 else ksWalk (sortSizes a) (sortSizes b) fuel 0 0 0

/-- Whole numbers as sizes. -/
def asSizes (xs : List Nat) : List ℚ := xs.map fun x : Nat => (x : ℚ)

/-- `SelfTester::ks_statistic`, of sizes that are whole numbers. -/
def SelfTester.ksStatistic (fuel : Nat) (a b : List Nat) : Option ℚ :=
  if a = [] ∨ b = [] then some 0
  else ksWalk (sortSizes (asSizes a)) (sortSizes (asSizes b)) fuel 0 0 0

-- ============================================================================
-- Indices into a sorted sample
-- ============================================================================

section Sorted

variable {xs : List α} {x y : α} {i : Nat}

theorem mem_sortSizes : x ∈ sortSizes xs ↔ x ∈ xs := List.mem_insertionSort _

theorem pairwise_sortSizes (xs : List α) : (sortSizes xs).Pairwise (· ≤ ·) :=
  List.pairwise_insertionSort (· ≤ ·) xs

theorem gap_sortSizes (a b : List α) : gap (sortSizes a) (sortSizes b) = gap a b := by
  have hcdf : ∀ (xs : List α) (x : α), cdf (sortSizes xs) x = cdf xs x := by
    intro xs x
    have hperm : (sortSizes xs).Perm xs := List.perm_insertionSort _ xs
    rw [cdf, cdf, hperm.countP_eq, hperm.length_eq]
  funext x
  rw [gap, gap, hcdf, hcdf]

omit [LinearOrder α] in
theorem nextSize_of_lt (h : i < xs.length) : nextSize xs i = xs[i] := by
  rw [nextSize, List.getElem?_eq_getElem h]
  rfl

omit [LinearOrder α] in
theorem nextSize_of_le (h : xs.length ≤ i) : nextSize xs i = ⊤ := by
  rw [nextSize, List.getElem?_eq_none h]
  rfl

/-- In a sorted sample what is at or below a size comes first. -/
theorem length_takeWhile_le (hsorted : xs.Pairwise (· ≤ ·)) (x : α) :
    (xs.takeWhile fun y : α => decide ((y : WithTop α) ≤ x)).length
      = xs.countP fun y => decide (y ≤ x) := by
  induction xs with
  | nil => rfl
  | cons first rest ih =>
      obtain ⟨hfirst, hrest⟩ := List.pairwise_cons.mp hsorted
      by_cases hle : first ≤ x
      · rw [List.takeWhile_cons_of_pos (by simpa using hle),
          List.countP_cons_of_pos (by simpa using hle), List.length_cons, ih hrest]
      · rw [List.takeWhile_cons_of_neg (by simpa using hle),
          List.countP_eq_zero.mpr, List.length_nil]
        intro y hy
        have hfy : first ≤ y := by
          rcases List.mem_cons.mp hy with rfl | hin
          · exact le_rfl
          · exact hfirst y hin
        simpa using (not_le.mp hle).trans_le hfy

/-- All sizes in front of an index count if none of them is above. -/
theorem countP_take_of_le (hi : i ≤ xs.length) (hle : ∀ y ∈ xs.take i, y ≤ x) :
    (xs.take i).countP (fun y => decide (y ≤ x)) = i := by
  rw [List.countP_eq_length.mpr fun y hy => by simpa using hle y hy, List.length_take]
  exact min_eq_left hi

/-- Behind a tie the index is the number of sizes at or below it. -/
theorem skipTies_eq (hsorted : xs.Pairwise (· ≤ ·)) (hi : i ≤ xs.length)
    (hle : ∀ y ∈ xs.take i, y ≤ x) :
    skipTies xs x i = xs.countP fun y => decide (y ≤ x) := by
  have hdrop : (xs.drop i).Pairwise (· ≤ ·) := hsorted.sublist (List.drop_sublist i xs)
  have htake := countP_take_of_le hi hle
  rw [skipTies, length_takeWhile_le hdrop]
  calc i + (xs.drop i).countP (fun y => decide (y ≤ x))
    _ = (xs.take i).countP (fun y => decide (y ≤ x))
          + (xs.drop i).countP (fun y => decide (y ≤ x)) := by rw [htake]
    _ = xs.countP fun y => decide (y ≤ x) := by rw [← List.countP_append, List.take_append_drop]

/-- The sizes in front of that index are those at or below the tie. -/
theorem mem_take_countP (hsorted : xs.Pairwise (· ≤ ·)) :
    y ∈ xs.take (xs.countP fun y => decide (y ≤ x)) ↔ y ∈ xs ∧ y ≤ x := by
  induction xs with
  | nil => simp
  | cons first rest ih =>
      obtain ⟨hfirst, hrest⟩ := List.pairwise_cons.mp hsorted
      by_cases hle : first ≤ x
      · rw [List.countP_cons_of_pos (by simpa using hle), List.take_succ_cons, List.mem_cons,
          ih hrest, List.mem_cons]
        constructor
        · rintro (rfl | ⟨hin, hyx⟩)
          · exact ⟨.inl rfl, hle⟩
          · exact ⟨.inr hin, hyx⟩
        · rintro ⟨rfl | hin, hyx⟩
          · exact .inl rfl
          · exact .inr ⟨hin, hyx⟩
      · have hnone : ∀ z ∈ first :: rest, ¬ z ≤ x := by
          intro z hz hzx
          rcases List.mem_cons.mp hz with rfl | hin
          · exact hle hzx
          · exact hle ((hfirst z hin).trans hzx)
        rw [List.countP_eq_zero.mpr fun z hz => by simpa using hnone z hz, List.take_zero]
        exact ⟨nofun, fun ⟨hin, hyx⟩ => absurd hyx (hnone y hin)⟩

/-- The sizes behind it are larger. -/
theorem lt_of_mem_drop_countP (hsorted : xs.Pairwise (· ≤ ·))
    (hy : y ∈ xs.drop (xs.countP fun y => decide (y ≤ x))) : x < y := by
  induction xs with
  | nil => cases hy
  | cons first rest ih =>
      obtain ⟨hfirst, hrest⟩ := List.pairwise_cons.mp hsorted
      by_cases hle : first ≤ x
      · rw [List.countP_cons_of_pos (by simpa using hle), List.drop_succ_cons] at hy
        exact ih hrest hy
      · rcases List.mem_cons.mp (List.mem_of_mem_drop hy) with rfl | hin
        · exact not_le.mp hle
        · exact (not_le.mp hle).trans_le (hfirst y hin)

/-- The next size is none, or the first of those left. -/
theorem nextSize_spec (hsorted : xs.Pairwise (· ≤ ·)) (i : Nat) :
    (xs.length ≤ i ∧ nextSize xs i = ⊤) ∨
      ∃ x ∈ xs.drop i, nextSize xs i = x ∧ ∀ z ∈ xs.drop i, x ≤ z := by
  by_cases hi : i < xs.length
  · have hcons : xs.drop i = xs[i] :: xs.drop (i + 1) := List.drop_eq_getElem_cons hi
    have hdrop : (xs.drop i).Pairwise (· ≤ ·) := hsorted.sublist (List.drop_sublist i xs)
    rw [hcons] at hdrop ⊢
    refine .inr ⟨xs[i], List.mem_cons_self, nextSize_of_lt hi, fun z hz => ?_⟩
    rcases List.mem_cons.mp hz with rfl | hin
    · exact le_rfl
    · exact (List.pairwise_cons.mp hdrop).1 z hin
  · exact .inl ⟨not_lt.mp hi, nextSize_of_le (not_lt.mp hi)⟩

end Sorted

-- ============================================================================
-- The walk
-- ============================================================================

variable {a b : List α} {ia ib : Nat} {maxDiff : ℚ}

/-- Where the walk stands: what is in front of the indices is smaller than what is behind
    them, and the largest gap so far is the largest at what is in front. -/
structure Walked (a b : List α) (ia ib : Nat) (maxDiff : ℚ) : Prop where
  le_a : ia ≤ a.length
  le_b : ib ≤ b.length
  lt : ∀ y ∈ a.take ia ++ b.take ib, ∀ z ∈ a.drop ia ++ b.drop ib, y < z
  gap_le : ∀ y ∈ a.take ia ++ b.take ib, gap a b y ≤ maxDiff
  attained : maxDiff = 0 ∨ ∃ y, gap a b y = maxDiff

theorem walked_start (a b : List α) : Walked a b 0 0 0 where
  le_a := Nat.zero_le _
  le_b := Nat.zero_le _
  lt y hy := by cases hy
  gap_le y hy := by cases hy
  attained := .inl rfl

/-- The smallest size left. -/
theorem exists_next (ha : a.Pairwise (· ≤ ·)) (hb : b.Pairwise (· ≤ ·))
    (h : ia < a.length ∨ ib < b.length) :
    ∃ x : α, min (nextSize a ia) (nextSize b ib) = x ∧ x ∈ a.drop ia ++ b.drop ib ∧
      ∀ z ∈ a.drop ia ++ b.drop ib, x ≤ z := by
  rcases nextSize_spec ha ia with ⟨hia, hnextA⟩ | ⟨x, hx, hnextA, hxle⟩
  · rcases nextSize_spec hb ib with ⟨hib, -⟩ | ⟨y, hy, hnextB, hyle⟩
    · omega
    · refine ⟨y, by rw [hnextA, hnextB, top_inf_eq], List.mem_append_right _ hy, fun z hz => ?_⟩
      rw [List.drop_eq_nil_of_le hia, List.nil_append] at hz
      exact hyle z hz
  · rcases nextSize_spec hb ib with ⟨hib, hnextB⟩ | ⟨y, hy, hnextB, hyle⟩
    · refine ⟨x, by rw [hnextA, hnextB, inf_top_eq], List.mem_append_left _ hx, fun z hz => ?_⟩
      rw [List.drop_eq_nil_of_le hib, List.append_nil] at hz
      exact hxle z hz
    · refine ⟨min x y, by rw [hnextA, hnextB]; exact (WithTop.coe_min x y).symm, ?_, ?_⟩
      · rcases min_choice x y with h | h
        · rw [h]
          exact List.mem_append_left _ hx
        · rw [h]
          exact List.mem_append_right _ hy
      · intro z hz
        rcases List.mem_append.mp hz with hz | hz
        · exact (min_le_left x y).trans (hxle z hz)
        · exact (min_le_right x y).trans (hyle z hz)

/-- An index moves on if the tie is among what is behind it. -/
theorem lt_countP_of_mem_drop {xs : List α} {x : α} {i : Nat} (hx : x ∈ xs.drop i)
    (hle : ∀ y ∈ xs.take i, y ≤ x) (hi : i ≤ xs.length) :
    i < xs.countP fun y => decide (y ≤ x) := by
  have htake := countP_take_of_le hi hle
  have hdrop : 0 < (xs.drop i).countP fun y => decide (y ≤ x) :=
    List.countP_pos_iff.mpr ⟨x, hx, decide_eq_true le_rfl⟩
  calc i
    _ < (xs.take i).countP (fun y => decide (y ≤ x))
          + (xs.drop i).countP (fun y => decide (y ≤ x)) := by omega
    _ = xs.countP fun y => decide (y ≤ x) := by rw [← List.countP_append, List.take_append_drop]

/-- What is at or below the tie was in front of the indices, or is the tie. -/
theorem Walked.eq_or_mem (hxle : ∀ z ∈ a.drop ia ++ b.drop ib, x ≤ z) {y : α}
    (hy : y ∈ a ++ b) (hyx : y ≤ x) : y = x ∨ y ∈ a.take ia ++ b.take ib := by
  have hsplit : y ∈ a.take ia ++ b.take ib ∨ y ∈ a.drop ia ++ b.drop ib := by
    rw [← List.take_append_drop ia a, ← List.take_append_drop ib b] at hy
    simp only [List.mem_append] at hy ⊢
    tauto
  rcases hsplit with hfront | hbehind
  · exact .inr hfront
  · exact .inl (le_antisymm hyx (hxle y hbehind))

/-- **Step lemma.**  One round moves at least one index behind the smallest size left, and
    accounts for the gap there. -/
theorem Walked.step (h : Walked a b ia ib maxDiff) (ha : a.Pairwise (· ≤ ·))
    (hb : b.Pairwise (· ≤ ·)) {x : α} (hx : x ∈ a.drop ia ++ b.drop ib)
    (hxle : ∀ z ∈ a.drop ia ++ b.drop ib, x ≤ z) :
    ia + ib < skipTies a x ia + skipTies b x ib ∧
      Walked a b (skipTies a x ia) (skipTies b x ib) (max maxDiff
        |((skipTies a x ia : ℕ) / (a.length : ℕ) - (skipTies b x ib : ℕ) / (b.length : ℕ) : ℚ)|) := by
  have hfront : ∀ y ∈ a.take ia ++ b.take ib, y ≤ x := fun y hy => (h.lt y hy x hx).le
  have hleA : ∀ y ∈ a.take ia, y ≤ x := fun y hy => hfront y (List.mem_append_left _ hy)
  have hleB : ∀ y ∈ b.take ib, y ≤ x := fun y hy => hfront y (List.mem_append_right _ hy)
  have hcountA : ia ≤ a.countP fun y => decide (y ≤ x) := by
    rw [← skipTies_eq ha h.le_a hleA]
    exact Nat.le_add_right _ _
  have hcountB : ib ≤ b.countP fun y => decide (y ≤ x) := by
    rw [← skipTies_eq hb h.le_b hleB]
    exact Nat.le_add_right _ _
  rw [skipTies_eq ha h.le_a hleA, skipTies_eq hb h.le_b hleB]
  have hgap : gap a b x = |((a.countP fun y => decide (y ≤ x) : ℕ) / (a.length : ℕ)
      - (b.countP fun y => decide (y ≤ x) : ℕ) / (b.length : ℕ) : ℚ)| := rfl
  rw [← hgap]
  have hseen : ∀ y ∈ a.take (a.countP fun y => decide (y ≤ x))
      ++ b.take (b.countP fun y => decide (y ≤ x)), y ∈ a ++ b ∧ y ≤ x := by
    intro y hy
    rw [List.mem_append, mem_take_countP ha, mem_take_countP hb] at hy
    rw [List.mem_append]
    tauto
  refine ⟨?_, List.countP_le_length, List.countP_le_length, ?_, ?_, ?_⟩
  · rcases List.mem_append.mp hx with hin | hin
    · have := lt_countP_of_mem_drop hin hleA h.le_a
      omega
    · have := lt_countP_of_mem_drop hin hleB h.le_b
      omega
  · intro y hy z hz
    have hxz : x < z := by
      rcases List.mem_append.mp hz with hin | hin
      · exact lt_of_mem_drop_countP ha hin
      · exact lt_of_mem_drop_countP hb hin
    exact (hseen y hy).2.trans_lt hxz
  · intro y hy
    rcases Walked.eq_or_mem hxle (hseen y hy).1 (hseen y hy).2 with rfl | hold
    · exact le_max_right _ _
    · exact (h.gap_le y hold).trans (le_max_left _ _)
  · rcases max_choice maxDiff (gap a b x) with hmax | hmax
    · rw [hmax]
      exact h.attained
    · exact .inr ⟨x, hmax.symm⟩

/-- At the end of both samples every size has been accounted for. -/
theorem Walked.done (h : Walked a b ia ib maxDiff) (hdone : ¬ (ia < a.length ∨ ib < b.length)) :
    (∀ fuel, 0 < fuel → ksWalk a b fuel ia ib maxDiff = some maxDiff) ∧
      ∀ y ∈ a ++ b, gap a b y ≤ maxDiff := by
  constructor
  · intro fuel hfuel
    obtain ⟨n, rfl⟩ : ∃ n, fuel = n + 1 := ⟨fuel - 1, by omega⟩
    rw [ksWalk, if_neg hdone]
  · intro y hy
    refine h.gap_le y ?_
    rwa [List.take_of_length_le (by omega), List.take_of_length_le (by omega)]

/-- **The walk.**  With fuel for one more round than there are sizes left it ends, with the
    largest gap at any size. -/
theorem Walked.exists_ksWalk (ha : a.Pairwise (· ≤ ·)) (hb : b.Pairwise (· ≤ ·))
    (h : Walked a b ia ib maxDiff) (left : Nat) (hleft : a.length + b.length - (ia + ib) ≤ left) :
    ∃ d, (∀ fuel, left < fuel → ksWalk a b fuel ia ib maxDiff = some d) ∧
      (∀ y ∈ a ++ b, gap a b y ≤ d) ∧ (d = 0 ∨ ∃ y, gap a b y = d) := by
  induction left generalizing ia ib maxDiff with
  | zero =>
      obtain ⟨hend, hle⟩ := h.done (by have := h.le_a; have := h.le_b; omega)
      exact ⟨maxDiff, hend, hle, h.attained⟩
  | succ left ih =>
      by_cases hmore : ia < a.length ∨ ib < b.length
      · obtain ⟨x, hmin, hx, hxle⟩ := exists_next ha hb hmore
        obtain ⟨hlt, hstep⟩ := h.step ha hb hx hxle
        obtain ⟨d, hd, hle, hattained⟩ := ih hstep (by omega)
        refine ⟨d, fun fuel hfuel => ?_, hle, hattained⟩
        obtain ⟨n, rfl⟩ : ∃ n, fuel = n + 1 := ⟨fuel - 1, by omega⟩
        rw [ksWalk, if_pos hmore, hmin]
        exact hd n (by omega)
      · obtain ⟨hend, hle⟩ := h.done hmore
        exact ⟨maxDiff, fun fuel hfuel => hend fuel (by omega), hle, h.attained⟩

/-- The statistic is the largest gap. -/
theorem exists_ksStatistic (ha : a ≠ []) (hb : b ≠ []) :
    ∃ d, IsGreatest (Set.range (gap a b)) d ∧
      ∀ fuel, a.length + b.length < fuel → ksStatistic fuel a b = some d := by
  have hlenA : (sortSizes a).length = a.length := List.length_insertionSort _ a
  have hlenB : (sortSizes b).length = b.length := List.length_insertionSort _ b
  obtain ⟨d, hd, hle, hattained⟩ := (walked_start (sortSizes a) (sortSizes b)).exists_ksWalk
    (pairwise_sortSizes a) (pairwise_sortSizes b) (a.length + b.length) (by omega)
  rw [gap_sortSizes] at hle hattained
  refine ⟨d, EmpiricalCdf.isGreatest_gap ha hb (fun y hy => hle y ?_) hattained,
    fun fuel hfuel => ?_⟩
  · rw [List.mem_append, mem_sortSizes, mem_sortSizes]
    exact List.mem_append.mp hy
  · rw [ksStatistic, if_neg (not_or.mpr ⟨ha, hb⟩)]
    exact hd fuel hfuel

/-- Samples of one size have the same distribution. -/
theorem ksStatistic_replicate (x : α) (m n fuel : Nat) (hfuel : m + n < fuel) :
    ksStatistic fuel (List.replicate m x) (List.replicate n x) = some 0 := by
  by_cases hempty : List.replicate m x = [] ∨ List.replicate n x = []
  · rw [ksStatistic, if_pos hempty]
  · obtain ⟨hm, hn⟩ := not_or.mp hempty
    obtain ⟨d, ⟨⟨z, hz⟩, -⟩, hks⟩ := exists_ksStatistic hm hn
    have hpos : 0 < m ∧ 0 < n := by
      refine ⟨Nat.pos_of_ne_zero ?_, Nat.pos_of_ne_zero ?_⟩
      · rintro rfl
        exact hm rfl
      · rintro rfl
        exact hn rfl
    have hgap : gap (List.replicate m x) (List.replicate n x) z = 0 := by
      rw [gap, EmpiricalCdf.cdf_replicate hpos.1, EmpiricalCdf.cdf_replicate hpos.2, sub_self,
        abs_zero]
    rw [← hgap, hz]
    exact hks fuel (by rwa [List.length_replicate, List.length_replicate])

/-- **Kolmogorov-Smirnov.**  For any two samples that are not empty the walk ends, with the
    largest distance of their distribution functions at any point; and the self test
    computes the same value of the same sizes. -/
theorem ksStatistic_isGreatest (a b : List α) (ha : a ≠ []) (hb : b ≠ []) :
    (∃ d, IsGreatest (Set.range fun x => |cdf a x - cdf b x|) d ∧
      ∀ fuel, a.length + b.length < fuel → ksStatistic fuel a b = some d) ∧
    ∀ fuel (m n : List Nat),
      SelfTester.ksStatistic fuel m n = ksStatistic fuel (asSizes m) (asSizes n) := by
  refine ⟨exists_ksStatistic ha hb, fun fuel m n => ?_⟩
  simp only [SelfTester.ksStatistic, ksStatistic, asSizes, List.map_eq_nil_iff]

theorem ksStatistic_isGreatest_sample :
    (∃ d, IsGreatest (Set.range fun x : ℚ => |cdf [514, 514, 9] x - cdf [514, 600] x|) d ∧
      ∀ fuel, 3 + 2 < fuel → ksStatistic fuel [(514 : ℚ), 514, 9] [514, 600] = some d) ∧
    ∀ fuel (m n : List Nat),
      SelfTester.ksStatistic fuel m n = ksStatistic fuel (asSizes m) (asSizes n) :=
  ksStatistic_isGreatest ([514, 514, 9] : List ℚ) [514, 600] (List.cons_ne_nil _ _)
    (List.cons_ne_nil _ _)

example : SelfTester.ksStatistic 6 [514, 514, 9] [514, 600] = some (1 / 2) := by decide +kernel

-- ============================================================================
-- The best threshold
-- ============================================================================

/-- `Vec::dedup`: of entries that repeat each other, one is kept. -/
def dedupSizes : List α → List α
  | [] => []
  | [x] => [x]
  | x :: y :: rest => if x = y then dedupSizes (y :: rest) else x :: dedupSizes (y :: rest)

/-- The accuracy of "real if size <= t, else dummy", balanced between the two labels. -/
def thresholdAccuracy (real dummy : List α) (t : α) : ℚ :=
  let realCorrect : ℚ := (real.countP fun x => decide (x ≤ t) : ℕ) / (real.length : ℕ)
  let dummyCorrect : ℚ := (dummy.countP fun x => decide (t < x) : ℕ) / (dummy.length : ℕ)
  1 / 2 * (realCorrect + dummyCorrect)

/-- `best_threshold_accuracy`. -/
def bestThresholdAccuracy (real dummy : List α) : ℚ :=
  (dedupSizes (sortSizes (real ++ dummy))).foldl (fun best t =>
    max (max best (thresholdAccuracy real dummy t)) (1 - thresholdAccuracy real dummy t)) (1 / 2)

/-- The balanced accuracy of a threshold in one orientation: what is at or below it is
    taken for real, or for dummy. -/
def balancedAccuracy (real dummy : List α) (lowIsReal : Bool) (t : α) : ℚ :=
  if lowIsReal then
    ((real.countP fun x => decide (x ≤ t) : ℕ) / (real.length : ℕ)
      + (dummy.countP fun x => decide (t < x) : ℕ) / (dummy.length : ℕ)) / 2
  else
    ((real.countP fun x => decide (t < x) : ℕ) / (real.length : ℕ)
      + (dummy.countP fun x => decide (x ≤ t) : ℕ) / (dummy.length : ℕ)) / 2

variable {real dummy : List α}

theorem mem_dedupSizes {x : α} {xs : List α} : x ∈ dedupSizes xs ↔ x ∈ xs := by
  fun_induction dedupSizes xs with
  | case1 => rfl
  | case2 => rfl
  | case3 y rest ih =>
      rw [ih]
      simp
  | case4 x y rest hne ih => rw [List.mem_cons, ih, List.mem_cons (l := y :: rest)]

/-- The share above a point is what the distribution function leaves. -/
theorem share_above {xs : List α} (hne : xs ≠ []) (t : α) :
    ((xs.countP fun x => decide (t < x) : ℕ) : ℚ) / (xs.length : ℕ) = 1 - cdf xs t := by
  have hlen : ((xs.length : ℕ) : ℚ) ≠ 0 := Nat.cast_ne_zero.mpr (mt List.length_eq_zero_iff.mp hne)
  have hcount : xs.length = xs.countP (fun x => decide (x ≤ t))
      + xs.countP fun x => decide (t < x) := by
    rw [List.length_eq_countP_add_countP (fun x => decide (x ≤ t))]
    congr 2
    funext x
    simp
  rw [cdf, eq_sub_iff_add_eq, ← add_div, div_eq_one_iff_eq hlen, ← Nat.cast_add,
    Nat.add_comm, ← hcount]

theorem thresholdAccuracy_eq (hd : dummy ≠ []) (t : α) :
    thresholdAccuracy real dummy t = 1 / 2 + (cdf real t - cdf dummy t) / 2 := by
  have hreal : ((real.countP fun x => decide (x ≤ t) : ℕ) : ℚ) / (real.length : ℕ) = cdf real t :=
    rfl
  simp only [thresholdAccuracy, share_above hd, hreal]
  ring

/-- The better of the two orientations. -/
theorem max_thresholdAccuracy (real : List α) (hd : dummy ≠ []) (t : α) :
    max (thresholdAccuracy real dummy t) (1 - thresholdAccuracy real dummy t)
      = 1 / 2 + gap real dummy t / 2 := by
  rw [thresholdAccuracy_eq hd, gap]
  rcases le_total 0 (cdf real t - cdf dummy t) with h | h
  · rw [abs_of_nonneg h]
    exact max_eq_left (by linarith)
  · rw [abs_of_nonpos h, max_eq_right (by linarith)]
    ring

theorem balancedAccuracy_eq (hr : real ≠ []) (hd : dummy ≠ []) (lowIsReal : Bool) (t : α) :
    balancedAccuracy real dummy lowIsReal t =
      if lowIsReal then thresholdAccuracy real dummy t else 1 - thresholdAccuracy real dummy t := by
  have hreal : ((real.countP fun x => decide (x ≤ t) : ℕ) : ℚ) / (real.length : ℕ) = cdf real t :=
    rfl
  have hdummy : ((dummy.countP fun x => decide (x ≤ t) : ℕ) : ℚ) / (dummy.length : ℕ)
      = cdf dummy t := rfl
  simp only [balancedAccuracy, thresholdAccuracy_eq hd, share_above hr, share_above hd, hreal,
    hdummy]
  split <;> ring

/-- The sweep is a running maximum over the candidates. -/
theorem bestThresholdAccuracy_eq (hd : dummy ≠ []) :
    bestThresholdAccuracy real dummy = RunningMax.best id (1 / 2)
      ((dedupSizes (sortSizes (real ++ dummy))).map fun t => 1 / 2 + gap real dummy t / 2) := by
  rw [bestThresholdAccuracy, RunningMax.best, List.foldl_map]
  congr 1
  funext best t
  rw [RunningMax.update_id, ← max_thresholdAccuracy real hd, max_assoc]

/-- The sweep misses nothing: the largest gap is at an entry, or there is none. -/
theorem bestThresholdAccuracy_eq_half (hd : dummy ≠ []) {d : ℚ}
    (h : IsGreatest (Set.range (gap real dummy)) d) :
    bestThresholdAccuracy real dummy = 1 / 2 + d / 2 := by
  obtain ⟨⟨x, hx⟩, hle⟩ := h
  have hgap : ∀ t, gap real dummy t ≤ d := fun t => hle ⟨t, rfl⟩
  rw [bestThresholdAccuracy_eq hd]
  apply le_antisymm
  · rcases RunningMax.best_eq_or_mem id (1 / 2)
      ((dedupSizes (sortSizes (real ++ dummy))).map fun t => 1 / 2 + gap real dummy t / 2)
      with h | h
    · have := (EmpiricalCdf.gap_nonneg real dummy x).trans_eq hx
      rw [h]
      linarith
    · obtain ⟨t, -, ht⟩ := List.mem_map.mp h
      have := hgap t
      rw [← ht]
      linarith
  · rcases EmpiricalCdf.gap_eq_zero_or_entry real dummy x with hzero | ⟨y, hy, heq⟩
    · have hd0 : d = 0 := hx.symm.trans hzero
      rw [hd0, zero_div, add_zero]
      exact RunningMax.init_le_best id _ _
    · have hmem : y ∈ dedupSizes (sortSizes (real ++ dummy)) := by
        rw [mem_dedupSizes, mem_sortSizes]
        exact hy
      have hdy : d = gap real dummy y := hx.symm.trans heq
      rw [hdy]
      exact RunningMax.le_best id _ (List.mem_map_of_mem hmem)

/-- No threshold is better than half the largest gap allows, and the threshold at that gap
    reaches it in one orientation. -/
theorem isGreatest_balancedAccuracy (hr : real ≠ []) (hd : dummy ≠ []) {d : ℚ}
    (h : IsGreatest (Set.range (gap real dummy)) d) :
    IsGreatest (Set.range fun c : Bool × α => balancedAccuracy real dummy c.1 c.2)
      (1 / 2 + d / 2) := by
  obtain ⟨⟨x, hx⟩, hle⟩ := h
  constructor
  · have hmax := max_thresholdAccuracy real hd x
    rw [hx] at hmax
    rcases max_choice (thresholdAccuracy real dummy x) (1 - thresholdAccuracy real dummy x)
      with h | h
    · refine ⟨(true, x), ?_⟩
      show balancedAccuracy real dummy true x = _
      rw [balancedAccuracy_eq hr hd, if_pos rfl, ← hmax, h]
    · refine ⟨(false, x), ?_⟩
      show balancedAccuracy real dummy false x = _
      rw [balancedAccuracy_eq hr hd, if_neg Bool.false_ne_true, ← hmax, h]
  · rintro _ ⟨⟨lowIsReal, t⟩, rfl⟩
    have hgap : gap real dummy t ≤ d := hle ⟨t, rfl⟩
    have hmax := max_thresholdAccuracy real hd t
    have hle : balancedAccuracy real dummy lowIsReal t
        ≤ max (thresholdAccuracy real dummy t) (1 - thresholdAccuracy real dummy t) := by
      rw [balancedAccuracy_eq hr hd]
      split
      · exact le_max_left _ _
      · exact le_max_right _ _
    show balancedAccuracy real dummy lowIsReal t ≤ _
    linarith

/-- **Two figures of one attack.**  The best balanced accuracy, over all thresholds in both
    orientations, is what the sweep over the candidates finds, and it is one half and
    half the Kolmogorov-Smirnov statistic. -/
theorem bestThresholdAccuracy_isGreatest (real dummy : List α) (hr : real ≠ [])
    (hd : dummy ≠ []) :
    (∃ d, (∀ fuel, real.length + dummy.length < fuel → ksStatistic fuel real dummy = some d) ∧
      bestThresholdAccuracy real dummy = 1 / 2 + d / 2) ∧
    IsGreatest (Set.range fun c : Bool × α => balancedAccuracy real dummy c.1 c.2)
      (bestThresholdAccuracy real dummy) := by
  obtain ⟨d, hgreatest, hks⟩ := exists_ksStatistic hr hd
  have hbest := bestThresholdAccuracy_eq_half hd hgreatest
  exact ⟨⟨d, hks, hbest⟩, hbest ▸ isGreatest_balancedAccuracy hr hd hgreatest⟩

theorem bestThresholdAccuracy_isGreatest_sample :
    (∃ d, (∀ fuel, 3 + 2 < fuel → ksStatistic fuel [(514 : ℚ), 514, 9] [514, 600] = some d) ∧
      bestThresholdAccuracy [(514 : ℚ), 514, 9] [514, 600] = 1 / 2 + d / 2) ∧
    IsGreatest (Set.range fun c : Bool × ℚ => balancedAccuracy [514, 514, 9] [514, 600] c.1 c.2)
      (bestThresholdAccuracy [(514 : ℚ), 514, 9] [514, 600]) :=
  bestThresholdAccuracy_isGreatest [514, 514, 9] [514, 600] (List.cons_ne_nil _ _)
    (List.cons_ne_nil _ _)

end MixTor
