/-
  MixTor.Lib.Ranking

  Fractional ranks: entries that are equal share the average of the positions they
  have when the list is sorted.

  The rank of a value is fixed by how many entries are below it and how many equal it,
  so it does not depend on the order of the list, and a strictly increasing map keeps
  it.  In a sorted list the entries equal to a value are a group without a gap, and
  the two counts are where the group begins and how long it is.
-/

import Mathlib.Algebra.Field.Rat
import Mathlib.Data.List.Basic
import Mathlib.Order.Monotone.Basic
import Mathlib.Order.Lattice
import Mathlib.Tactic.Ring

namespace Ranking

variable {α β : Type*} [LinearOrder α] [LinearOrder β]

/-- How many entries are below `x`. -/
def below (l : List α) (x : α) : Nat := l.countP fun y => decide (y < x)

/-- How many entries equal `x`. -/
def ties (l : List α) (x : α) : Nat := l.countP fun y => decide (y = x)

/-- The rank of `x`, counted from 0. -/
def fractional (l : List α) (x : α) : ℚ := (below l x : ℕ) + ((ties l x : ℕ) - 1) / 2

variable {l l' : List α} {x : α} {i j : Nat}

theorem below_perm (h : l.Perm l') : below l x = below l' x := h.countP_eq _

theorem ties_perm (h : l.Perm l') : ties l x = ties l' x := h.countP_eq _

theorem ties_pos (hx : x ∈ l) : 0 < ties l x :=
  List.countP_pos_iff.mpr ⟨x, hx, decide_eq_true rfl⟩

/-- Twice a rank is a whole number. -/
theorem half_eq_fractional (hx : x ∈ l) :
    ((2 * below l x + ties l x - 1 : ℕ) : ℚ) / 2 = fractional l x := by
  have hpos := ties_pos hx
  have hcast : ((2 * below l x + ties l x - 1 : ℕ) : ℚ)
      = 2 * (below l x : ℕ) + (ties l x : ℕ) - 1 := by
    rw [Nat.cast_sub (by omega)]
    push_cast
    ring
  rw [hcast, fractional]
  ring

/-- No rank is as large as the list is long. -/
theorem below_add_ties_le (l : List α) (x : α) : below l x + ties l x ≤ l.length := by
  have hsplit : l.countP (fun y => decide (y ≤ x)) = below l x + ties l x := by
    induction l with
    | nil => rfl
    | cons y l ih =>
        simp only [below, ties, List.countP_cons] at ih ⊢
        rcases lt_trichotomy y x with h | rfl | h
        · simp [h, h.le, h.ne]
          omega
        · simp
          omega
        · simp [h.not_gt, h.not_ge, h.ne']
          omega
  rw [← hsplit]
  exact List.countP_le_length

-- ============================================================================
-- Strictly increasing maps
-- ============================================================================

section Maps

variable {f : α → β}

theorem below_map (hf : StrictMonoOn f {y | y ∈ l}) (hx : x ∈ l) :
    below (l.map f) (f x) = below l x := by
  rw [below, List.countP_map]
  refine List.countP_congr fun y hy => ?_
  simp only [Function.comp_apply, decide_eq_true_eq]
  exact hf.lt_iff_lt hy hx

theorem ties_map (hf : StrictMonoOn f {y | y ∈ l}) (hx : x ∈ l) :
    ties (l.map f) (f x) = ties l x := by
  rw [ties, List.countP_map]
  refine List.countP_congr fun y hy => ?_
  simp only [Function.comp_apply, decide_eq_true_eq]
  exact hf.injOn.eq_iff hy hx

end Maps

-- ============================================================================
-- Groups of equal entries in a sorted list
-- ============================================================================

/-- The entries from `i` to `j` are those equal to `x`: smaller ones are in front of them, and
    larger ones behind them. -/
structure Group (l : List α) (x : α) (i j : Nat) : Prop where
  le : i ≤ j
  lt : j < l.length
  front : ∀ y ∈ l.take i, y < x
  tied : ∀ k, i ≤ k → k ≤ j → l[k]? = some x
  behind : ∀ y ∈ l.drop (j + 1), x < y

omit [LinearOrder α] in
theorem take_append_between (l : List α) (h : i ≤ j + 1) :
    l.take i ++ (l.take (j + 1)).drop i = l.take (j + 1) := by
  have hfront : l.take i = (l.take (j + 1)).take i := by rw [List.take_take, Nat.min_eq_left h]
  rw [hfront, List.take_append_drop]

omit [LinearOrder α] in
/-- A list is what is in front of two positions, between them and behind them. -/
theorem countP_split (l : List α) (p : α → Bool) (h : i ≤ j + 1) :
    l.countP p = (l.take i).countP p + ((l.take (j + 1)).drop i).countP p
      + (l.drop (j + 1)).countP p := by
  rw [← List.countP_append, take_append_between l h, ← List.countP_append, List.take_append_drop]

namespace Group

theorem eq_of_mem (h : Group l x i j) {y : α} (hy : y ∈ (l.take (j + 1)).drop i) : y = x := by
  obtain ⟨k, hk⟩ := List.mem_iff_getElem?.mp hy
  rw [List.getElem?_drop, List.getElem?_take] at hk
  split at hk
  · rw [h.tied (i + k) (by omega) (by omega)] at hk
    exact (Option.some.inj hk).symm
  · cases hk

theorem below_eq (h : Group l x i j) : below l x = i := by
  have hle := h.le
  have hlt := h.lt
  have hfront : (l.take i).countP (fun y => decide (y < x)) = i := by
    rw [List.countP_eq_length.mpr fun y hy => decide_eq_true (h.front y hy), List.length_take]
    omega
  have htied : ((l.take (j + 1)).drop i).countP (fun y => decide (y < x)) = 0 :=
    List.countP_eq_zero.mpr fun y hy => by simpa using (h.eq_of_mem hy).ge
  have hbehind : (l.drop (j + 1)).countP (fun y => decide (y < x)) = 0 :=
    List.countP_eq_zero.mpr fun y hy => by simpa using (h.behind y hy).le
  rw [below, countP_split l _ (Nat.le_succ_of_le hle), hfront, htied, hbehind, Nat.add_zero]

theorem ties_eq (h : Group l x i j) : ties l x = j + 1 - i := by
  have hle := h.le
  have hlt := h.lt
  have hfront : (l.take i).countP (fun y => decide (y = x)) = 0 :=
    List.countP_eq_zero.mpr fun y hy => by simpa using (h.front y hy).ne
  have htied : ((l.take (j + 1)).drop i).countP (fun y => decide (y = x)) = j + 1 - i := by
    rw [List.countP_eq_length.mpr fun y hy => decide_eq_true (h.eq_of_mem hy), List.length_drop,
      List.length_take]
    omega
  have hbehind : (l.drop (j + 1)).countP (fun y => decide (y = x)) = 0 :=
    List.countP_eq_zero.mpr fun y hy => by simpa using (h.behind y hy).ne'
  rw [ties, countP_split l _ (Nat.le_succ_of_le hle), hfront, htied, hbehind, Nat.zero_add,
    Nat.add_zero]

/-- **Average position.**  The two ends of a group add up to twice the rank of its value. -/
theorem ends_eq (h : Group l x i j) : i + j = 2 * below l x + ties l x - 1 := by
  have hle := h.le
  rw [h.below_eq, h.ties_eq]
  omega

/-- What is in front of the end of a group is smaller than what is behind it. -/
theorem cut (h : Group l x i j) : ∀ y ∈ l.take (j + 1), ∀ z ∈ l.drop (j + 1), y < z := by
  intro y hy z hz
  rw [← take_append_between l (Nat.le_succ_of_le h.le)] at hy
  rcases List.mem_append.mp hy with hin | hin
  · exact (h.front y hin).trans (h.behind z hz)
  · exact (h.eq_of_mem hin).trans_lt (h.behind z hz)

/-- In a sorted list equal entries are a group as soon as no smaller entry is behind their
    beginning, and the entry behind their end is another. -/
theorem of_sorted (hsorted : l.Pairwise (· ≤ ·)) (hle : i ≤ j)
    (hcut : ∀ y ∈ l.take i, ∀ z ∈ l.drop i, y < z)
    (htied : ∀ k, i ≤ k → k ≤ j → l[k]? = some x) (hnext : l[j + 1]? ≠ some x) :
    Group l x i j where
  le := hle
  lt := (List.getElem?_eq_some_iff.mp (htied j hle le_rfl)).1
  front y hy := by
    refine hcut y hy x (List.mem_iff_getElem?.mpr ⟨0, ?_⟩)
    rw [List.getElem?_drop, Nat.add_zero]
    exact htied i le_rfl hle
  tied := htied
  behind y hy := by
    obtain ⟨k, hk⟩ := List.mem_iff_getElem?.mp hy
    rw [List.getElem?_drop] at hk
    obtain ⟨hj, hjx⟩ := List.getElem?_eq_some_iff.mp (htied j hle le_rfl)
    obtain ⟨hjk, hy⟩ := List.getElem?_eq_some_iff.mp hk
    have hj1 : j + 1 < l.length := by omega
    have hsort := List.pairwise_iff_getElem.mp hsorted
    have hne : l[j + 1] ≠ x := fun heq => hnext (heq ▸ List.getElem?_eq_getElem hj1)
    have hlt : x < l[j + 1] := by
      have hxle := hsort j (j + 1) hj hj1 (Nat.lt_succ_self j)
      rw [hjx] at hxle
      exact lt_of_le_of_ne hxle hne.symm
    rcases Nat.eq_zero_or_pos k with rfl | hpos
    · exact hy ▸ hlt
    · exact hlt.trans_le (hy ▸ hsort (j + 1) (j + 1 + k) hj1 hjk (by omega))

end Group

end Ranking
