/-
  MixTor.Lib.Grid

  The multiples of a period, and the first one after a point.

  `next p x` is the least multiple of `p` above `x`.  Everything that lies in one
  cell `[k * p, (k + 1) * p)` of the grid has the same one, which is what aligning
  to a grid is for.
-/

import Mathlib.Order.Monotone.Basic

namespace Grid

/-- The first multiple of `p` after `x`. -/
def next (p x : Nat) : Nat := (x / p + 1) * p

variable {p x y k : Nat}

/-- The next multiple lies strictly ahead. -/
theorem lt_next (hp : 0 < p) (x : Nat) : x < next p x := by
  rw [next, Nat.succ_mul]
  exact Nat.lt_div_mul_add hp

/-- It is at most one period away. -/
theorem next_le_add (p x : Nat) : next p x ≤ x + p := by
  rw [next, Nat.succ_mul]
  exact Nat.add_le_add_right (Nat.div_mul_le_self x p) p

/-- No multiple of the period lies in between. -/
theorem next_le_mul (hp : 0 < p) (h : x < k * p) : next p x ≤ k * p :=
  Nat.mul_le_mul_right p ((Nat.div_lt_iff_lt_mul hp).mpr h)

theorem next_mono (hp : 0 < p) : Monotone (next p) := fun _ _ h =>
  next_le_mul hp (h.trans_lt (lt_next hp _))

/-- The points of one cell share their next multiple. -/
theorem next_of_mem_cell (hlo : k * p ≤ x) (hhi : x < (k + 1) * p) : next p x = (k + 1) * p := by
  rw [next, Nat.div_eq_of_lt_le hlo hhi]

theorem next_eq_of_mem_cell (hxlo : k * p ≤ x) (hxhi : x < (k + 1) * p) (hylo : k * p ≤ y)
    (hyhi : y < (k + 1) * p) : next p x = next p y := by
  rw [next_of_mem_cell hxlo hxhi, next_of_mem_cell hylo hyhi]

/-- **Truncated multiples.**  The next multiple, kept modulo `m`, stays ahead of every point
    up to `t` exactly when it is not truncated there, or, for a period beyond `m`, when
    what is left of the period is ahead of `t`. -/
theorem lt_next_mod_iff {m t : Nat} (hp : 0 < p) (hm : 0 < m) :
    (∀ x ≤ t, x < next p x % m) ↔ (p < m → next p t < m) ∧ (m ≤ p → t < p % m) := by
  constructor
  · intro h
    refine ⟨fun hpm => ?_, fun hmp => ?_⟩
    · by_contra hover
      -- the last multiple below `m` is truncated to something not ahead of it
      have hcell : (m - 1) / p * p ≤ m - 1 := Nat.div_mul_le_self _ _
      have hnext : m ≤ ((m - 1) / p + 1) * p := by
        have := lt_next hp (m - 1)
        rw [next] at this
        omega
      have hle : (m - 1) / p * p ≤ t := by
        by_contra hgt
        exact hover ((next_le_mul hp (not_le.mp hgt)).trans_lt (by omega))
      have hlt := h _ hle
      rw [next, Nat.mul_div_cancel _ hp, Nat.mod_eq_sub_mod hnext] at hlt
      have hsmall : ((m - 1) / p + 1) * p - m ≤ (m - 1) / p * p := by
        rw [Nat.succ_mul]
        omega
      exact absurd (hlt.trans_le (Nat.mod_le _ _)) (not_lt.mpr hsmall)
    · by_contra hover
      have hlt := h (p % m) (not_lt.mp hover)
      rw [next, Nat.div_eq_of_lt ((Nat.mod_lt _ hm).trans_le hmp), Nat.zero_add, Nat.one_mul] at hlt
      exact Nat.lt_irrefl _ hlt
  · rintro ⟨hsmall, hlarge⟩ x hx
    rcases Nat.lt_or_ge p m with hpm | hmp
    · rw [Nat.mod_eq_of_lt ((next_mono hp hx).trans_lt (hsmall hpm))]
      exact lt_next hp x
    · have hxm : x < p % m := hx.trans_lt (hlarge hmp)
      rw [next, Nat.div_eq_of_lt (hxm.trans ((Nat.mod_lt _ hm).trans_le hmp)), Nat.zero_add,
        Nat.one_mul]
      exact hxm

/-- However small the period: beyond `m` the truncated multiple has fallen behind. -/
theorem next_mod_le {m : Nat} (hm : 0 < m) (p : Nat) : next p m % m ≤ m := (Nat.mod_lt _ hm).le

end Grid
