/-
  MixTor.Lib.Ranges

  Tables of ranges in ascending order, without overlap.

  A table is a list whose entries have a lower and an upper bound.  In an ascending
  table a point lies in at most one range, and the first range that ends at or
  behind the point is the one it lies in.
-/

import Mathlib.Data.List.Basic
import Mathlib.Data.List.Nodup
import Mathlib.Order.Lattice

namespace Ranges

variable {α β : Type*} [LinearOrder α] (lo hi : β → α)

/-- The point lies in the range of `b`. -/
def Holds (x : α) (b : β) : Prop := lo b ≤ x ∧ x ≤ hi b

instance (x : α) (b : β) : Decidable (Holds lo hi x b) :=
  inferInstanceAs (Decidable (_ ∧ _))

/-- The ranges are not empty, and each ends before the next begins. -/
structure Ascending (table : List β) : Prop where
  le : ∀ b ∈ table, lo b ≤ hi b
  lt : table.Pairwise fun b b' => hi b < lo b'

variable {lo hi} {table : List β} {b : β} {x : α}

theorem Ascending.tail (h : Ascending lo hi (b :: table)) : Ascending lo hi table where
  le b' hb' := h.le b' (List.mem_cons_of_mem b hb')
  lt := (List.pairwise_cons.mp h.lt).2

/-- A point lies in one range at most, so in exactly one if in any. -/
theorem Ascending.countP_eq_one (h : Ascending lo hi table) (hb : b ∈ table)
    (hx : Holds lo hi x b) : table.countP (fun b => decide (Holds lo hi x b)) = 1 := by
  induction table with
  | nil => cases hb
  | cons first rest ih =>
      have hbefore := (List.pairwise_cons.mp h.lt).1
      rcases List.mem_cons.mp hb with rfl | hrest
      · rw [List.countP_cons_of_pos (by simpa using hx), List.countP_eq_zero.mpr]
        intro later hlater hin
        exact absurd (hx.2.trans_lt (hbefore later hlater)) (of_decide_eq_true hin).1.not_gt
      · have hnot : ¬ Holds lo hi x first := fun hin =>
          absurd ((hbefore b hrest).trans_le hx.1) hin.2.not_gt
        rw [List.countP_cons_of_neg (by simpa using hnot)]
        exact ih h.tail hrest

/-- The first range that ends at or behind a point of the table is its own. -/
theorem Ascending.find?_eq_some (h : Ascending lo hi table) (hb : b ∈ table)
    (hx : Holds lo hi x b) : (table.find? fun b => decide (x ≤ hi b)) = some b := by
  induction table with
  | nil => cases hb
  | cons first rest ih =>
      rcases List.mem_cons.mp hb with rfl | hrest
      · exact List.find?_cons_of_pos (decide_eq_true hx.2)
      · have hbefore : hi first < x :=
          ((List.pairwise_cons.mp h.lt).1 b hrest).trans_le hx.1
        rw [List.find?_cons_of_neg (by simpa using hbefore)]
        exact ih h.tail hrest

/-- Ascending ranges begin at different points. -/
theorem Ascending.nodup_lo (h : Ascending lo hi table) : (table.map lo).Nodup := by
  induction table with
  | nil => exact List.nodup_nil
  | cons first rest ih =>
      refine List.nodup_cons.mpr ⟨?_, ih h.tail⟩
      rintro hin
      obtain ⟨later, hlater, heq⟩ := List.mem_map.mp hin
      have hlt := (List.pairwise_cons.mp h.lt).1 later hlater
      exact absurd heq (((h.le first List.mem_cons_self).trans_lt hlt).ne')

end Ranges
