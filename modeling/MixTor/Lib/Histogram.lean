/-
  MixTor.Lib.Histogram

  Weights put into numbered bins, one after the other.

  In the end a bin holds what its own weights make of its start, in their order; a
  weight without a bin fails the whole.  Weights that come at an even pace fill every
  bin alike.
-/

import Mathlib.Algebra.Order.Group.Nat
import Mathlib.Data.List.Basic

namespace Histogram

variable {β ω : Type*}

/-- Put one weight into its bin. -/
def put (f : β → ω → β) (bins : List β) (w : Nat × ω) : Option (List β) :=
  bins[w.1]?.map fun x => bins.set w.1 (f x w.2)

/-- Put all weights into their bins. -/
def fill (f : β → ω → β) (bins : List β) (ws : List (Nat × ω)) : Option (List β) :=
  ws.foldlM (put f) bins

/-- The weights of bin `j`. -/
def weights (j : Nat) (ws : List (Nat × ω)) : List ω := (ws.filter fun w => w.1 = j).map Prod.snd

variable {f : β → ω → β} {bins bins' : List β} {ws ws' : List (Nat × ω)} {w : Nat × ω} {j : Nat}

-- ============================================================================
-- What the bins hold
-- ============================================================================

theorem weights_cons (w : Nat × ω) (ws : List (Nat × ω)) (j : Nat) :
    weights j (w :: ws) = if w.1 = j then w.2 :: weights j ws else weights j ws := by
  unfold weights
  rw [List.filter_cons]
  simp only [decide_eq_true_eq]
  split <;> rfl

theorem weights_perm (h : ws.Perm ws') : (weights j ws).Perm (weights j ws') :=
  (h.filter _).map _

theorem put_of_lt (h : w.1 < bins.length) :
    put f bins w = some (bins.set w.1 (f bins[w.1] w.2)) := by
  rw [put, List.getElem?_eq_getElem h]
  rfl

theorem put_of_le (h : bins.length ≤ w.1) : put f bins w = none := by
  rw [put, List.getElem?_eq_none h]
  rfl

/-- A weight changes its own bin and no other. -/
theorem mapIdx_set (h : w.1 < bins.length) :
    (bins.set w.1 (f bins[w.1] w.2)).mapIdx (fun j x => (weights j ws).foldl f x)
      = bins.mapIdx fun j x => (weights j (w :: ws)).foldl f x := by
  refine List.ext_getElem (by simp) fun j hj hj' => ?_
  rw [List.getElem_mapIdx, List.getElem_mapIdx, List.getElem_set, weights_cons]
  split
  · next heq =>
    subst heq
    rfl
  · rfl

/-- **What the bins hold.**  Every bin folds its own weights, if all weights have a
    bin; by induction on the weights. -/
theorem fill_eq (f : β → ω → β) (bins : List β) (ws : List (Nat × ω)) :
    fill f bins ws = if ∀ w ∈ ws, w.1 < bins.length then
      some (bins.mapIdx fun j x => (weights j ws).foldl f x) else none := by
  induction ws generalizing bins with
  | nil =>
      rw [if_pos fun w h => absurd h List.not_mem_nil]
      refine congrArg some (List.ext_getElem (by simp) fun j hj hj' => ?_)
      rw [List.getElem_mapIdx]
      rfl
  | cons w ws ih =>
      rw [fill, List.foldlM_cons]
      by_cases hw : w.1 < bins.length
      · have hrest := ih (bins.set w.1 (f bins[w.1] w.2))
        rw [List.length_set, mapIdx_set hw] at hrest
        rw [put_of_lt hw]
        simp only [List.forall_mem_cons, hw, true_and]
        exact hrest
      · rw [put_of_le (not_lt.mp hw), if_neg fun h => hw (h w List.mem_cons_self)]
        rfl

theorem fill_of_forall (h : ∀ w ∈ ws, w.1 < bins.length) :
    fill f bins ws = some (bins.mapIdx fun j x => (weights j ws).foldl f x) := by
  rw [fill_eq, if_pos h]

/-- Bins that start alike. -/
theorem fill_replicate {n : Nat} {x : β} (h : ∀ w ∈ ws, w.1 < n) :
    fill f (List.replicate n x) ws
      = some ((List.range n).map fun j => (weights j ws).foldl f x) := by
  rw [fill_of_forall (by simpa using h)]
  refine congrArg some (List.ext_getElem (by simp) fun j hj hj' => ?_)
  rw [List.getElem_mapIdx, List.getElem_replicate, List.getElem_map, List.getElem_range]

-- ============================================================================
-- Weights moved to other bins
-- ============================================================================

/-- Weights moved by `k` bins. -/
def shift (k : Nat) (ws : List (Nat × ω)) : List (Nat × ω) := ws.map fun w => (w.1 + k, w.2)

theorem weights_shift (k : Nat) (ws : List (Nat × ω)) (j : Nat) :
    weights (j + k) (shift k ws) = weights j ws := by
  induction ws with
  | nil => rfl
  | cons w ws ih =>
      rw [shift, List.map_cons, weights_cons, weights_cons, ← shift, ih]
      simp only [Nat.add_right_cancel_iff]

-- ============================================================================
-- An even pace
-- ============================================================================

/-- Of `q` times `k` weights, `k` a bin, each bin below `q` has `k`. -/
theorem countP_even {k q : Nat} (hk : 0 < k) (h : j < q) :
    (List.range (q * k)).countP (fun i => i / k = j) = k := by
  have hblock : ∀ q, (List.range (q * k)).countP (fun i => i / k = j)
      = if j < q then k else 0 := by
    intro q
    induction q with
    | zero => rw [Nat.zero_mul, if_neg (Nat.not_lt_zero j)]; rfl
    | succ q ih =>
        have hin : ∀ i ∈ List.range k, ((q * k + i) / k = j ↔ q = j) := by
          intro i hi
          rw [Nat.mul_comm, Nat.mul_add_div hk, Nat.div_eq_of_lt (List.mem_range.mp hi),
            Nat.add_zero]
        rw [Nat.succ_mul, List.range_add, List.countP_append, ih, List.countP_map]
        have hlast : (List.range k).countP ((fun i => decide (i / k = j)) ∘ (q * k + ·))
            = if q = j then k else 0 := by
          rw [List.countP_congr (q := fun _ => decide (q = j)) fun i hi => by
            simpa using hin i hi]
          split
          · next hq => rw [decide_eq_true hq, List.countP_true, List.length_range]
          · next hq =>
            rw [decide_eq_false hq, List.countP_false]
            rfl
        rw [hlast]
        split <;> split <;> split <;> omega
  rw [hblock, if_pos h]

/-- Equal weights at an even pace. -/
theorem weights_even {k q : Nat} (hk : 0 < k) (h : j < q) (w : ω) :
    weights j ((List.range (q * k)).map fun i => (i / k, w)) = List.replicate k w := by
  rw [weights, List.filter_map, List.map_map, List.eq_replicate_iff]
  refine ⟨?_, fun x hx => ?_⟩
  · rw [List.length_map, ← List.countP_eq_length_filter]
    exact countP_even hk h
  · obtain ⟨i, -, rfl⟩ := List.mem_map.mp hx
    rfl

end Histogram
