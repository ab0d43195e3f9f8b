/-
  MixTor.Lib.RunningMax

  Loops that keep the best entry so far.

  An entry replaces the best one if its key is strictly larger.  What is left in the
  end has the largest key of all, whichever entries came first.
-/

import Mathlib.Data.List.Basic
import Mathlib.Order.MinMax

namespace RunningMax

variable {β κ : Type*} [LinearOrder κ] (key : β → κ)

/-- Keep the better of two entries, the old one if they are equal. -/
def update (best x : β) : β := if key best < key x then x else best

/-- The best entry after a loop over `xs`. -/
def best (init : β) (xs : List β) : β := xs.foldl (update key) init

variable {key} {init x : β} {xs : List β}

theorem le_update_left (m x : β) : key m ≤ key (update key m x) := by
  unfold update
  split
  · next h => exact h.le
  · exact le_rfl

theorem le_update_right (m x : β) : key x ≤ key (update key m x) := by
  unfold update
  split
  · exact le_rfl
  · next h => exact not_lt.mp h

theorem init_le_best (key : β → κ) (init : β) (xs : List β) : key init ≤ key (best key init xs) := by
  induction xs generalizing init with
  | nil => exact le_rfl
  | cons x xs ih => exact (le_update_left init x).trans (ih (update key init x))

theorem le_best (key : β → κ) (init : β) (hx : x ∈ xs) : key x ≤ key (best key init xs) := by
  induction xs generalizing init with
  | nil => cases hx
  | cons y xs ih =>
      rcases List.mem_cons.mp hx with rfl | hin
      · exact (le_update_right init x).trans (init_le_best key _ xs)
      · exact ih _ hin

/-- The best entry is the first one or one of the loop. -/
theorem best_eq_or_mem (key : β → κ) (init : β) (xs : List β) :
    best key init xs = init ∨ best key init xs ∈ xs := by
  induction xs generalizing init with
  | nil => exact .inl rfl
  | cons x xs ih =>
      rcases ih (update key init x) with h | h
      · rw [show best key init (x :: xs) = update key init x from h, update]
        split
        · exact .inr List.mem_cons_self
        · exact .inl rfl
      · exact .inr (List.mem_cons_of_mem x h)

section Fails

variable {γ : Type*} {f : γ → Option β} {ids : List γ}

/-- A loop whose body can fail goes through exactly if the body does for every entry. -/
theorem foldlM_isSome :
    (ids.foldlM (fun m id => (f id).map (update key m)) init).isSome
      ↔ ∀ id ∈ ids, (f id).isSome := by
  induction ids generalizing init with
  | nil => exact ⟨fun _ id h => absurd h List.not_mem_nil, fun _ => rfl⟩
  | cons id ids ih =>
      rw [List.foldlM_cons, List.forall_mem_cons]
      cases h : f id with
      | none => exact ⟨nofun, fun hall => absurd hall.1 Bool.false_ne_true⟩
      | some x => exact ih.trans ⟨fun hall => ⟨rfl, hall⟩, And.right⟩

/-- It is then the loop over what the body gives. -/
theorem foldlM_eq_best {g : γ → β} (h : ∀ id ∈ ids, f id = some (g id)) :
    ids.foldlM (fun m id => (f id).map (update key m)) init
      = some (best key init (ids.map g)) := by
  induction ids generalizing init with
  | nil => rfl
  | cons id ids ih =>
      obtain ⟨hid, hrest⟩ := List.forall_mem_cons.mp h
      rw [List.foldlM_cons, hid]
      exact ih hrest

end Fails

/-- For numbers, the loop takes maxima. -/
theorem update_id (m x : κ) : update id m x = max m x := by
  unfold update
  split
  · next h => exact (max_eq_right (le_of_lt h)).symm
  · next h => exact (max_eq_left (not_lt.mp h)).symm

end RunningMax
