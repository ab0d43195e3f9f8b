/-
  MixTor.Lib.Tally

  Counting over the components of a system.

  `tally f xs` adds up what each component counts for.  A step that changes one
  component changes the tally by what that component counts for before and after.
-/

import Mathlib.Data.List.Basic

namespace Tally

variable {α β : Type*}

/-- What the components of a system count for together. -/
def tally (f : α → Nat) : List α → Nat
  | [] => 0
  | x :: xs => f x + tally f xs

variable {f g : α → Nat} {xs ys : List α}

@[simp] theorem tally_nil : tally f [] = 0 := rfl

@[simp] theorem tally_cons (x : α) : tally f (x :: xs) = f x + tally f xs := rfl

@[simp] theorem tally_append : tally f (xs ++ ys) = tally f xs + tally f ys := by
  induction xs with
  | nil => rw [List.nil_append, tally_nil, Nat.zero_add]
  | cons x xs ih => rw [List.cons_append, tally_cons, tally_cons, ih, Nat.add_assoc]

/-- A change of one component. -/
theorem tally_set {i : Nat} {x : α} (hx : xs[i]? = some x) (y : α) :
    tally f (xs.set i y) + f x = tally f xs + f y := by
  induction xs generalizing i with
  | nil => cases hx
  | cons z xs ih =>
      cases i with
      | zero =>
          obtain rfl := Option.some.inj hx
          rw [List.set_cons_zero, tally_cons, tally_cons]
          omega
      | succ i =>
          have hrest := ih (i := i) hx
          rw [List.set_cons_succ, tally_cons, tally_cons]
          omega

/-- What a component counts for is part of the tally. -/
theorem le_tally {i : Nat} {x : α} (hx : xs[i]? = some x) : f x ≤ tally f xs := by
  induction xs generalizing i with
  | nil => cases hx
  | cons z xs ih =>
      rw [tally_cons]
      cases i with
      | zero =>
          obtain rfl := Option.some.inj hx
          omega
      | succ i =>
          have hrest := ih (i := i) hx
          omega

/-- Where the tally is not zero, some component counts. -/
theorem exists_of_tally_pos (h : 0 < tally f xs) : ∃ (i : Nat) (x : α), xs[i]? = some x ∧ 0 < f x := by
  induction xs with
  | nil => cases h
  | cons z xs ih =>
      rcases Nat.eq_zero_or_pos (f z) with hz | hz
      · rw [tally_cons, hz, Nat.zero_add] at h
        obtain ⟨i, x, hx, hpos⟩ := ih h
        exact ⟨i + 1, x, hx, hpos⟩
      · exact ⟨0, z, rfl, hz⟩

theorem tally_mono (h : ∀ x ∈ xs, f x ≤ g x) : tally f xs ≤ tally g xs := by
  induction xs with
  | nil => exact Nat.le_refl 0
  | cons x xs ih =>
      rw [tally_cons, tally_cons]
      exact Nat.add_le_add (h x List.mem_cons_self)
        (ih fun y hy => h y (List.mem_cons_of_mem _ hy))

theorem tally_le_length (hone : ∀ x ∈ xs, f x ≤ 1) : tally f xs ≤ xs.length := by
  induction xs with
  | nil => exact Nat.le_refl 0
  | cons x xs ih =>
      have hfirst := hone x List.mem_cons_self
      have hrest := ih fun y hy => hone y (List.mem_cons_of_mem _ hy)
      rw [tally_cons, List.length_cons]
      omega

/-- Component by component no more than before, and `k` new components. -/
theorem tally_le_add {k : Nat} (hone : ∀ y ∈ ys, f y ≤ 1) (hlen : ys.length = xs.length + k)
    (h : ∀ (i : Nat) (x y : α), xs[i]? = some x → ys[i]? = some y → f y ≤ f x) :
    tally f ys ≤ tally f xs + k := by
  induction xs generalizing ys with
  | nil =>
      have hall := tally_le_length hone
      rw [tally_nil]
      rw [List.length_nil] at hlen
      omega
  | cons x xs ih =>
      cases ys with
      | nil => exact Nat.zero_le _
      | cons y ys =>
          have hfirst := h 0 x y rfl rfl
          have hlen' : ys.length = xs.length + k := by
            rw [List.length_cons, List.length_cons] at hlen
            omega
          have hrest := ih (fun z hz => hone z (List.mem_cons_of_mem _ hz)) hlen' fun i => h (i + 1)
          rw [tally_cons, tally_cons]
          omega

theorem tally_replicate (n : Nat) (x : α) : tally f (List.replicate n x) = n * f x := by
  induction n with
  | zero => rw [List.replicate_zero, tally_nil, Nat.zero_mul]
  | succ n ih => rw [List.replicate_succ, tally_cons, ih, Nat.succ_mul, Nat.add_comm]

/-- Two lists side by side: what the pairs count for, against the second list alone. -/
theorem tally_zip_le {f : α × β → Nat} {g : β → Nat} {xs : List α} {ys : List β}
    (h : ∀ p ∈ xs.zip ys, f p ≤ g p.2) : tally f (xs.zip ys) ≤ tally g ys := by
  induction xs generalizing ys with
  | nil => exact Nat.zero_le _
  | cons x xs ih =>
      cases ys with
      | nil => exact Nat.zero_le _
      | cons y ys =>
          rw [List.zip_cons_cons, tally_cons, tally_cons]
          rw [List.zip_cons_cons] at h
          exact Nat.add_le_add (h (x, y) List.mem_cons_self)
            (ih fun p hp => h p (List.mem_cons_of_mem _ hp))

end Tally
