/-
  MixTor.Lib.Interleaved

  Lists that carry a sequence of items in its order, among fillers.

  `Interleaved real filler items n out` says that `out` consists of one element for
  each item, in the order of the items, and of `n` fillers at any positions.  It says
  nothing of where the fillers stand, so it holds for every way of placing them.
-/

import Mathlib.Data.List.Forall2

/-- `out` is `items`, each mapped by `real`, in order, and `n` elements of `filler`. -/
inductive Interleaved {α γ : Type*} (real : α → γ → Prop) (filler : γ → Prop) :
    List α → Nat → List γ → Prop
  | nil : Interleaved real filler [] 0 []
  | item {a : α} {z : γ} {items : List α} {n : Nat} {out : List γ} (ha : real a z)
      (h : Interleaved real filler items n out) : Interleaved real filler (a :: items) n (z :: out)
  | filler {z : γ} {items : List α} {n : Nat} {out : List γ} (hz : filler z)
      (h : Interleaved real filler items n out) : Interleaved real filler items (n + 1) (z :: out)

namespace Interleaved

variable {α β γ : Type*} {real : α → γ → Prop} {filler : γ → Prop} {items items' : List α}
  {m n : Nat} {out out' : List γ}

/-- Fillers alone. -/
theorem of_forall (h : ∀ z ∈ out, filler z) : Interleaved real filler [] out.length out := by
  induction out with
  | nil => exact .nil
  | cons z out ih =>
      obtain ⟨hz, hout⟩ := List.forall_mem_cons.mp h
      exact .filler hz (ih hout)

theorem append (h : Interleaved real filler items m out)
    (h' : Interleaved real filler items' n out') :
    Interleaved real filler (items ++ items') (m + n) (out ++ out') := by
  induction h with
  | nil =>
      rw [Nat.zero_add]
      exact h'
  | item ha _ ih => exact .item ha ih
  | filler hz _ ih =>
      rw [Nat.succ_add]
      exact .filler hz ih

/-- Fillers in front. -/
theorem append_left (hout : ∀ z ∈ out', filler z) (h : Interleaved real filler items n out) :
    Interleaved real filler items (out'.length + n) (out' ++ out) :=
  (of_forall hout).append h

theorem length_eq (h : Interleaved real filler items n out) : out.length = items.length + n := by
  induction h with
  | nil => rfl
  | item _ _ ih =>
      rw [List.length_cons, List.length_cons, ih]
      omega
  | filler _ _ ih =>
      rw [List.length_cons, ih]
      omega

/-- What holds of the items and of the fillers holds of every element. -/
theorem forall_mem {P : γ → Prop} (h : Interleaved real filler items n out)
    (hreal : ∀ a z, real a z → P z) (hfiller : ∀ z, filler z → P z) : ∀ z ∈ out, P z := by
  induction h with
  | nil => exact List.forall_mem_nil _
  | item ha _ ih => exact List.forall_mem_cons.mpr ⟨hreal _ _ ha, ih⟩
  | filler hz _ ih => exact List.forall_mem_cons.mpr ⟨hfiller _ hz, ih⟩

/-- A projection that drops the fillers gives back the items in their order. -/
theorem forall₂_filterMap {R : α → β → Prop} {f : γ → Option β}
    (h : Interleaved real filler items n out)
    (hreal : ∀ a z, real a z → ∃ b, f z = some b ∧ R a b) (hfiller : ∀ z, filler z → f z = none) :
    List.Forall₂ R items (out.filterMap f) := by
  induction h with
  | nil => exact .nil
  | item ha _ ih =>
      obtain ⟨b, hb, hR⟩ := hreal _ _ ha
      rw [List.filterMap_cons_some hb]
      exact .cons hR ih
  | filler hz _ ih =>
      rw [List.filterMap_cons_none (hfiller _ hz)]
      exact ih

/-- A test that tells the fillers counts them. -/
theorem length_filter {p : γ → Bool} (h : Interleaved real filler items n out)
    (hreal : ∀ a z, real a z → p z = false) (hfiller : ∀ z, filler z → p z = true) :
    (out.filter p).length = n := by
  induction h with
  | nil => rfl
  | item ha _ ih =>
      rw [List.filter_cons_of_neg (by simp [hreal _ _ ha])]
      exact ih
  | filler hz _ ih =>
      rw [List.filter_cons_of_pos (hfiller _ hz), List.length_cons, ih]

end Interleaved
