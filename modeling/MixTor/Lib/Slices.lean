/-
  MixTor.Lib.Slices

  Slices of vectors with the bounds checks of the language, the chunks of a vector,
  and loops over one whose body is checked.  `none` is an index or a range outside
  the vector.
-/

import Mathlib.Data.List.Basic

namespace Slices

variable {α : Type*}

/-- `&xs[lo..hi]`. -/
def slice (xs : List α) (lo hi : Nat) : Option (List α) :=
  if lo ≤ hi ∧ hi ≤ xs.length then some ((xs.take hi).drop lo) else none

theorem slice_of_le {xs : List α} {lo hi : Nat} (hlo : lo ≤ hi) (hhi : hi ≤ xs.length) :
    slice xs lo hi = some ((xs.take hi).drop lo) := if_pos ⟨hlo, hhi⟩

/-- `xs.chunks(n)`: parts of `n` entries, the last one with what is left.  There are
    no chunks of zero entries. -/
def chunks (n : Nat) (xs : List α) : List (List α) :=
  if _h : 0 < n ∧ xs ≠ [] then xs.take n :: chunks n (xs.drop n) else []
termination_by xs.length
decreasing_by
  have := List.length_pos_iff.mpr _h.2
  rw [List.length_drop]
  omega

@[simp] theorem chunks_nil (n : Nat) : chunks n ([] : List α) = [] := by
  rw [chunks, dif_neg fun h => h.2 rfl]

/-- The chunks in order are the vector. -/
theorem flatten_chunks {n : Nat} (hn : 0 < n) (xs : List α) : (chunks n xs).flatten = xs := by
  fun_induction chunks n xs with
  | case1 xs h ih => rw [List.flatten_cons, ih, List.take_append_drop]
  | case2 xs h =>
      have : xs = [] := by
        by_contra hne
        exact h ⟨hn, hne⟩
      rw [this, List.flatten_nil]

/-- No chunk is empty or longer than `n`. -/
theorem length_of_mem_chunks {n : Nat} {xs c : List α} (h : c ∈ chunks n xs) :
    0 < c.length ∧ c.length ≤ n := by
  fun_induction chunks n xs with
  | case1 xs hxs ih =>
      rcases List.mem_cons.mp h with rfl | hrest
      · have hpos := List.length_pos_iff.mpr hxs.2
        rw [List.length_take]
        omega
      · exact ih hrest
  | case2 xs hxs => cases h

/-- A function defined on every element maps the list. -/
theorem exists_mapM {α β : Type} {f : α → Option β} {P : β → Prop} {l : List α}
    (h : ∀ a ∈ l, ∃ b, f a = some b ∧ P b) :
    ∃ bs, l.mapM f = some bs ∧ bs.length = l.length ∧ ∀ b ∈ bs, P b := by
  induction l with
  | nil => exact ⟨[], rfl, rfl, List.forall_mem_nil _⟩
  | cons a l ih =>
      obtain ⟨b, hb, hPb⟩ := h a List.mem_cons_self
      obtain ⟨bs, hbs, hlen, hP⟩ := ih fun a' ha' => h a' (List.mem_cons_of_mem _ ha')
      refine ⟨b :: bs, ?_, congrArg (· + 1) hlen, List.forall_mem_cons.mpr ⟨hPb, hP⟩⟩
      rw [List.mapM_cons, hb, hbs]
      rfl

end Slices
