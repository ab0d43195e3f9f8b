/-
  MixTor.Lib.Keyed

  Lists of producers, each with a key and an output.

  `gather key out k xs` is everything the producers with key `k` have put out, the
  first producer's output first.  While only the last producer of a key puts out,
  what it appends is appended to the whole.  `Latest keys i k` says that producer
  `i` is that last one.
-/

import Mathlib.Data.List.Basic
import Mathlib.Data.List.Nodup

namespace Keyed

variable {α κ β : Type*} [DecidableEq κ]

/-- The outputs of the producers with key `k`, one after the other. -/
def gather (key : α → κ) (out : α → List β) (k : κ) (xs : List α) : List β :=
  (xs.filter fun x => key x = k).flatMap out

variable {key : α → κ} {out : α → List β} {k : κ} {xs ys : List α}

@[simp] theorem gather_nil : gather key out k [] = [] := rfl

theorem gather_append :
    gather key out k (xs ++ ys) = gather key out k xs ++ gather key out k ys := by
  rw [gather, List.filter_append, List.flatMap_append]
  rfl

theorem gather_cons_self {x : α} (hx : key x = k) :
    gather key out k (x :: xs) = out x ++ gather key out k xs := by
  rw [gather, List.filter_cons_of_pos (by simpa using hx), List.flatMap_cons]
  rfl

theorem gather_cons_of_ne {x : α} (hx : key x ≠ k) :
    gather key out k (x :: xs) = gather key out k xs := by
  rw [gather, List.filter_cons_of_neg (by simpa using hx)]
  rfl

/-- Without a producer of the key there is no output. -/
theorem gather_eq_nil (h : ∀ x ∈ xs, key x ≠ k) : gather key out k xs = [] := by
  induction xs with
  | nil => rfl
  | cons x xs ih =>
      rw [gather_cons_of_ne (h x List.mem_cons_self)]
      exact ih fun y hy => h y (List.mem_cons_of_mem _ hy)

theorem gather_cons {x : α} :
    gather key out k (x :: xs) = (if key x = k then out x else []) ++ gather key out k xs := by
  split
  · next hk => exact gather_cons_self hk
  · next hk => exact gather_cons_of_ne hk

theorem gather_concat {x : α} :
    gather key out k (xs ++ [x]) = gather key out k xs ++ if key x = k then out x else [] := by
  rw [gather_append, gather_cons, gather_nil, List.append_nil]

/-- A producer that has put out nothing adds nothing. -/
theorem gather_concat_of_nil {x : α} (hx : out x = []) :
    gather key out k (xs ++ [x]) = gather key out k xs := by
  rw [gather_concat, hx, ite_self, List.append_nil]

/-- Only the keys and the outputs matter. -/
theorem gather_congr {ys : List α}
    (h : ys.map (fun y => (key y, out y)) = xs.map fun x => (key x, out x)) :
    gather key out k ys = gather key out k xs := by
  induction xs generalizing ys with
  | nil => rw [List.map_eq_nil_iff.mp h]
  | cons x xs ih =>
      obtain ⟨y, ys', rfl, hy, hys⟩ := List.map_eq_cons_iff.mp h
      obtain ⟨hkey, hout⟩ := Prod.mk.inj hy
      by_cases hk : key x = k
      · rw [gather_cons_self hk, gather_cons_self (hkey.trans hk), hout, ih hys]
      · rw [gather_cons_of_ne hk, gather_cons_of_ne (by rwa [hkey]), ih hys]

/-- Where no key is used twice, a key puts out what its only producer does. -/
theorem gather_of_nodup (h : (xs.map key).Nodup) {x : α} (hx : x ∈ xs) :
    gather key out (key x) xs = out x := by
  induction xs with
  | nil => cases hx
  | cons y xs ih =>
      rw [List.map_cons, List.nodup_cons] at h
      rcases List.mem_cons.mp hx with rfl | hmem
      · rw [gather_cons_self rfl, gather_eq_nil, List.append_nil]
        intro z hz hkey
        exact h.1 (List.mem_map.mpr ⟨z, hz, hkey⟩)
      · have hne : key y ≠ key x := fun hkey => h.1 (List.mem_map.mpr ⟨x, hmem, hkey.symm⟩)
        rw [gather_cons_of_ne hne, ih h.2 hmem]

section Latest

variable {keys : List κ} {i j : Nat} {k' : κ}

/-- Producer `i` has key `k`, and no later one has. -/
def Latest (keys : List κ) (i : Nat) (k : κ) : Prop :=
  keys[i]? = some k ∧ ∀ j, i < j → keys[j]? ≠ some k

omit [DecidableEq κ] in
theorem Latest.unique (h : Latest keys i k) (h' : Latest keys j k) : i = j := by
  obtain hlt | heq | hgt := Nat.lt_trichotomy i j
  · exact absurd h'.1 (h.2 j hlt)
  · exact heq
  · exact absurd h.1 (h'.2 i hgt)

omit [DecidableEq κ] in
/-- A key is one of the old ones or the new one. -/
theorem concat_cases (h : (keys ++ [k'])[i]? = some k) :
    keys[i]? = some k ∨ i = keys.length ∧ k = k' := by
  by_cases hi : i < keys.length
  · rw [List.getElem?_append_left hi] at h
    exact .inl h
  · have hlt := (List.getElem?_eq_some_iff.mp h).1
    rw [List.length_append, List.length_singleton] at hlt
    obtain rfl : i = keys.length := by omega
    rw [List.getElem?_concat_length] at h
    exact .inr ⟨rfl, (Option.some.inj h).symm⟩

omit [DecidableEq κ] in
/-- A new producer is the last one of its key. -/
theorem latest_concat (keys : List κ) (k : κ) : Latest (keys ++ [k]) keys.length k := by
  refine ⟨List.getElem?_concat_length, ?_⟩
  intro j hj
  have hlen : (keys ++ [k]).length ≤ j := by simpa using Nat.succ_le_of_lt hj
  rw [List.getElem?_eq_none hlen]
  exact nofun

omit [DecidableEq κ] in
/-- A new producer leaves the last ones of the other keys what they are. -/
theorem Latest.concat (h : Latest keys i k) (hne : k ≠ k') : Latest (keys ++ [k']) i k := by
  have hi : i < keys.length := (List.getElem?_eq_some_iff.mp h.1).1
  refine ⟨(List.getElem?_append_left hi).trans h.1, ?_⟩
  intro j hj hget
  rcases concat_cases hget with hold | ⟨-, hnew⟩
  · exact h.2 j hj hold
  · exact hne hnew

omit [DecidableEq κ] in
/-- Where no key is used twice, every producer is the last one of its key. -/
theorem latest_of_nodup (hnodup : keys.Nodup) (hi : keys[i]? = some k) : Latest keys i k := by
  refine ⟨hi, ?_⟩
  intro j hij hj
  have hlt := (List.getElem?_eq_some_iff.mp hi).1
  have heq := (List.getElem?_inj hlt hnodup).mp (hi.trans hj.symm)
  omega

end Latest

section Modify

variable {i : Nat} {f : α → α} {x : α}

omit [DecidableEq κ] in
/-- A producer after a change is one that was not changed, or the one that was. -/
theorem modify_cases {j : Nat} {y : α} (h : (xs.modify i f)[j]? = some y) :
    (i ≠ j ∧ xs[j]? = some y) ∨ i = j ∧ ∃ x, xs[j]? = some x ∧ y = f x := by
  by_cases hij : i = j
  · subst hij
    rw [List.getElem?_modify_eq] at h
    obtain ⟨x, hx, rfl⟩ := Option.map_eq_some_iff.mp h
    exact .inr ⟨rfl, x, hx, rfl⟩
  · rw [List.getElem?_modify_ne _ _ hij] at h
    exact .inl ⟨hij, h⟩

/-- A change of one producer leaves the outputs of the other keys alone. -/
theorem gather_modify_of_ne (hx : xs[i]? = some x) (hkey : key (f x) = key x) (hne : key x ≠ k) :
    gather key out k (xs.modify i f) = gather key out k xs := by
  obtain ⟨hi, rfl⟩ := List.getElem?_eq_some_iff.mp hx
  have hsplit : xs = xs.take i ++ xs[i] :: xs.drop (i + 1) := by
    rw [List.getElem_cons_drop, List.take_append_drop]
  rw [List.modify_eq_take_cons_drop hi, gather_append, gather_cons_of_ne (by rwa [hkey])]
  conv_rhs => rw [hsplit, gather_append, gather_cons_of_ne hne]

/-- What the last producer of a key appends to its output is appended to the
    outputs of the key. -/
theorem gather_modify_last (hx : xs[i]? = some x) (hlast : Latest (xs.map key) i (key x))
    (hkey : key (f x) = key x) {more : List β} (hout : out (f x) = out x ++ more) :
    gather key out k (xs.modify i f) = gather key out k xs ++ if key x = k then more else [] := by
  by_cases hk : key x = k
  · rw [if_pos hk]
    obtain ⟨hi, rfl⟩ := List.getElem?_eq_some_iff.mp hx
    have hsplit : xs = xs.take i ++ xs[i] :: xs.drop (i + 1) := by
      rw [List.getElem_cons_drop, List.take_append_drop]
    have hrest : gather key out k (xs.drop (i + 1)) = [] := by
      apply gather_eq_nil
      intro y hy hyk
      obtain ⟨j, hj⟩ := List.getElem?_of_mem hy
      rw [List.getElem?_drop] at hj
      apply hlast.2 (i + 1 + j) (by omega)
      rw [List.getElem?_map, hj, Option.map_some, hyk, hk]
    rw [List.modify_eq_take_cons_drop hi, gather_append, gather_cons_self (hkey.trans hk), hrest,
      hout]
    conv_rhs => rw [hsplit, gather_append, gather_cons_self hk, hrest]
    simp only [List.append_nil, List.append_assoc]
  · rw [if_neg hk, List.append_nil]
    exact gather_modify_of_ne hx hkey hk

omit [DecidableEq κ] in
/-- A change of one producer that a view of it does not show. -/
theorem map_modify_same {γ : Type*} {g : α → γ} (hsame : ∀ x, xs[i]? = some x → g (f x) = g x) :
    (xs.modify i f).map g = xs.map g := by
  apply List.ext_getElem?
  intro j
  rw [List.getElem?_map, List.getElem?_map]
  cases hy : (xs.modify i f)[j]? with
  | none =>
      rw [List.getElem?_eq_none_iff, List.length_modify] at hy
      rw [List.getElem?_eq_none hy]
  | some y =>
      rcases modify_cases hy with ⟨-, hx⟩ | ⟨rfl, x, hx, rfl⟩
      · rw [hx]
      · rw [hx, Option.map_some, Option.map_some, hsame x hx]

/-- A change of one producer that leaves its key and its output alone. -/
theorem gather_modify_same (hsame : ∀ x, xs[i]? = some x → key (f x) = key x ∧ out (f x) = out x) :
    gather key out k (xs.modify i f) = gather key out k xs := by
  apply gather_congr
  apply map_modify_same
  intro x hx
  obtain ⟨hkey, hout⟩ := hsame x hx
  rw [hkey, hout]

end Modify

end Keyed
