/-
  MixTor.Lib.Sweep

  One pass over a vector that drops entries in place.

  The pass visits the entry at its index.  A visit that keeps the entry moves the
  index on; one that drops it puts the last entry of the vector in its place and
  looks at the same index again.  What has been visited and kept is thus always
  the part in front of the index, and what is still to visit the part behind it,
  in an order that the drops shuffle.
-/

import Mathlib.Data.List.Basic

namespace Sweep

variable {α : Type*}

-- ============================================================================
-- Removal in place
-- ============================================================================

/-- `Vec::swap_remove`: the last entry takes the place of entry `i`. -/
def swapRemove (xs : List α) (i : Nat) : List α :=
  match xs.getLast? with
  | none => []
  | some last => (xs.set i last).dropLast

/-- Dropping the entry behind `pre` leaves `pre` alone and shuffles what is behind. -/
theorem swapRemove_append (pre post : List α) (x : α) :
    ∃ rest, swapRemove (pre ++ x :: post) pre.length = pre ++ rest ∧ rest.Perm post := by
  rcases List.eq_nil_or_concat' post with rfl | ⟨mid, last, rfl⟩
  · refine ⟨[], ?_, List.Perm.nil⟩
    rw [swapRemove, List.getLast?_append_of_ne_nil _ (List.cons_ne_nil x [])]
    simp
  · refine ⟨last :: mid, ?_, (List.perm_append_singleton last mid).symm⟩
    have hlast : (pre ++ x :: (mid ++ [last])).getLast? = some last := by
      rw [← List.cons_append, ← List.append_assoc, List.getLast?_concat]
    rw [swapRemove, hlast]
    simp only [List.set_append_right _ _ (Nat.le_refl _), Nat.sub_self, List.set_cons_zero]
    rw [← List.cons_append, ← List.append_assoc, List.dropLast_concat]

theorem swapRemove_length {xs : List α} {i : Nat} (h : i < xs.length) :
    (swapRemove xs i).length + 1 = xs.length := by
  have hpos : 0 < xs.length := Nat.zero_lt_of_lt h
  rw [swapRemove, List.getLast?_eq_some_getLast (List.ne_nil_of_length_pos hpos)]
  rw [List.length_dropLast, List.length_set]
  exact Nat.sub_add_cancel hpos

-- ============================================================================
-- The pass
-- ============================================================================

/-- What one visit found, decided and left. -/
structure Visit (α : Type*) where
  before : α
  kept : Bool
  after : α
  deriving DecidableEq, Repr

/-- Visit the entries from index `i` on.  `visit n` is the visit number `n` of the
    pass; `log` holds the visits so far. -/
def sweep (visit : Nat → α → Bool × α) (i : Nat) (xs : List α) (log : List (Visit α)) :
    List α × List (Visit α) :=
  if h : i < xs.length then
    match visit log.length xs[i] with
    | (true, x) => sweep visit (i + 1) (xs.set i x) (log ++ [⟨xs[i], true, x⟩])
    | (false, x) => sweep visit i (swapRemove (xs.set i x) i) (log ++ [⟨xs[i], false, x⟩])
  else (xs, log)
termination_by xs.length - i
decreasing_by
  · rw [List.length_set]
    omega
  · have hset : i < (xs.set i x).length := by rwa [List.length_set]
    have := swapRemove_length hset
    rw [List.length_set] at this
    omega

/-- The entries that the visits of a log kept, as they left them. -/
def survivors (log : List (Visit α)) : List α := (log.filter (·.kept)).map (·.after)

/-- Every visit of the log from number `n` on is what `visit` answers there. -/
def Answers (visit : Nat → α → Bool × α) : Nat → List (Visit α) → Prop
  | _, [] => True
  | n, v :: vs => visit n v.before = (v.kept, v.after) ∧ Answers visit (n + 1) vs

theorem Answers.getElem? {visit : Nat → α → Bool × α} {n : Nat} {log : List (Visit α)}
    (h : Answers visit n log) {k : Nat} {v : Visit α} (hv : log[k]? = some v) :
    visit (n + k) v.before = (v.kept, v.after) := by
  induction log generalizing n k with
  | nil => cases hv
  | cons w ws ih =>
      cases k with
      | zero =>
          obtain rfl := Option.some.inj hv
          exact h.1
      | succ k =>
          have := ih h.2 hv
          rwa [Nat.add_assoc, Nat.add_comm 1 k] at this

/-- **The pass.**  With `pre` behind it and `post` before it, a pass visits every entry
    of `post` exactly once, in some order, and ends with `pre` and the entries it
    kept.  The induction is on the length of `post`, which both branches shorten. -/
theorem sweep_append (visit : Nat → α → Bool × α) (pre post : List α) (log : List (Visit α)) :
    ∃ new, sweep visit pre.length (pre ++ post) log = (pre ++ survivors new, log ++ new) ∧
      (new.map (·.before)).Perm post ∧ Answers visit log.length new := by
  induction hn : post.length generalizing pre post log with
  | zero =>
      obtain rfl := List.eq_nil_of_length_eq_zero hn
      refine ⟨[], ?_, List.Perm.nil, trivial⟩
      rw [sweep, dif_neg (by rw [List.append_nil]; exact Nat.lt_irrefl _)]
      simp [survivors]
  | succ n ih =>
      obtain ⟨x, rest, rfl⟩ := List.exists_cons_of_length_eq_add_one hn
      have hin : pre.length < (pre ++ x :: rest).length := by simp
      have hget : (pre ++ x :: rest)[pre.length] = x := by simp
      have hset : ∀ y, (pre ++ x :: rest).set pre.length y = pre ++ y :: rest := by
        intro y
        rw [List.set_append_right _ _ (Nat.le_refl _), Nat.sub_self, List.set_cons_zero]
      have hlen : rest.length = n := Nat.succ.inj hn
      rw [sweep, dif_pos hin]
      simp only [hget, hset]
      rcases hvisit : visit log.length x with ⟨kept, y⟩
      cases kept with
      | true =>
          obtain ⟨new, hrun, hperm, hans⟩ := ih (pre ++ [y]) rest (log ++ [⟨x, true, y⟩]) hlen
          refine ⟨⟨x, true, y⟩ :: new, ?_, hperm.cons x, hvisit, ?_⟩
          · rw [List.length_append, List.append_assoc] at hrun
            exact hrun.trans (by simp [survivors])
          · rwa [List.length_append] at hans
      | false =>
          obtain ⟨rest', hswap, hshuffle⟩ := swapRemove_append pre rest y
          obtain ⟨new, hrun, hperm, hans⟩ := ih pre rest' (log ++ [⟨x, false, y⟩])
            (hshuffle.length_eq.trans hlen)
          refine ⟨⟨x, false, y⟩ :: new, ?_, (hperm.trans hshuffle).cons x, hvisit, ?_⟩
          · show sweep visit pre.length (swapRemove (pre ++ y :: rest) pre.length) _ = _
            rw [hswap]
            exact hrun.trans (by simp [survivors])
          · rwa [List.length_append] at hans

end Sweep
