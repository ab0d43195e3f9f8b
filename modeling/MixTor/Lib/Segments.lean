/-
  MixTor.Lib.Segments

  A byte stream as a reader sees it: a list of segments, one per read.

  `readsAfter n segs` is what is left once a reader has taken whole segments
  until it holds at least `n` elements.  The reader stops exactly at element
  `n` when some segment ends there (`IsCut`), and otherwise it has swallowed the
  rest of the segment that straddles position `n`.
-/

import Mathlib.Data.List.Basic

namespace Segments

variable {α : Type*}

/-- The segments left after reading whole segments until `n` elements are held. -/
def readsAfter (n : Nat) : List (List α) → List (List α)
  | [] => []
  | s :: segs => if n = 0 then s :: segs else readsAfter (n - s.length) segs

/-- Some segment ends exactly at position `n` (or `n` is the start). -/
def IsCut (n : Nat) (segs : List (List α)) : Prop :=
  ∃ before after, segs = before ++ after ∧ before.flatten.length = n

@[simp] theorem readsAfter_zero (segs : List (List α)) : readsAfter 0 segs = segs := by
  cases segs <;> simp [readsAfter]

theorem readsAfter_cons_of_pos {n : Nat} (hn : 0 < n) (s : List α) (segs : List (List α)) :
    readsAfter n (s :: segs) = readsAfter (n - s.length) segs := by
  rw [readsAfter, if_neg (by omega)]

theorem isCut_zero (segs : List (List α)) : IsCut 0 segs := ⟨[], segs, rfl, rfl⟩

/-- A cut past the first segment is a cut of the remaining ones. -/
theorem isCut_cons {n : Nat} (hn : 0 < n) (s : List α) (segs : List (List α)) :
    IsCut n (s :: segs) ↔ s.length ≤ n ∧ IsCut (n - s.length) segs := by
  constructor
  · rintro ⟨before, after, hsplit, hlen⟩
    cases before with
    | nil => simp at hlen; omega
    | cons b before =>
        obtain ⟨rfl, hrest⟩ := List.cons.inj hsplit
        rw [List.flatten_cons, List.length_append] at hlen
        exact ⟨by omega, before, after, hrest, by omega⟩
  · rintro ⟨hle, before, after, rfl, hlen⟩
    refine ⟨s :: before, after, rfl, ?_⟩
    rw [List.flatten_cons, List.length_append]
    omega

/-- What is left never holds more than the stream does after position `n`. -/
theorem length_flatten_readsAfter_le (n : Nat) (segs : List (List α)) :
    (readsAfter n segs).flatten.length ≤ segs.flatten.length - n := by
  induction segs generalizing n with
  | nil => simp [readsAfter]
  | cons s segs ih =>
      rcases Nat.eq_zero_or_pos n with rfl | hn
      · simp
      · rw [readsAfter_cons_of_pos hn, List.flatten_cons, List.length_append]
        have := ih (n - s.length)
        omega

/-- At a cut the reader leaves exactly the stream after position `n`. -/
theorem flatten_readsAfter_of_isCut {n : Nat} {segs : List (List α)} (h : IsCut n segs) :
    (readsAfter n segs).flatten = segs.flatten.drop n := by
  induction segs generalizing n with
  | nil => simp [readsAfter]
  | cons s segs ih =>
      rcases Nat.eq_zero_or_pos n with rfl | hn
      · simp
      · obtain ⟨hle, hcut⟩ := (isCut_cons hn s segs).mp h
        rw [readsAfter_cons_of_pos hn, ih hcut, List.flatten_cons, List.drop_append,
          List.drop_of_length_le hle, List.nil_append]

/-- **Where a segmented reader stops.** It leaves exactly what follows position
    `n` if and only if a segment ends there. -/
theorem flatten_readsAfter_eq_drop_iff {n : Nat} {segs : List (List α)}
    (hn : n ≤ segs.flatten.length) :
    (readsAfter n segs).flatten = segs.flatten.drop n ↔ IsCut n segs := by
  refine ⟨fun h => ?_, flatten_readsAfter_of_isCut⟩
  induction segs generalizing n with
  | nil =>
      obtain rfl : n = 0 := by simpa using hn
      exact isCut_zero _
  | cons s segs ih =>
      rcases Nat.eq_zero_or_pos n with rfl | hpos
      · exact isCut_zero _
      · rw [readsAfter_cons_of_pos hpos] at h
        rw [List.flatten_cons, List.length_append] at hn
        rw [isCut_cons hpos]
        by_cases hle : s.length ≤ n
        · refine ⟨hle, ih (by omega) ?_⟩
          rw [h, List.flatten_cons, List.drop_append, List.drop_of_length_le hle,
            List.nil_append]
        · -- the first segment straddles position `n`, so the reader took too much
          exfalso
          have hleft := length_flatten_readsAfter_le (n - s.length) segs
          rw [h, List.flatten_cons, List.length_drop, List.length_append] at hleft
          omega

-- ============================================================================
-- Writing segments
-- ============================================================================

/-- `out` is the segments up to some point, the last one perhaps cut off. -/
def CutOff (out segs : List (List α)) : Prop :=
  out <+: segs ∨ ∃ before s after n, segs = before ++ s :: after ∧ out = before ++ [s.take n]

variable {out segs segs' : List (List α)}

theorem cutOff_nil (segs : List (List α)) : CutOff [] segs := .inl List.nil_prefix

theorem cutOff_self (segs : List (List α)) : CutOff segs segs := .inl List.prefix_rfl

/-- More segments behind change nothing. -/
theorem CutOff.mono (h : CutOff out segs) (hsegs : segs <+: segs') : CutOff out segs' := by
  rcases h with hpre | ⟨before, s, after, n, rfl, rfl⟩
  · exact .inl (hpre.trans hsegs)
  · obtain ⟨more, rfl⟩ := hsegs
    refine .inr ⟨before, s, after ++ more, n, ?_, rfl⟩
    rw [List.append_assoc, List.cons_append]

end Segments
