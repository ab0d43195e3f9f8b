/-
  MixTor.Lab.RankCorrelation

  The rank correlation of the lab's adversary (correlation_attack.rs): the ranks of a
  series, with ties averaged, and the correlation of two series by their ranks.

  A series has finite numbers of any ordered type, and its indices are those below its
  length.  The order in which the sort leaves ties is arbitrary.  The loops are given
  fuel; `none` is that it runs out, or an index outside of the sorted indices.
-/

import MixTor.Lib.Ranking
import MixTor.Lib.Slices
import MixTor.Shaping.Basic
import Mathlib.Data.List.Sort
import Mathlib.Tactic.Linarith

namespace MixTor

open Ranking (Group below ties fractional below_perm ties_perm below_map ties_map
  below_add_ties_le half_eq_fractional)
open Slices (slice)

variable {α β : Type*} [LinearOrder α] [LinearOrder β]

-- ============================================================================
-- The ranks of a series
-- ============================================================================

/-- `idx.sort_by(partial_cmp)`: the indices by their values. -/
def sortIndices (xs : List α) : List (Fin xs.length) :=
  (List.finRange xs.length).insertionSort fun i j => xs.get i ≤ xs.get j

/-- `while j + 1 < n && xs[idx[j + 1]] == xs[idx[i]] { j += 1 }`. -/
def tieEnd (xs : List α) (idx : List (Fin xs.length)) (i : Nat) : Nat → Nat → Option Nat
  | 0, _ => none
  | fuel + 1, j =>
      if j + 1 < xs.length then
        match idx[j + 1]?, idx[i]? with
        | some next, some first =>
            if xs.get next = xs.get first then tieEnd xs idx i fuel (j + 1) else some j
        | _, _ => none
      else some j

/-- `(i + j) as f64 / 2.0`. -/
def meanRank (F : F64) (i j : Nat) : Rat := F.round (F.round ((i + j : ℕ) : Rat) / 2)

/-- `for &k in ks { r[k] = avg }`. -/
def writeRanks {n : Nat} (avg : Rat) (ks : List (Fin n)) (r : Vector Rat n) : Vector Rat n :=
  ks.foldl (fun r (k : Fin n) => r.set k avg) r

/-- The loop over the tie groups, from position `i` on. -/
def rankTies (F : F64) (xs : List α) (idx : List (Fin xs.length)) :
    Nat → Nat → Vector Rat xs.length → Option (Vector Rat xs.length)
  | 0, _, _ => none
  | fuel + 1, i, r =>
      if i < xs.length then
        match tieEnd xs idx i fuel i with
        | none => none
        | some j =>
            match slice idx i (j + 1) with
            | none => none
            | some ks => rankTies F xs idx fuel (j + 1) (writeRanks (meanRank F i j) ks r)
      else some r

/-- The ranks from the sorted indices `idx`; no loop makes more rounds than there are indices. -/
def ranksIn (F : F64) (xs : List α) (idx : List (Fin xs.length)) : Option (List Rat) :=
  (rankTies F xs idx (xs.length + 1) 0 (Vector.replicate xs.length 0)).map Vector.toList

/-- `ranks`. -/
def ranks (F : F64) (xs : List α) : Option (List Rat) := ranksIn F xs (sortIndices xs)

/-- `spearman`, with a coefficient of the two rank vectors. -/
def spearman {K : Type*} [Zero K] (F : F64) (pearson : List Rat → List Rat → K) (a : List α)
    (b : List β) : Option K :=
  let n := min a.length b.length
  if n < 2 then some 0
  else
    match ranks F (a.take n), ranks F (b.take n) with
    | some ra, some rb => some (pearson ra rb)
    | _, _ => none

-- ============================================================================
-- Sorted indices
-- ============================================================================

/-- Every index stands once, and in the order of the values. -/
structure SortsIndices (xs : List α) (idx : List (Fin xs.length)) : Prop where
  perm : idx.Perm (List.finRange xs.length)
  sorted : idx.Pairwise fun i j => xs.get i ≤ xs.get j

variable {xs : List α} {idx : List (Fin xs.length)}

theorem sortIndices_sorts (xs : List α) : SortsIndices xs (sortIndices xs) where
  perm := List.perm_insertionSort _ _
  sorted := by
    have htotal : Std.Total fun i j : Fin xs.length => xs.get i ≤ xs.get j :=
      ⟨fun i j => le_total (xs.get i) (xs.get j)⟩
    have htrans : IsTrans (Fin xs.length) fun i j => xs.get i ≤ xs.get j :=
      ⟨fun _ _ _ => le_trans⟩
    exact List.pairwise_insertionSort _ _

namespace SortsIndices

theorem length_eq (h : SortsIndices xs idx) : idx.length = xs.length := by
  rw [h.perm.length_eq, List.length_finRange]

/-- The values in the order of the indices are the series, sorted. -/
theorem values_perm (h : SortsIndices xs idx) : (idx.map xs.get).Perm xs := by
  have hperm := h.perm.map xs.get
  rwa [List.map_get_finRange] at hperm

theorem values_sorted (h : SortsIndices xs idx) : (idx.map xs.get).Pairwise (· ≤ ·) :=
  List.pairwise_map.mpr h.sorted

theorem nodup (h : SortsIndices xs idx) : idx.Nodup :=
  h.perm.nodup_iff.mpr (List.nodup_finRange _)

theorem mem (h : SortsIndices xs idx) (k : Fin xs.length) : k ∈ idx :=
  h.perm.mem_iff.mpr (List.mem_finRange k)

end SortsIndices

-- ============================================================================
-- One tie group
-- ============================================================================

/-- From a position of a tie group the inner loop stops at the last one. -/
theorem exists_tieEnd (h : SortsIndices xs idx) {i j : Nat} {x : α} (hij : i ≤ j)
    (htied : ∀ k, i ≤ k → k ≤ j → (idx.map xs.get)[k]? = some x) (fuel : Nat)
    (hfuel : xs.length < fuel + (j + 1)) :
    ∃ last, tieEnd xs idx i fuel j = some last ∧ i ≤ last ∧
      (∀ k, i ≤ k → k ≤ last → (idx.map xs.get)[k]? = some x) ∧
      (idx.map xs.get)[last + 1]? ≠ some x := by
  induction fuel generalizing j with
  | zero =>
      have hj := (List.getElem?_eq_some_iff.mp (htied j hij le_rfl)).1
      rw [List.length_map, h.length_eq] at hj
      omega
  | succ fuel ih =>
      rw [tieEnd]
      by_cases hmore : j + 1 < xs.length
      · obtain ⟨first, hfirst, hx⟩ := Option.map_eq_some_iff.mp
          (List.getElem?_map .. ▸ htied i le_rfl hij)
        have hlt : j + 1 < idx.length := hmore.trans_eq h.length_eq.symm
        obtain ⟨next, hnext⟩ : ∃ next, idx[j + 1]? = some next :=
          ⟨idx[j + 1], List.getElem?_eq_getElem hlt⟩
        have hvalue : (idx.map xs.get)[j + 1]? = some (xs.get next) := by
          rw [List.getElem?_map, hnext, Option.map_some]
        simp only [if_pos hmore, hnext, hfirst, hx]
        by_cases heq : xs.get next = x
        · rw [if_pos heq]
          refine ih (Nat.le_succ_of_le hij) (fun k hik hkj => ?_) (by omega)
          rcases Nat.lt_or_eq_of_le hkj with hlt | rfl
          · exact htied k hik (Nat.le_of_lt_succ hlt)
          · rw [hvalue, heq]
        · rw [if_neg heq]
          exact ⟨j, rfl, hij, htied, fun hsome => heq (Option.some.inj (hvalue ▸ hsome))⟩
      · rw [if_neg hmore]
        refine ⟨j, rfl, hij, htied, ?_⟩
        rw [List.getElem?_eq_none (by rw [List.length_map, h.length_eq]; omega)]
        nofun

/-- The ranks at the given indices are overwritten, and no others. -/
theorem writeRanks_get {n : Nat} (avg : Rat) (ks : List (Fin n)) (r : Vector Rat n) (k : Fin n) :
    (writeRanks avg ks r)[k] = if k ∈ ks then avg else r[k] := by
  induction ks generalizing r with
  | nil => rfl
  | cons first ks ih =>
      have hset : (r.set first avg)[k] = if k = first then avg else r[k] := by
        rw [Fin.getElem_fin, Vector.getElem_set]
        simp only [Fin.ext_iff, eq_comm, Fin.getElem_fin]
      have hrest := ih (r.set first avg)
      rw [writeRanks] at hrest ⊢
      rw [List.foldl_cons, hrest, hset]
      by_cases hk : k ∈ ks
      · rw [if_pos hk, if_pos (List.mem_cons_of_mem first hk)]
      · rw [if_neg hk]
        simp only [List.mem_cons, hk, or_false]

/-- What the loop gives to a value, without the loop. -/
def rankOf (F : F64) (xs : List α) (x : α) : Rat :=
  F.round (F.round ((2 * below xs x + ties xs x - 1 : ℕ) : Rat) / 2)

/-- The mean of the ends of a group is the rank of its value. -/
theorem meanRank_eq (h : SortsIndices xs idx) (F : F64) {x : α} {i j : Nat}
    (hgroup : Group (idx.map xs.get) x i j) : meanRank F i j = rankOf F xs x := by
  rw [meanRank, hgroup.ends_eq, below_perm h.values_perm, ties_perm h.values_perm, rankOf]

-- ============================================================================
-- All groups
-- ============================================================================

/-- Where the loop stands: the values in front of the position are smaller than those behind
    it, and have their ranks. -/
structure Ranked (F : F64) (xs : List α) (idx : List (Fin xs.length)) (i : Nat)
    (r : Vector Rat xs.length) : Prop where
  le : i ≤ xs.length
  cut : ∀ y ∈ (idx.map xs.get).take i, ∀ z ∈ (idx.map xs.get).drop i, y < z
  ranked : ∀ k ∈ idx.take i, r[k] = rankOf F xs (xs.get k)

variable {F : F64} {r : Vector Rat xs.length}

theorem ranked_start (F : F64) (xs : List α) (idx : List (Fin xs.length))
    (r : Vector Rat xs.length) : Ranked F xs idx 0 r where
  le := Nat.zero_le _
  cut y hy := by cases hy
  ranked k hk := by cases hk

/-- **Step lemma.**  One round ranks the next tie group, whole. -/
theorem Ranked.step (h : SortsIndices xs idx) {i : Nat} (hr : Ranked F xs idx i r)
    (hi : i < xs.length) (fuel : Nat) (hfuel : xs.length ≤ fuel + i) :
    ∃ last ks, tieEnd xs idx i fuel i = some last ∧ slice idx i (last + 1) = some ks ∧
      i ≤ last ∧ Ranked F xs idx (last + 1) (writeRanks (meanRank F i last) ks r) := by
  have hlen : (idx.map xs.get).length = xs.length := by rw [List.length_map, h.length_eq]
  obtain ⟨x, hx⟩ : ∃ x, (idx.map xs.get)[i]? = some x :=
    ⟨_, List.getElem?_eq_getElem (hi.trans_eq hlen.symm)⟩
  have hself : ∀ k, i ≤ k → k ≤ i → (idx.map xs.get)[k]? = some x := by
    intro k hik hki
    rwa [Nat.le_antisymm hki hik]
  obtain ⟨last, hlast, hle, htied, hnext⟩ := exists_tieEnd h le_rfl hself fuel (by omega)
  have hgroup := Group.of_sorted h.values_sorted hle hr.cut htied hnext
  have hend : last + 1 ≤ idx.length := by
    have hlt := hgroup.lt
    rwa [List.length_map] at hlt
  refine ⟨last, _, hlast, Slices.slice_of_le (Nat.le_succ_of_le hle) hend, hle,
    hend.trans_eq h.length_eq, hgroup.cut, fun k hk => ?_⟩
  rw [writeRanks_get]
  split
  · next hin =>
    have hvalue : xs.get k ∈ ((idx.map xs.get).take (last + 1)).drop i := by
      rw [← List.map_take, ← List.map_drop]
      exact List.mem_map_of_mem hin
    rw [hgroup.eq_of_mem hvalue]
    exact meanRank_eq h F hgroup
  · next hout =>
    rw [← Ranking.take_append_between idx (Nat.le_succ_of_le hle)] at hk
    exact hr.ranked k ((List.mem_append.mp hk).resolve_right hout)

/-- **Run lemma.**  With fuel for the indices that are left the loop ends, and every index has
    the rank of its value. -/
theorem Ranked.exists_rankTies (h : SortsIndices xs idx) {i : Nat} (hr : Ranked F xs idx i r)
    (fuel : Nat) (hfuel : xs.length < fuel + i) :
    ∃ r', rankTies F xs idx fuel i r = some r' ∧ ∀ k, r'[k] = rankOf F xs (xs.get k) := by
  induction fuel generalizing i r with
  | zero =>
      have hle := hr.le
      omega
  | succ fuel ih =>
      rw [rankTies]
      by_cases hi : i < xs.length
      · obtain ⟨last, ks, hlast, hks, hle, hstep⟩ := hr.step h hi fuel (by omega)
        simp only [if_pos hi, hlast, hks]
        exact ih hstep (by omega)
      · rw [if_neg hi]
        refine ⟨r, rfl, fun k => hr.ranked k ?_⟩
        rw [List.take_of_length_le (by rw [h.length_eq]; omega)]
        exact h.mem k

/-- Every order of the ties gives the same ranks. -/
theorem ranksIn_eq (F : F64) (h : SortsIndices xs idx) :
    ranksIn F xs idx = some (xs.map (rankOf F xs)) := by
  obtain ⟨r, hrun, hr⟩ := (ranked_start F xs idx (Vector.replicate xs.length 0)).exists_rankTies h
    (xs.length + 1) (by omega)
  rw [ranksIn, hrun, Option.map_some]
  refine congrArg some (List.ext_getElem (by rw [Vector.length_toList, List.length_map]) ?_)
  intro k hk hk'
  rw [List.length_map] at hk'
  rw [Vector.getElem_toList, List.getElem_map]
  exact hr ⟨k, hk'⟩

theorem ranks_eq (F : F64) (xs : List α) : ranks F xs = some (xs.map (rankOf F xs)) :=
  ranksIn_eq F (sortIndices_sorts xs)

-- ============================================================================
-- Exactness, and increasing transformations
-- ============================================================================

/-- What ranks need of the rounding of IEEE 754: to halve a number loses nothing. -/
structure F64.Halves (F : F64) : Prop extends F.Nearest where
  round_half : ∀ n : Nat, F.round ((n : Rat) / 2) = F.round n / 2

theorem F64.steep_halves : F64.steep.Halves := ⟨F64.steep_nearest, fun _ => rfl⟩

theorem rankOf_eq_round (hF : F.Halves) {x : α} (hx : x ∈ xs) :
    rankOf F xs x = F.round (fractional xs x) := by
  rw [rankOf, ← hF.round_half, hF.round_round, half_eq_fractional hx]

/-- The ranks of a list of up to 2^52 numbers are representable. -/
theorem round_fractional (hF : F.Halves) (hlen : xs.length ≤ 2 ^ 52) {x : α} (hx : x ∈ xs) :
    F.round (fractional xs x) = fractional xs x := by
  have hle := below_add_ties_le xs x
  rw [← half_eq_fractional hx, hF.round_half, hF.round_natCast _ (by omega)]

section Maps

variable {γ δ : Type*} [LinearOrder γ] [LinearOrder δ] {f : α → γ} {g : β → δ}

theorem ranks_map (F : F64) (hf : StrictMonoOn f {x | x ∈ xs}) :
    ranks F (xs.map f) = ranks F xs := by
  rw [ranks_eq, ranks_eq, List.map_map]
  refine congrArg some (List.map_congr_left fun x hx => ?_)
  rw [Function.comp_apply, rankOf, below_map hf hx, ties_map hf hx, rankOf]

theorem spearman_map {K : Type*} [Zero K] (F : F64) (pearson : List Rat → List Rat → K)
    {ys : List β} (hf : StrictMonoOn f {x | x ∈ xs}) (hg : StrictMonoOn g {y | y ∈ ys}) :
    spearman F pearson (xs.map f) (ys.map g) = spearman F pearson xs ys := by
  have hmap : ∀ n, ranks F ((xs.map f).take n) = ranks F (xs.take n) := by
    intro n
    rw [← List.map_take]
    exact ranks_map F (hf.mono fun x hx => List.mem_of_mem_take hx)
  have hmap' : ∀ n, ranks F ((ys.map g).take n) = ranks F (ys.take n) := by
    intro n
    rw [← List.map_take]
    exact ranks_map F (hg.mono fun y hy => List.mem_of_mem_take hy)
  simp only [spearman, List.length_map, hmap, hmap']

/-- **Fractional ranks.**  Whatever order the sort leaves ties in, every entry gets its
    fractional rank, as an f64; up to 2^52 entries this is the rank itself.  So strictly
    increasing transformations of two series leave their ranks and their rank correlation
    unchanged. -/
theorem ranks_fractional {K : Type*} [Zero K] {F : F64} (hF : F.Halves)
    (pearson : List Rat → List Rat → K) (xs : List α) (ys : List β) :
    (∀ idx, SortsIndices xs idx →
      ranksIn F xs idx = some (xs.map fun x => F.round (fractional xs x))) ∧
    ranks F xs = some (xs.map fun x => F.round (fractional xs x)) ∧
    (xs.length ≤ 2 ^ 52 → ∀ x ∈ xs, F.round (fractional xs x) = fractional xs x) ∧
    ∀ (f : α → γ) (g : β → δ), StrictMonoOn f {x | x ∈ xs} → StrictMonoOn g {y | y ∈ ys} →
      ranks F (xs.map f) = ranks F xs ∧ ranks F (ys.map g) = ranks F ys ∧
        spearman F pearson (xs.map f) (ys.map g) = spearman F pearson xs ys := by
  have hranks : xs.map (rankOf F xs) = xs.map fun x => F.round (fractional xs x) :=
    List.map_congr_left fun x hx => rankOf_eq_round hF hx
  refine ⟨fun idx h => ?_, ?_, fun hlen x hx => round_fractional hF hlen hx, fun f g hf hg => ?_⟩
  · rw [ranksIn_eq F h, hranks]
  · rw [ranks_eq, hranks]
  · exact ⟨ranks_map F hf, ranks_map F hg, spearman_map F pearson hf hg⟩

end Maps

/-- Two ties, in the order in which an unstable sort may leave them, and a series that is
    stretched. -/
theorem ranks_fractional_sample :
    ranksIn .steep ([514, 9, 514] : List ℚ) [1, 2, 0] = some [3 / 2, 0, 3 / 2] ∧
    ranks .steep (([514, 9, 514] : List ℚ).map fun x => 2 * x + 1)
      = ranks .steep ([514, 9, 514] : List ℚ) ∧
    spearman .steep (fun ra rb => if ra = rb then (1 : ℚ) else 0)
        (([514, 9, 514] : List ℚ).map fun x => 2 * x + 1) (([1, 4, 9] : List ℚ).map id)
      = spearman .steep (fun ra rb => if ra = rb then (1 : ℚ) else 0)
        ([514, 9, 514] : List ℚ) ([1, 4, 9] : List ℚ) := by
  obtain ⟨hany, -, hexact, hmap⟩ := ranks_fractional (γ := ℚ) (δ := ℚ) F64.steep_halves
    (fun ra rb => if ra = rb then (1 : ℚ) else 0) ([514, 9, 514] : List ℚ) ([1, 4, 9] : List ℚ)
  have hsorts : SortsIndices ([514, 9, 514] : List ℚ) [1, 2, 0] := ⟨by decide, by decide +kernel⟩
  have hstretch : StrictMonoOn (fun x : ℚ => 2 * x + 1) {x | x ∈ ([514, 9, 514] : List ℚ)} :=
    fun x _ y _ hlt => by dsimp only; linarith
  obtain ⟨hranks, -, hspearman⟩ := hmap _ id hstretch (strictMono_id.strictMonoOn _)
  refine ⟨?_, hranks, hspearman⟩
  rw [hany _ hsorts, List.map_congr_left fun x hx => hexact (by decide) x hx]
  decide +kernel

example : spearman .steep (fun ra rb => if ra = rb then (1 : ℚ) else 0)
    ([1, 2, 3, 4, 5] : List ℚ) ([1, 4, 9, 16, 25] : List ℚ) = some 1 := by decide +kernel

end MixTor
