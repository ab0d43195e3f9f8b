/-
  MixTor.Shaping.SizeBuckets

  The bucket table over the lengths it was built from (`build_buckets`), and over the
  lengths a padder sees later (`OptimalPadder`, optimal_padding.rs).

  The sorted lengths are cut by position, and repeated lengths are not removed first,
  so a cut can fall between two equal lengths.  Between two rebuilds the table in use
  covers the lengths of the last one only.
-/

import MixTor.Lib.Machine
import MixTor.Lib.Ranges
import MixTor.Shaping.OptimalPadder
import Mathlib.Data.List.Dedup

namespace MixTor

open Ranges (Holds Ascending)

-- ============================================================================
-- The buckets by position
-- ============================================================================

/-- The lengths in ascending order. -/
def sortedLengths (lengths : List Nat) : List Nat := lengths.insertionSort (· ≤ ·)

@[simp] theorem length_sortedLengths (lengths : List Nat) :
    (sortedLengths lengths).length = lengths.length := List.length_insertionSort _ _

@[simp] theorem mem_sortedLengths {lengths : List Nat} {len : Nat} :
    len ∈ sortedLengths lengths ↔ len ∈ lengths := List.mem_insertionSort _

theorem sortedLengths_mono (lengths : List Nat) {i j : Nat} (hij : i ≤ j)
    {x y : Nat} (hx : (sortedLengths lengths)[i]? = some x)
    (hy : (sortedLengths lengths)[j]? = some y) : x ≤ y := by
  obtain ⟨hi, rfl⟩ := List.getElem?_eq_some_iff.mp hx
  obtain ⟨hj, rfl⟩ := List.getElem?_eq_some_iff.mp hy
  rcases Nat.eq_or_lt_of_le hij with rfl | hlt
  · exact le_rfl
  · exact List.pairwise_iff_getElem.mp (List.pairwise_insertionSort (· ≤ ·) lengths) i j hi hj hlt

/-- Where bucket `i` of `k` ends among `n` sorted lengths. -/
def chunkStop (n k i : Nat) : Nat := if i = k - 1 then n else (i + 1) * (n / k)

/-- Bucket `i` begins where the one before ended, and holds at least one length. -/
theorem chunkStop_spec {n k i : Nat} (hk : k ≤ n) (hi : i < k) :
    i * (n / k) < chunkStop n k i ∧ chunkStop n k i ≤ n ∧
      (i + 1 < k → chunkStop n k i = (i + 1) * (n / k)) := by
  have hchunk : 0 < n / k := Nat.div_pos hk (by omega)
  have hle : (i + 1) * (n / k) ≤ n :=
    (Nat.mul_le_mul_right _ hi).trans (Nat.mul_div_le n k)
  have hlt : i * (n / k) < (i + 1) * (n / k) := Nat.mul_lt_mul_of_pos_right (Nat.lt_succ_self i) hchunk
  unfold chunkStop
  split
  · next hlast => exact ⟨hlt.trans_le hle, le_rfl, fun h => absurd h (by omega)⟩
  · exact ⟨hlt, hle, fun _ => rfl⟩

/-- What a bucket of the table is: the smallest and the largest length of its chunk. -/
theorem quantileBucket_eq_some {sorted : List Nat} {k i : Nat} {b : SizeBucket} :
    quantileBucket sorted k i = some b ↔
      sorted[i * (sorted.length / k)]? = some b.lo ∧
        sorted[chunkStop sorted.length k i - 1]? = some b.hi ∧ b.target = b.hi := by
  unfold quantileBucket chunkStop
  constructor
  · intro h
    obtain ⟨lo, hlo, h⟩ := Option.bind_eq_some_iff.mp h
    obtain ⟨hi, hhi, h⟩ := Option.bind_eq_some_iff.mp h
    obtain rfl := Option.some.inj h
    exact ⟨hlo, hhi, rfl⟩
  · rintro ⟨hlo, hhi, htarget⟩
    obtain ⟨lo, hi, target⟩ := b
    obtain rfl : target = hi := htarget
    simp only [hlo, hhi]
    rfl

/-- The entries of a list that was mapped. -/
theorem getElem?_of_mapM {α β : Type} {f : α → Option β} {l : List α} {bs : List β}
    (h : l.mapM f = some bs) : bs.length = l.length ∧
      ∀ (i : Nat) (a : α) (b : β), l[i]? = some a → bs[i]? = some b → f a = some b := by
  induction l generalizing bs with
  | nil =>
      obtain rfl := Option.some.inj h
      exact ⟨rfl, fun i a b ha => by cases ha⟩
  | cons x l ih =>
      rw [List.mapM_cons] at h
      obtain ⟨y, hy, h⟩ := Option.bind_eq_some_iff.mp h
      obtain ⟨ys, hys, h⟩ := Option.bind_eq_some_iff.mp h
      obtain rfl := Option.some.inj h
      obtain ⟨hlen, hrest⟩ := ih hys
      refine ⟨congrArg (· + 1) hlen, fun i a b ha hb => ?_⟩
      cases i with
      | zero =>
          obtain rfl := Option.some.inj ha
          obtain rfl := Option.some.inj hb
          exact hy
      | succ i => exact hrest i a b ha hb

variable {lengths : List Nat} {k : Nat} {buckets : List SizeBucket}

/-- The number of buckets. -/
def bucketCount (lengths : List Nat) (k : Nat) : Nat := min k lengths.length

/-- **Specification of `build_buckets`.**  Bucket `i` holds the `i`-th chunk of the sorted
    lengths. -/
structure Built (lengths : List Nat) (k : Nat) (buckets : List SizeBucket) : Prop where
  length : buckets.length = bucketCount lengths k
  lo : ∀ i b, buckets[i]? = some b →
    (sortedLengths lengths)[i * (lengths.length / bucketCount lengths k)]? = some b.lo
  hi : ∀ i b, buckets[i]? = some b →
    (sortedLengths lengths)[chunkStop lengths.length (bucketCount lengths k) i - 1]? = some b.hi
  target : ∀ b ∈ buckets, b.target = b.hi

theorem buildBuckets_built (hne : lengths ≠ []) (h : buildBuckets lengths k = some buckets) :
    Built lengths k buckets := by
  unfold buildBuckets at h
  split at h
  · cases h
  · obtain ⟨hlen, hget⟩ := getElem?_of_mapM h
    rw [List.length_range, List.length_insertionSort] at hlen
    have hbucket : ∀ i b, buckets[i]? = some b →
        quantileBucket (sortedLengths lengths) (bucketCount lengths k) i = some b := by
      intro i b hb
      have hi : i < bucketCount lengths k :=
        (List.getElem?_eq_some_iff.mp hb).1.trans_eq hlen
      have hrange : (List.range (min k (lengths.insertionSort (· ≤ ·)).length))[i]? = some i := by
        rw [List.getElem?_range]
        rw [List.length_insertionSort]
        exact hi
      have := hget i i b hrange hb
      rwa [List.length_insertionSort] at this
    refine ⟨hlen, fun i b hb => ?_, fun i b hb => ?_, fun b hb => ?_⟩
    · have := (quantileBucket_eq_some.mp (hbucket i b hb)).1
      rwa [length_sortedLengths] at this
    · have := (quantileBucket_eq_some.mp (hbucket i b hb)).2.1
      rwa [length_sortedLengths] at this
    · obtain ⟨i, hi⟩ := List.mem_iff_getElem?.mp hb
      exact (quantileBucket_eq_some.mp (hbucket i b hi)).2.2

/-- Bucket `i` exists for every index below the number of buckets. -/
theorem Built.exists_bucket (h : Built lengths k buckets) {i : Nat}
    (hi : i < bucketCount lengths k) : ∃ b, buckets[i]? = some b :=
  ⟨_, List.getElem?_eq_getElem (h.length ▸ hi)⟩

theorem bucketCount_le : bucketCount lengths k ≤ lengths.length := Nat.min_le_right _ _

/-- The bounds of a bucket are lengths of the list. -/
theorem Built.mem (h : Built lengths k buckets) {b : SizeBucket} (hb : b ∈ buckets) :
    b.lo ∈ lengths ∧ b.hi ∈ lengths := by
  obtain ⟨i, hi⟩ := List.mem_iff_getElem?.mp hb
  exact ⟨mem_sortedLengths.mp (List.mem_of_getElem? (h.lo i b hi)),
    mem_sortedLengths.mp (List.mem_of_getElem? (h.hi i b hi))⟩

/-- A bucket begins at its smallest length. -/
theorem Built.lo_le_hi (h : Built lengths k buckets) {b : SizeBucket} (hb : b ∈ buckets) :
    b.lo ≤ b.hi := by
  obtain ⟨i, hi⟩ := List.mem_iff_getElem?.mp hb
  have hik : i < bucketCount lengths k := h.length ▸ (List.getElem?_eq_some_iff.mp hi).1
  obtain ⟨hstop, -, -⟩ := chunkStop_spec bucketCount_le hik
  exact sortedLengths_mono lengths (by omega) (h.lo i b hi) (h.hi i b hi)

/-- Every length lies in the bucket of its position. -/
theorem Built.exists_holds (h : Built lengths k buckets) (hk : 0 < k) {len : Nat}
    (hlen : len ∈ lengths) : ∃ b ∈ buckets, Holds SizeBucket.lo SizeBucket.hi len b := by
  obtain ⟨p, hp⟩ := List.mem_iff_getElem?.mp (mem_sortedLengths.mpr hlen)
  have hpn : p < lengths.length := by
    have := (List.getElem?_eq_some_iff.mp hp).1
    rwa [length_sortedLengths] at this
  have hcount : 0 < bucketCount lengths k := lt_min hk (Nat.zero_lt_of_lt hpn)
  -- the chunk of position `p`: the last one takes the remainder
  obtain ⟨i, hi, hstart, hstop⟩ : ∃ i < bucketCount lengths k,
      i * (lengths.length / bucketCount lengths k) ≤ p ∧
        p < chunkStop lengths.length (bucketCount lengths k) i := by
    refine ⟨min (p / (lengths.length / bucketCount lengths k)) (bucketCount lengths k - 1),
      by omega, ?_, ?_⟩
    · exact (Nat.mul_le_mul_right _ (Nat.min_le_left _ _)).trans (Nat.div_mul_le_self _ _)
    · unfold chunkStop
      split
      · exact hpn
      · next hlast =>
        have hmin : min (p / (lengths.length / bucketCount lengths k)) (bucketCount lengths k - 1)
            = p / (lengths.length / bucketCount lengths k) := by omega
        rw [hmin, Nat.mul_comm]
        exact Nat.lt_mul_div_succ p (Nat.div_pos bucketCount_le hcount)
  obtain ⟨b, hb⟩ := h.exists_bucket hi
  refine ⟨b, List.mem_of_getElem? hb, ?_, ?_⟩
  · exact sortedLengths_mono lengths hstart (h.lo i b hb) hp
  · exact sortedLengths_mono lengths (by omega) hp (h.hi i b hb)

-- ============================================================================
-- Whether the table partitions the lengths
-- ============================================================================

/-- As many buckets as asked for, or as there are different lengths if these are fewer; in
    ascending order without overlap; and every length lies in exactly one of them and is
    padded to its target. -/
structure Partitions (lengths : List Nat) (k : Nat) (buckets : List SizeBucket) : Prop where
  count : buckets.length = min k lengths.dedup.length
  ascending : Ascending SizeBucket.lo SizeBucket.hi buckets
  holds : ∀ len ∈ lengths,
    buckets.countP (fun b => decide (Holds SizeBucket.lo SizeBucket.hi len b)) = 1
  pads : ∀ len ∈ lengths, ∀ b ∈ buckets, Holds SizeBucket.lo SizeBucket.hi len b →
    optimalPadLength len buckets = b.target

/-- No two equal lengths stand on both sides of a cut. -/
def Unsplit (lengths : List Nat) (k : Nat) : Prop :=
  ∀ i, i + 1 < bucketCount lengths k → ∀ x y,
    (sortedLengths lengths)[(i + 1) * (lengths.length / bucketCount lengths k) - 1]? = some x →
    (sortedLengths lengths)[(i + 1) * (lengths.length / bucketCount lengths k)]? = some y → x < y

/-- Two buckets side by side do not overlap if the cut between them splits no length. -/
theorem Built.hi_lt_lo (h : Built lengths k buckets) (hunsplit : Unsplit lengths k) {i j : Nat}
    (hij : i < j) {b b' : SizeBucket} (hb : buckets[i]? = some b) (hb' : buckets[j]? = some b') :
    b.hi < b'.lo := by
  have hj : j < bucketCount lengths k := h.length ▸ (List.getElem?_eq_some_iff.mp hb').1
  obtain ⟨next, hnext⟩ := h.exists_bucket (i := i + 1) (by omega)
  obtain ⟨-, -, hstop⟩ := chunkStop_spec (k := bucketCount lengths k) (i := i)
    bucketCount_le (by omega)
  have hhi := h.hi i b hb
  rw [hstop (by omega)] at hhi
  have hlt : b.hi < next.lo := hunsplit i (by omega) b.hi next.lo hhi (h.lo (i + 1) next hnext)
  have hle : next.lo ≤ b'.lo := sortedLengths_mono lengths
    (Nat.mul_le_mul_right _ hij) (h.lo (i + 1) next hnext) (h.lo j b' hb')
  exact hlt.trans_le hle

theorem Built.ascending (h : Built lengths k buckets) (hunsplit : Unsplit lengths k) :
    Ascending SizeBucket.lo SizeBucket.hi buckets where
  le _ hb := h.lo_le_hi hb
  lt := by
    rw [List.pairwise_iff_getElem]
    intro i j hi hj hij
    exact h.hi_lt_lo hunsplit hij (List.getElem?_eq_getElem hi) (List.getElem?_eq_getElem hj)

/-- Ascending buckets are no more than there are different lengths. -/
theorem Built.length_le (h : Built lengths k buckets)
    (hasc : Ascending SizeBucket.lo SizeBucket.hi buckets) :
    buckets.length ≤ lengths.dedup.length := by
  have hsub : buckets.map SizeBucket.lo ⊆ lengths.dedup := by
    intro lo hlo
    obtain ⟨b, hb, rfl⟩ := List.mem_map.mp hlo
    exact List.mem_dedup.mpr (h.mem hb).1
  have hle := (List.subperm_of_subset hasc.nodup_lo hsub).length_le
  rwa [List.length_map] at hle

theorem Built.partitions (h : Built lengths k buckets) (hk : 0 < k)
    (hunsplit : Unsplit lengths k) : Partitions lengths k buckets := by
  have hasc := h.ascending hunsplit
  refine ⟨?_, hasc, fun len hlen => ?_, fun len hlen b hb hin => ?_⟩
  · have hle := h.length_le hasc
    have hdedup : lengths.dedup.length ≤ lengths.length := (List.dedup_sublist lengths).length_le
    have hlength := h.length
    unfold bucketCount at hlength
    omega
  · obtain ⟨b, hb, hin⟩ := h.exists_holds hk hlen
    exact hasc.countP_eq_one hb hin
  · unfold optimalPadLength
    rw [hasc.find?_eq_some hb hin]

/-- Where the table partitions the lengths, no cut splits a length. -/
theorem Built.unsplit (h : Built lengths k buckets) (hpart : Partitions lengths k buckets) :
    Unsplit lengths k := by
  intro i hi x y hx hy
  obtain ⟨b, hb⟩ := h.exists_bucket (i := i) (by omega)
  obtain ⟨b', hb'⟩ := h.exists_bucket hi
  obtain ⟨-, -, hstop⟩ := chunkStop_spec (k := bucketCount lengths k) (i := i)
    bucketCount_le (by omega)
  have hhi := h.hi i b hb
  rw [hstop hi, hx] at hhi
  have hlo := h.lo (i + 1) b' hb'
  rw [hy] at hlo
  obtain rfl := Option.some.inj hhi
  obtain rfl := Option.some.inj hlo
  obtain ⟨hi', rfl⟩ := List.getElem?_eq_some_iff.mp hb
  obtain ⟨hj', rfl⟩ := List.getElem?_eq_some_iff.mp hb'
  exact List.pairwise_iff_getElem.mp hpart.ascending.lt i (i + 1) hi' hj' (Nat.lt_succ_self i)

/-- **The bucket table.**  `build_buckets` returns a table for every list of lengths, and it
    partitions them if and only if no cut falls between two equal lengths. -/
theorem buildBuckets_partitions_iff (lengths : List Nat) (hne : lengths ≠ []) (k : Nat)
    (hk : 0 < k) :
    (∃ buckets, buildBuckets lengths k = some buckets ∧ Partitions lengths k buckets)
      ↔ Unsplit lengths k := by
  constructor
  · rintro ⟨buckets, hbuild, hpart⟩
    exact (buildBuckets_built hne hbuild).unsplit hpart
  · intro hunsplit
    obtain ⟨buckets, hbuild, -, -⟩ := exists_buildBuckets lengths hk
    exact ⟨buckets, hbuild, (buildBuckets_built hne hbuild).partitions hk hunsplit⟩

/-- Four different lengths in two buckets. -/
theorem buildBuckets_partitions_iff_sample :
    (∃ buckets, buildBuckets [400, 100, 300, 200] 2 = some buckets ∧
        Partitions [400, 100, 300, 200] 2 buckets)
      ↔ Unsplit [400, 100, 300, 200] 2 :=
  buildBuckets_partitions_iff [400, 100, 300, 200] (List.cons_ne_nil _ _) 2 (by decide)

/-- Cells of one length fill as many equal buckets as were asked for. -/
theorem buildBuckets_splits :
    buildBuckets [514, 514] 2 = some [⟨514, 514, 514⟩, ⟨514, 514, 514⟩] ∧
      ¬ Partitions [514, 514] 2 [⟨514, 514, 514⟩, ⟨514, 514, 514⟩] :=
  ⟨by decide, fun hpart => absurd hpart.count (by decide)⟩

-- ============================================================================
-- Runs of a padder
-- ============================================================================

/-- A table covers a length if one of its buckets ends at or behind it.  What is padded with
    its own upper bounds is not shortened exactly if it is covered. -/
theorem le_optimalPadLength_iff (hne : buckets ≠ []) (htarget : ∀ b ∈ buckets, b.target = b.hi)
    (len : Nat) : len ≤ optimalPadLength len buckets ↔ ∃ b ∈ buckets, len ≤ b.hi := by
  unfold optimalPadLength
  split
  · next b hfind =>
    have hb := List.mem_of_find?_eq_some hfind
    have hle : len ≤ b.hi := by simpa using List.find?_some hfind
    rw [htarget b hb]
    exact ⟨fun _ => ⟨b, hb, hle⟩, fun _ => hle⟩
  · next hfind =>
    have hnone : ∀ b ∈ buckets, ¬ len ≤ b.hi := by simpa using List.find?_eq_none.mp hfind
    have hlast := List.getLast_mem hne
    rw [List.getLast?_eq_some_getLast hne, Option.map_some, Option.getD_some, htarget _ hlast]
    exact ⟨fun h => absurd h (hnone _ hlast), fun ⟨b, hb, h⟩ => absurd h (hnone b hb)⟩

/-- The last bucket ends at the largest length. -/
theorem Built.exists_le_hi_iff (h : Built lengths k buckets) (hk : 0 < k) (len : Nat) :
    (∃ b ∈ buckets, len ≤ b.hi) ↔ ∃ seen ∈ lengths, len ≤ seen := by
  constructor
  · rintro ⟨b, hb, hle⟩
    exact ⟨b.hi, (h.mem hb).2, hle⟩
  · rintro ⟨seen, hseen, hle⟩
    obtain ⟨b, hb, hin⟩ := h.exists_holds hk hseen
    exact ⟨b, hb, hle.trans hin.2⟩

namespace OptimalPadder

/-- The calls of a padder's owner. -/
inductive Call where
  | observeLength (len : Nat)
  | padLength (trueLen : Nat)
  deriving DecidableEq, Repr

/-- `none` is a panic. -/
def step (p : OptimalPadder) : Call → Option OptimalPadder
  | .observeLength len => some (p.observeLength len)
  | .padLength trueLen => (p.padLength trueLen).map Prod.snd

/-- The lengths that had been observed when the table was last rebuilt. -/
def lengthsAtLastBuild (p : OptimalPadder) : List Nat :=
  p.lengthPool.take p.poolVersionAtLastBuild

/-- The table in use: that of the lengths at the last rebuild, or the initial one. -/
structure Current (p : OptimalPadder) : Prop where
  observations : p.observations = p.lengthPool.length
  interval_pos : 0 < p.rebuildInterval
  initial : p.poolVersionAtLastBuild = 0 → p.buckets = [.initial]
  built : p.poolVersionAtLastBuild ≠ 0 → buildBuckets p.lengthsAtLastBuild p.k = some p.buckets

variable {p p' : OptimalPadder}

theorem new_current (k rebuildInterval : Nat) : (new k rebuildInterval).Current where
  observations := rfl
  interval_pos := Nat.lt_of_lt_of_le Nat.one_pos (Nat.le_max_right _ _)
  initial _ := rfl
  built h := absurd rfl h

theorem Current.observeLength (h : p.Current) (len : Nat) : (p.observeLength len).Current where
  observations := by
    show p.observations + 1 = (p.lengthPool ++ [len]).length
    rw [List.length_append, List.length_singleton, h.observations]
  interval_pos := h.interval_pos
  initial := h.initial
  built hne := by
    have hle : p.poolVersionAtLastBuild ≤ p.lengthPool.length := h.observations ▸ p.version_le
    show buildBuckets ((p.lengthPool ++ [len]).take p.poolVersionAtLastBuild) p.k = _
    rw [List.take_append_of_le_length hle]
    exact h.built hne

/-- A table that is due is rebuilt from all lengths observed, and no other is touched. -/
theorem Current.rebuildIfDue (h : p.Current) : ∃ p', p.rebuildIfDue = some p' ∧ p'.Current ∧
    p'.lengthPool = p.lengthPool ∧ p'.poolVersionAtLastBuild =
      if p.rebuildInterval ≤ p.observations - p.poolVersionAtLastBuild then p.observations
      else p.poolVersionAtLastBuild := by
  unfold OptimalPadder.rebuildIfDue
  split
  · next hdue =>
    obtain ⟨bs, hbs, -, -⟩ := exists_buildBuckets p.lengthPool p.k_pos
    have hinterval := h.interval_pos
    rw [rebuild, hbs, Option.map_some]
    refine ⟨_, rfl, ⟨h.observations, h.interval_pos, fun hzero => ?_, fun _ => ?_⟩, rfl, rfl⟩
    · exact absurd (show p.observations = 0 from hzero) (by omega)
    · show buildBuckets (p.lengthPool.take p.observations) p.k = some bs
      rw [h.observations, List.take_length, hbs]
  · exact ⟨p, rfl, h, rfl, rfl⟩

theorem Current.step (h : p.Current) {c : Call} (hstep : p.step c = some p') : p'.Current := by
  cases c with
  | observeLength len =>
      obtain rfl := Option.some.inj hstep
      exact h.observeLength len
  | padLength trueLen =>
      obtain ⟨⟨padded, p''⟩, hpad, rfl⟩ := Option.map_eq_some_iff.mp hstep
      obtain ⟨q, hq, hcur, -⟩ := h.rebuildIfDue
      rw [OptimalPadder.padLength, hq, Option.map_some] at hpad
      obtain ⟨-, rfl⟩ := Prod.mk.inj (Option.some.inj hpad)
      exact hcur

/-- The lengths that are not shortened: those up to the largest one observed at the last
    rebuild, or up to the bound of the initial bucket. -/
def Covers (p : OptimalPadder) (len : Nat) : Prop :=
  if p.poolVersionAtLastBuild = 0 then len ≤ SizeBucket.initial.hi
  else ∃ seen ∈ p.lengthsAtLastBuild, len ≤ seen

/-- What the table in use does not shorten is what it covers. -/
theorem Current.le_optimalPadLength_iff (h : p.Current) (len : Nat) :
    len ≤ optimalPadLength len p.buckets ↔ p.Covers len := by
  unfold Covers
  split
  · next hzero =>
    rw [h.initial hzero, MixTor.le_optimalPadLength_iff (List.cons_ne_nil _ _)
      (List.forall_mem_singleton.mpr rfl)]
    simp
  · next hne =>
    have hbuild := h.built hne
    have hlengths : p.lengthsAtLastBuild ≠ [] := by
      rw [lengthsAtLastBuild, ← List.length_pos_iff, List.length_take, ← h.observations]
      have := p.version_le
      omega
    have hbuilt := buildBuckets_built hlengths hbuild
    obtain ⟨_, hsome, hbs, -⟩ := exists_buildBuckets p.lengthsAtLastBuild p.k_pos
    obtain rfl := Option.some.inj (hsome.symm.trans hbuild)
    rw [MixTor.le_optimalPadLength_iff hbs hbuilt.target]
    exact hbuilt.exists_le_hi_iff p.k_pos len

/-- A call of `pad_length` in this state: it returns, shortens exactly what the table does
    not cover, and has rebuilt the table if it was due. -/
def PadsCovered (p : OptimalPadder) : Prop :=
  ∀ len, ∃ padded p', p.padLength len = some (padded, p') ∧ (len ≤ padded ↔ p'.Covers len) ∧
    p'.lengthPool = p.lengthPool ∧ p'.poolVersionAtLastBuild =
      if p.rebuildInterval ≤ p.lengthPool.length - p.poolVersionAtLastBuild
      then p.lengthPool.length else p.poolVersionAtLastBuild

theorem Current.padsCovered (h : p.Current) : p.PadsCovered := by
  intro len
  obtain ⟨p', hdue, hcur, hpool, hversion⟩ := h.rebuildIfDue
  refine ⟨_, p', ?_, hcur.le_optimalPadLength_iff len, hpool, h.observations ▸ hversion⟩
  rw [OptimalPadder.padLength, hdue]
  rfl

/-- **Padding.**  In every state of every run, `pad_length` returns at least the length it is
    given exactly if that is no longer than the longest length observed by the last
    rebuild, which comes first where it is due. -/
theorem always_padsCovered (k rebuildInterval : Nat) (calls : List Call) :
    Machine.Always step PadsCovered (new k rebuildInterval) calls :=
  (Machine.always_of_invariant (fun _ _ _ h => h.step) (new_current k rebuildInterval) calls).mono
    fun _ h => h.padsCovered

/-- A length observed behind the last rebuild is cut to the largest one before it. -/
theorem padLength_shortens :
    ∃ p, Machine.run step (new 1 2) [.observeLength 100, .observeLength 100, .padLength 100,
        .observeLength 1400] = some p ∧
      1400 ∈ p.lengthPool ∧ (p.padLength 1400).map Prod.fst = some 100 :=
  ⟨_, rfl, by decide, by decide⟩

end OptimalPadder

end MixTor
