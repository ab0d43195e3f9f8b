/-
  MixTor.Shaping.OptimalPadder

  Packet lengths and what is made of them: the composer's ring of recent lengths
  (composition.rs), and size-bucket padding (optimal_padding.rs).

  The bucket table is rebuilt from the quantiles of all lengths seen, and every
  packet is padded to the largest length of its bucket.
-/

import MixTor.Shaping.Burst
import MixTor.Lib.Slices
import Mathlib.Data.List.Sort

namespace MixTor

-- ============================================================================
-- The ring of recent lengths
-- ============================================================================

/-- `LENGTH_POOL_CAP`. -/
def lengthPoolCap : Nat := 16

/-- The last `lengthPoolCap` lengths; `pos` is the entry to overwrite next. -/
structure LengthPool where
  lens : List Nat
  pos : Nat
  lens_le : lens.length ≤ lengthPoolCap
  pos_lt : pos < lengthPoolCap
  deriving DecidableEq

namespace LengthPool

def empty : LengthPool := ⟨[], 0, by decide, by decide⟩

/-- `ingest_length`. -/
def ingest (pool : LengthPool) (len : Nat) : LengthPool :=
  if h : pool.lens.length < lengthPoolCap then
    { pool with
      lens := pool.lens ++ [len]
      lens_le := by
        rw [List.length_append, List.length_singleton]
        omega }
  else
    { lens := pool.lens.set pool.pos len
      pos := (pool.pos + 1) % lengthPoolCap
      lens_le := by
        rw [List.length_set]
        exact pool.lens_le
      pos_lt := Nat.mod_lt _ (by decide) }

/-- `iter().sum::<usize>()`. -/
def sum (pool : LengthPool) : Nat := (pool.lens.foldl (· + ·) 0) % 2 ^ 64

end LengthPool

-- ============================================================================
-- Buckets
-- ============================================================================

/-- All packets with a length in `[lo, hi]` are padded to `target`. -/
structure SizeBucket where
  lo : Nat
  hi : Nat
  target : Nat
  deriving DecidableEq, Repr

/-- The bucket of a padder that has seen nothing. -/
def SizeBucket.initial : SizeBucket := ⟨0, 65535, 65535⟩

/-- Bucket `i` of `k` over the sorted lengths; the last one takes the remainder. -/
def quantileBucket (sorted : List Nat) (k i : Nat) : Option SizeBucket := do
  let chunk := sorted.length / k
  let stop := if i = k - 1 then sorted.length else (i + 1) * chunk
  let lo ← sorted[i * chunk]?
  let hi ← sorted[stop - 1]?
  return ⟨lo, hi, hi⟩

/-- Partition the lengths into `k` equal-count quantile buckets. -/
def buildBuckets (lengths : List Nat) (k : Nat) : Option (List SizeBucket) :=
  if k = 0 then none
  else if lengths = [] then some [.initial]
  else
    let sorted := lengths.insertionSort (· ≤ ·)
    let kActual := min k sorted.length
    (List.range kActual).mapM (quantileBucket sorted kActual)

/-- The padded length: that of the first bucket that covers `trueLen`, or of the last. -/
def optimalPadLength (trueLen : Nat) (buckets : List SizeBucket) : Nat :=
  match buckets.find? fun b => trueLen ≤ b.hi with
  | some b => b.target
  | none => (buckets.getLast?.map SizeBucket.target).getD trueLen

/-- A quantile bucket of up to as many buckets as lengths exists, and pads to one of
    the lengths. -/
theorem exists_quantileBucket {sorted : List Nat} {k i : Nat} (hk : k ≤ sorted.length)
    (hi : i < k) : ∃ b, quantileBucket sorted k i = some b ∧ b.target ∈ sorted := by
  have hchunk : 0 < sorted.length / k := Nat.div_pos hk (by omega)
  have hmul : k * (sorted.length / k) ≤ sorted.length := Nat.mul_div_le _ _
  have hlo : i * (sorted.length / k) + sorted.length / k ≤ k * (sorted.length / k) := by
    rw [← Nat.succ_mul]
    exact Nat.mul_le_mul_right _ hi
  have hstop : (if i = k - 1 then sorted.length else (i + 1) * (sorted.length / k)) - 1
      < sorted.length := by
    split
    · omega
    · rw [Nat.succ_mul]
      omega
  obtain ⟨lo, hfirst⟩ : ∃ lo, sorted[i * (sorted.length / k)]? = some lo :=
    ⟨_, List.getElem?_eq_getElem (by omega)⟩
  obtain ⟨last, hlast, hmem⟩ : ∃ last, sorted[(if i = k - 1 then sorted.length
      else (i + 1) * (sorted.length / k)) - 1]? = some last ∧ last ∈ sorted :=
    ⟨_, List.getElem?_eq_getElem hstop, List.getElem_mem hstop⟩
  refine ⟨⟨lo, last, last⟩, ?_, hmem⟩
  rw [quantileBucket, hfirst, hlast]
  rfl

/-- **What `build_buckets` returns.**  There is a bucket, and every bucket pads to a
    length that was seen, or to the initial target. -/
theorem exists_buildBuckets (lengths : List Nat) {k : Nat} (hk : 0 < k) :
    ∃ bs, buildBuckets lengths k = some bs ∧ bs ≠ [] ∧
      ∀ b ∈ bs, b.target ∈ SizeBucket.initial.target :: lengths := by
  unfold buildBuckets
  rw [if_neg (by omega)]
  split
  · exact ⟨_, rfl, List.cons_ne_nil _ _, by simp⟩
  · next hne =>
    have hpos : 0 < lengths.length := List.length_pos_iff.mpr hne
    obtain ⟨bs, hbs, hlen, hmem⟩ := Slices.exists_mapM
      (l := List.range (min k (lengths.insertionSort (· ≤ ·)).length))
      (f := quantileBucket (lengths.insertionSort (· ≤ ·))
        (min k (lengths.insertionSort (· ≤ ·)).length))
      fun i hi => exists_quantileBucket (Nat.min_le_right _ _) (List.mem_range.mp hi)
    refine ⟨bs, hbs, ?_, fun b hb => List.mem_cons_of_mem _ ?_⟩
    · rw [List.length_range, List.length_insertionSort] at hlen
      exact List.ne_nil_of_length_pos (by omega)
    · exact (List.mem_insertionSort _).mp (hmem b hb)

/-- A table with a bucket pads to one of its targets. -/
theorem optimalPadLength_mem {buckets : List SizeBucket} (h : buckets ≠ []) (trueLen : Nat) :
    ∃ b ∈ buckets, optimalPadLength trueLen buckets = b.target := by
  unfold optimalPadLength
  split
  · next b hb => exact ⟨b, List.mem_of_find?_eq_some hb, rfl⟩
  · refine ⟨buckets.getLast h, List.getLast_mem h, ?_⟩
    rw [List.getLast?_eq_some_getLast h]
    rfl

-- ============================================================================
-- The padder
-- ============================================================================

/-- All lengths seen and the bucket table, which is rebuilt lazily. -/
structure OptimalPadder where
  k : Nat
  lengthPool : List Nat
  buckets : List SizeBucket
  poolVersionAtLastBuild : Nat
  rebuildInterval : Nat
  observations : Nat
  k_pos : 0 < k
  version_le : poolVersionAtLastBuild ≤ observations
  deriving DecidableEq

namespace OptimalPadder

def new (k rebuildInterval : Nat) : OptimalPadder where
  k := max k 1
  lengthPool := []
  buckets := [.initial]
  poolVersionAtLastBuild := 0
  rebuildInterval := max rebuildInterval 1
  observations := 0
  k_pos := Nat.lt_of_lt_of_le Nat.one_pos (Nat.le_max_right _ _)
  version_le := le_rfl

def observeLength (p : OptimalPadder) (len : Nat) : OptimalPadder :=
  { p with
    lengthPool := p.lengthPool ++ [len]
    observations := p.observations + 1
    version_le := p.version_le.trans (Nat.le_succ _) }

def rebuild (p : OptimalPadder) : Option OptimalPadder :=
  (buildBuckets p.lengthPool p.k).map fun buckets =>
    { p with buckets, poolVersionAtLastBuild := p.observations, version_le := le_rfl }

/-- Rebuild the table if it has grown old enough. -/
def rebuildIfDue (p : OptimalPadder) : Option OptimalPadder :=
  if p.rebuildInterval ≤ p.observations - p.poolVersionAtLastBuild then p.rebuild else some p

/-- The padded length of a packet of `trueLen` bytes. -/
def padLength (p : OptimalPadder) (trueLen : Nat) : Option (Nat × OptimalPadder) :=
  p.rebuildIfDue.map fun p => (optimalPadLength trueLen p.buckets, p)

/-- The lengths seen and the targets of the table are at most `n`. -/
structure Bounded (p : OptimalPadder) (n : Nat) : Prop where
  initial_le : SizeBucket.initial.target ≤ n
  lengthPool_le : ∀ len ∈ p.lengthPool, len ≤ n
  buckets_ne : p.buckets ≠ []
  target_le : ∀ b ∈ p.buckets, b.target ≤ n

variable {p : OptimalPadder} {n : Nat}

theorem new_bounded (k rebuildInterval : Nat) (hn : SizeBucket.initial.target ≤ n) :
    (new k rebuildInterval).Bounded n where
  initial_le := hn
  lengthPool_le := List.forall_mem_nil _
  buckets_ne := List.cons_ne_nil _ _
  target_le := List.forall_mem_singleton.mpr hn

theorem Bounded.observeLength (h : p.Bounded n) {len : Nat} (hlen : len ≤ n) :
    (p.observeLength len).Bounded n where
  initial_le := h.initial_le
  lengthPool_le l hl := by
    rcases List.mem_append.mp hl with hl | hl
    · exact h.lengthPool_le l hl
    · rw [List.mem_singleton.mp hl]
      exact hlen
  buckets_ne := h.buckets_ne
  target_le := h.target_le

theorem Bounded.exists_rebuildIfDue (h : p.Bounded n) :
    ∃ p', p.rebuildIfDue = some p' ∧ p'.Bounded n := by
  unfold rebuildIfDue
  split
  · obtain ⟨bs, hbs, hne, hmem⟩ := exists_buildBuckets p.lengthPool p.k_pos
    rw [rebuild, hbs]
    refine ⟨_, rfl, h.initial_le, h.lengthPool_le, hne, fun b hb => ?_⟩
    rcases List.mem_cons.mp (hmem b hb) with heq | hin
    · rw [heq]
      exact h.initial_le
    · exact h.lengthPool_le _ hin
  · exact ⟨p, rfl, h⟩

/-- A bounded padder pads within its bound. -/
theorem Bounded.exists_padLength (h : p.Bounded n) (trueLen : Nat) :
    ∃ len p', p.padLength trueLen = some (len, p') ∧ len ≤ n ∧ p'.Bounded n := by
  obtain ⟨p', hp', hb⟩ := h.exists_rebuildIfDue
  obtain ⟨b, hmem, hlen⟩ := optimalPadLength_mem hb.buckets_ne trueLen
  rw [padLength, hp']
  refine ⟨_, p', rfl, ?_, hb⟩
  rw [hlen]
  exact hb.target_le b hmem

end OptimalPadder

end MixTor
