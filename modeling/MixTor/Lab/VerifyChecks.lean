/-
  MixTor.Lab.VerifyChecks

  The checks of the verification binary (bin/verify.rs): statistics of two simulated
  sessions, each against a limit.

  The composer fills cells of one size, so the bytes of a burst are its frames in another
  unit, and the check of the byte volume measures what the check of the packet count
  measures, against a wider limit.
-/

import MixTor.Lab.Pearson
import MixTor.Shaping.VerifySession

namespace MixTor

variable {K : Type} [Field K] [LinearOrder K]

-- ============================================================================
-- Samples
-- ============================================================================

structure SessionSample where
  delaysMs : List Rat
  dummyRatios : List Rat
  realPacketCounts : List Rat
  mixedPacketCounts : List Rat
  realByteCounts : List Rat
  mixedByteCounts : List Rat
  realPrefixRate : Rat
  bursts : Nat

namespace MixedBurst

def totalBytes (m : MixedBurst) : Nat := (m.frames.map MixedFrame.len).sum

/-- The bytes of the real frames. -/
def realBytes (m : MixedBurst) : Nat := (m.packets.map Packet.len).sum

end MixedBurst

/-- The loop of `real_frames_are_prefix`. -/
def realFramesArePrefixFrom (sawDummy : Bool) (realCount : Nat) : List MixedFrame → Bool
  | [] => decide (0 < realCount) && sawDummy
  | .real _ :: frames =>
      if sawDummy then false else realFramesArePrefixFrom sawDummy (realCount + 1) frames
  | .dummy _ :: frames => realFramesArePrefixFrom true realCount frames

def realFramesArePrefix (frames : List MixedFrame) : Bool := realFramesArePrefixFrom false 0 frames

/-- What `simulate_session` pushes for each burst, and its last lines. -/
def SessionSample.of (F : F64) (bursts : List SampledBurst) : SessionSample where
  delaysMs := bursts.map fun b => SeedATimingScheduler.millis F b.decision.delay
  dummyRatios := bursts.map fun b =>
    F.round (F.round (b.mixed.dummyPackets : ℕ) / F.round (b.mixed.realPackets : ℕ))
  realPacketCounts := bursts.map fun b => F.round (b.mixed.realPackets : ℕ)
  mixedPacketCounts := bursts.map fun b => F.round (b.mixed.totalPackets : ℕ)
  realByteCounts := bursts.map fun b => F.round (b.mixed.realBytes : ℕ)
  mixedByteCounts := bursts.map fun b => F.round (b.mixed.totalBytes : ℕ)
  realPrefixRate :=
    F.round (F.round (bursts.countP fun b => realFramesArePrefix b.mixed.frames : ℕ)
      / F.round (max bursts.length 1 : ℕ))
  bursts := bursts.length

-- ============================================================================
-- Statistics
-- ============================================================================

namespace Verify

/-- `mean`. -/
def mean (A : Arith K) (values : List K) : K :=
  A.div (A.sum values) (A.round (max values.length 1 : ℕ))

/-- `pearson`. -/
def pearson (A : Arith K) (left right : List Rat) : K :=
  let len := min left.length right.length
  if len < 2 then 0
  else
    let left : List K := (left.take len).map fun x : Rat => (x : K)
    let right : List K := (right.take len).map fun x : Rat => (x : K)
    let m := (left.zip right).foldl (Moments.add A (mean A left) (mean A right)) ⟨0, 0, 0⟩
    let denominator := A.mul (A.sqrt m.da2) (A.sqrt m.db2)
    if denominator = 0 then 0 else A.div m.num denominator

/-- The chunks of `window` values; a shorter last one is skipped. -/
def fullChunks {α : Type} (window : Nat) (values : List α) : List (List α) :=
  if _h : 0 < window ∧ window ≤ values.length then
    values.take window :: fullChunks window (values.drop window)
  else []
termination_by values.length
decreasing_by
  rw [List.length_drop]
  omega

/-- `window_mean_range`: the largest mean of a chunk minus the smallest. -/
def windowMeanRange (A : Arith K) (values : List Rat) (window : Nat) : K :=
  if values.length < window ∨ window = 0 then 0
  else
    match (fullChunks window values).map fun chunk => mean A (chunk.map fun x : Rat => (x : K)) with
    | [] => 0
    | first :: rest => A.sub (rest.foldl max first) (rest.foldl min first)

/-- The binary and the analysis compute one coefficient. -/
theorem pearson_eq (A : Arith K) (left right : List Rat) :
    pearson A left right = MixTor.pearson A left right := by
  have hmean : ∀ xs : List K, xs ≠ [] → mean A xs = MixTor.mean A xs := by
    intro xs hne
    have hlen : max xs.length 1 = xs.length := by
      have := List.length_pos_iff.mpr hne
      omega
    rw [mean, hlen, MixTor.mean, List.isEmpty_eq_false_iff.mpr hne]
    rfl
  unfold pearson MixTor.pearson
  dsimp only
  split
  · rfl
  · next hlong =>
    have htake : ∀ xs : List Rat, min left.length right.length ≤ xs.length →
        (xs.take (min left.length right.length)).map (fun x : Rat => (x : K)) ≠ [] := by
      intro xs hle
      rw [← List.length_pos_iff, List.length_map, List.length_take]
      omega
    rw [hmean _ (htake left (Nat.min_le_left ..)), hmean _ (htake right (Nat.min_le_right ..))]

-- ============================================================================
-- Checks
-- ============================================================================

structure Check (K : Type) where
  name : String
  value : K
  limit : K
  passesWhenBelow : Bool

def Check.passed (c : Check K) : Bool :=
  if c.passesWhenBelow then decide (c.value < c.limit) else decide (c.limit < c.value)

/-- The results that `main` prints. -/
def results (A : Arith K) (first second : SessionSample) : List (Check K) :=
  [⟨"non-stationarity across sessions: delay correlation",
      |pearson A first.delaysMs second.delaysMs|, A.round (35 / 100), true⟩,
    ⟨"non-stationarity across sessions: dummy-ratio correlation",
      |pearson A first.dummyRatios second.dummyRatios|, A.round (35 / 100), true⟩,
    ⟨"burst packet-count decoupling",
      |pearson A first.realPacketCounts first.mixedPacketCounts|, A.round (92 / 100), true⟩,
    ⟨"burst byte-volume decoupling",
      |pearson A first.realByteCounts first.mixedByteCounts|, A.round (96 / 100), true⟩,
    ⟨"dummy-ratio window drift", windowMeanRange A first.dummyRatios 64, A.round (35 / 100),
      false⟩,
    ⟨"packet-order prefix leakage rate", (first.realPrefixRate : Rat), A.round (35 / 100), true⟩]

/-- The verdict of `main`. -/
def failed (checks : List (Check K)) : Bool := checks.any fun c => !c.passed

end Verify

-- ============================================================================
-- Cells
-- ============================================================================

theorem MixedFrame.len_packet? {f : MixedFrame} {p : Packet} (h : f.packet? = some p) :
    p.len = f.len := by
  cases f with
  | real q =>
      obtain rfl := Option.some.inj h
      rfl
  | dummy b => cases h

/-- Bytes are packets and frames in cells. -/
theorem SampledBurst.Sampled.bytes {b : SampledBurst} (h : b.Sampled) :
    b.mixed.realBytes = 514 * b.mixed.realPackets ∧
      b.mixed.totalBytes = 514 * b.mixed.totalPackets := by
  have hsum : ∀ lens : List Nat, (∀ n ∈ lens, n = 514) → lens.sum = 514 * lens.length := by
    intro lens hlens
    rw [List.eq_replicate_of_mem hlens, List.sum_replicate, List.length_replicate, smul_eq_mul,
      Nat.mul_comm]
  constructor
  · rw [MixedBurst.realBytes, hsum, List.length_map, h.real]
    intro n hn
    obtain ⟨p, hp, rfl⟩ := List.mem_map.mp hn
    obtain ⟨f, hf, hpacket⟩ := List.mem_filterMap.mp hp
    rw [MixedFrame.len_packet? hpacket, h.cells f hf]
  · rw [MixedBurst.totalBytes, hsum, List.length_map, MixedBurst.totalPackets]
    intro n hn
    obtain ⟨f, hf, rfl⟩ := List.mem_map.mp hn
    exact h.cells f hf

/-- The byte series are the packet series in another unit. -/
theorem SessionSample.byteCounts {F : F64} (hF : F.Lawful) {bursts : List SampledBurst}
    (h : ∀ b ∈ bursts, b.Sampled) :
    (of F bursts).realByteCounts = (of F bursts).realPacketCounts.map (514 * ·) ∧
      (of F bursts).mixedByteCounts = (of F bursts).mixedPacketCounts.map (514 * ·) := by
  have hround : ∀ n ≤ 39, F.round ((514 * n : ℕ) : Rat) = 514 * F.round (n : ℕ) := by
    intro n hn
    rw [hF.round_natCast _ (by omega), hF.round_natCast _ (by omega), Nat.cast_mul]
    rfl
  simp only [of, List.map_map]
  constructor
  · refine List.map_congr_left fun b hb => ?_
    have hle := (h b hb).real_le
    rw [(h b hb).bytes.1, Function.comp_apply, hround _ (by omega)]
  · refine List.map_congr_left fun b hb => ?_
    have hreal := (h b hb).real_le
    have hdummy := (h b hb).dummy_le
    have htotal := (h b hb).total
    rw [(h b hb).bytes.2, Function.comp_apply, hround _ (by omega)]

-- ============================================================================
-- The byte check
-- ============================================================================

namespace Verify

variable [IsStrictOrderedRing K] {A : Arith K}

/-- **The byte check decides nothing.**  For every simulated session, in exact arithmetic,
    its value is that of the packet check; so the verdict is that of the other five
    checks. -/
theorem byteCheck_redundant {ρ : Type} [DistrRng ρ] {F : F64} (hF : F.Nearest) (hA : A.Exact)
    {H : Crypto.Blake3} {seeds : SessionSeeds} {clk : Clock} {packets : List Packet}
    {bursts : List SampledBurst} (hfits : ∀ p ∈ packets, p.len ≤ isizeMax)
    (hsim : simulateSession ρ F H seeds clk packets = some (.ok bursts)) (second : SessionSample) :
    ((results A (.of F bursts) second)[3]?).map Check.value
        = ((results A (.of F bursts) second)[2]?).map Check.value ∧
      failed (results A (.of F bursts) second)
        = failed ((results A (.of F bursts) second).eraseIdx 3) := by
  obtain ⟨s, rfl, hmixing⟩ := mixing_of_simulateSession hF hfits hsim
  obtain ⟨hreal, hmixed⟩ := SessionSample.byteCounts hF.toLawful hmixing.sampled
  have hvalue : pearson A (SessionSample.of F s.bursts).realByteCounts
      (SessionSample.of F s.bursts).mixedByteCounts
      = pearson A (SessionSample.of F s.bursts).realPacketCounts
        (SessionSample.of F s.bursts).mixedPacketCounts := by
    rw [pearson_eq, pearson_eq, hreal, hmixed]
    exact pearson_scale hA (by norm_num) (by norm_num) _ _
  have hlimit : ∀ v : K, v < A.round (92 / 100) → v < A.round (96 / 100) := by
    intro v hv
    rw [hA.round_eq] at hv ⊢
    exact hv.trans (by norm_num)
  refine ⟨congrArg (fun x => some |x|) hvalue, ?_⟩
  simp only [failed, results, List.eraseIdx_cons_succ, List.eraseIdx_cons_zero, List.any_cons,
    List.any_nil, Check.passed, if_true, hvalue]
  by_cases hpass : |pearson A (SessionSample.of F s.bursts).realPacketCounts
      (SessionSample.of F s.bursts).mixedPacketCounts| < A.round (92 / 100)
  · -- what is below the narrow limit is below the wide one
    simp only [hpass, hlimit _ hpass, decide_true, Bool.not_true, Bool.false_or]
  · simp only [hpass, decide_false, Bool.not_false, Bool.true_or, Bool.or_true]

/-- The checks of a session as the binary simulates it, against itself. -/
theorem byteCheck_redundant_synthetic :
    ∃ seeds bursts, simulateSession EndRng .steep (.fill 2) seeds (.const 0) syntheticPackets
        = some (.ok bursts) ∧
      failed (results realArith (.of .steep bursts) (.of .steep bursts))
        = failed ((results realArith (.of .steep bursts) (.of .steep bursts)).eraseIdx 3) := by
  obtain ⟨seeds, -, composer, clk', hnew⟩ := exists_sampleComposer
  obtain ⟨s, hs, hsim⟩ := exists_session _ _ _ _ hnew
  obtain ⟨t, hrun, -⟩ := hs.run F64.steep_nearest clk'.now syntheticPackets_fit
  have hbursts : simulateSession EndRng .steep (.fill 2) seeds (.const 0) syntheticPackets
      = some (.ok t.bursts) := by
    rw [hsim, hrun]
    rfl
  exact ⟨seeds, t.bursts, hbursts,
    (byteCheck_redundant F64.steep_nearest realArith_exact syntheticPackets_fit hbursts _).2⟩

end Verify

end MixTor
