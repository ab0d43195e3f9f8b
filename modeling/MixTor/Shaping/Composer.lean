/-
  MixTor.Shaping.Composer

  The burst path of the `SeedBComposer` (composition.rs): how many dummies a burst
  gets, where they stand among its packets, and what of it is booked.

  The regime draws a number of dummies from its own range, which is cut at the top
  by the configured maximum; the DP shaper may ask for more.  Arithmetic on machine
  words wraps as it does in a release build, and a vector of more than `isize::MAX`
  bytes panics.  Operations that can panic return an `Option`.
-/

import MixTor.Shaping.CoverBudget
import MixTor.Shaping.OptimalPadder
import MixTor.Shaping.Spectral

namespace MixTor

open Crypto (Bytes Blake3)

-- ============================================================================
-- Regimes
-- ============================================================================

/-- The four traffic-cover personalities. -/
inductive RatioDistributionKind where
  | sparse
  | balanced
  | heavyCover
  | spiky
  deriving DecidableEq, Repr

/-- The inclusive range of the number of dummies for one burst. -/
def RatioDistributionKind.dummyCountRange : RatioDistributionKind → Nat × Nat
  | sparse => (0, 1)
  | balanced => (3, 8)
  | heavyCover => (10, 18)
  | spiky => (12, 20)

structure RatioSwitchThreshold where
  bursts : Nat
  realBytes : Nat
  realPackets : Nat
  deriving DecidableEq, Repr

structure RatioRegime where
  kind : RatioDistributionKind
  switchAfter : RatioSwitchThreshold
  dummyLo : Nat
  dummyHi : Nat
  /-- The draw is bimodal (74% low). -/
  spiky : Bool
  deriving DecidableEq, Repr

-- ============================================================================
-- Configuration
-- ============================================================================

/-- `CompositionConfig` with the fields of the burst path. -/
structure BurstConfig extends CompositionConfig where
  minSwitchBursts : Nat
  maxSwitchBursts : Nat
  minSwitchRealBytes : Nat
  maxSwitchRealBytes : Nat
  minSwitchRealPackets : Nat
  maxSwitchRealPackets : Nat
  keepaliveMinBytes : Nat
  keepaliveMaxBytes : Nat
  dpShaper : Option DpShaperConfig
  sessionClass : Option SessionClass
  paddingBuckets : Nat

/-- `CompositionError` with the error of the constructor. -/
inductive ComposerError where
  | composition (e : CompositionError)
  | wrongSeedRole (expected actual : SeedRole)
  deriving DecidableEq, Repr

namespace BurstConfig

def default : BurstConfig :=
  { CompositionConfig.default with
    minSwitchBursts := 180
    maxSwitchBursts := 800
    minSwitchRealBytes := 4 * 1024 * 1024
    maxSwitchRealBytes := 32 * 1024 * 1024
    minSwitchRealPackets := 4096
    maxSwitchRealPackets := 32768
    keepaliveMinBytes := 100
    keepaliveMaxBytes := 1400
    dpShaper := some .default
    sessionClass := none
    paddingBuckets := 4 }

/-- What `validate` checks. -/
structure Valid (c : BurstConfig) : Prop where
  maxDummyPackets_pos : 0 < c.maxDummyPacketsPerBurst
  minSwitchBursts_pos : 0 < c.minSwitchBursts
  minSwitchRealBytes_pos : 0 < c.minSwitchRealBytes
  minSwitchRealPackets_pos : 0 < c.minSwitchRealPackets
  switchBursts_le : c.minSwitchBursts ≤ c.maxSwitchBursts
  switchRealBytes_le : c.minSwitchRealBytes ≤ c.maxSwitchRealBytes
  switchRealPackets_le : c.minSwitchRealPackets ≤ c.maxSwitchRealPackets
  maxIdleGapMs_pos : 0 < c.maxIdleGapMs
  keepaliveMinBytes_pos : 0 < c.keepaliveMinBytes
  keepaliveBytes_le : c.keepaliveMinBytes ≤ c.keepaliveMaxBytes
  paddingBuckets_pos : 0 < c.paddingBuckets
  cellBytes_ne : c.cellBytes ≠ some 0

def validate (c : BurstConfig) : Except CompositionError BurstConfig :=
  if c.maxDummyPacketsPerBurst = 0 then
    .error (.invalidConfig "maximum dummy packets must be non-zero")
  else if c.minSwitchBursts = 0 ∨ c.minSwitchRealBytes = 0 ∨ c.minSwitchRealPackets = 0 then
    .error (.invalidConfig "ratio switch thresholds must be non-zero")
  else if c.maxSwitchBursts < c.minSwitchBursts then
    .error (.invalidConfig "minimum switch bursts cannot exceed maximum switch bursts")
  else if c.maxSwitchRealBytes < c.minSwitchRealBytes then
    .error (.invalidConfig "minimum switch bytes cannot exceed maximum switch bytes")
  else if c.maxSwitchRealPackets < c.minSwitchRealPackets then
    .error (.invalidConfig "minimum switch packets cannot exceed maximum switch packets")
  else if c.maxIdleGapMs = 0 then .error (.invalidConfig "max idle gap must be non-zero")
  else if c.keepaliveMinBytes = 0 ∨ c.keepaliveMaxBytes < c.keepaliveMinBytes then
    .error (.invalidConfig "keepalive byte range is invalid")
  else if c.paddingBuckets = 0 then .error (.invalidConfig "padding_buckets must be non-zero")
  else if c.cellBytes = some 0 then .error (.invalidConfig "cell_bytes must be non-zero")
  else .ok c

/-- `validate` accepts exactly the valid configurations and returns them as they are. -/
theorem validate_eq_ok {c c' : BurstConfig} : c.validate = .ok c' ↔ c.Valid ∧ c' = c := by
  simp only [validate, guard_eq_ok, not_or, not_lt, ← Nat.pos_iff_ne_zero]
  constructor
  · rintro ⟨h1, ⟨h2, h3, h4⟩, h5, h6, h7, h8, ⟨h9, h10⟩, h11, h12, h⟩
    exact ⟨⟨h1, h2, h3, h4, h5, h6, h7, h8, h9, h10, h11, h12⟩, (Except.ok.inj h).symm⟩
  · rintro ⟨⟨h1, h2, h3, h4, h5, h6, h7, h8, h9, h10, h11, h12⟩, rfl⟩
    exact ⟨h1, ⟨h2, h3, h4⟩, h5, h6, h7, h8, ⟨h9, h10⟩, h11, h12, rfl⟩

end BurstConfig

variable {ρ : Type} [Rng ρ]

/-- Draw the kind of a regime. -/
def drawKind (rng : ρ) : Option (RatioDistributionKind × ρ) := do
  let (n, rng) ← genRange 0 19 rng
  return (if n ≤ 2 then .sparse else if n ≤ 8 then .balanced else if n ≤ 15 then .heavyCover
    else .spiky, rng)

/-- Draw when a regime ends. -/
def drawSwitchAfter (config : BurstConfig) (rng : ρ) : Option (RatioSwitchThreshold × ρ) := do
  let (bursts, rng) ← genRange config.minSwitchBursts config.maxSwitchBursts rng
  let (realBytes, rng) ← genRange config.minSwitchRealBytes config.maxSwitchRealBytes rng
  let (realPackets, rng) ← genRange config.minSwitchRealPackets config.maxSwitchRealPackets rng
  return (⟨bursts, realBytes, realPackets⟩, rng)

/-- Draw the next regime.  The top of its range is cut at the maximum, the bottom is not. -/
def nextRegime (config : BurstConfig) (rng : ρ) : Option (RatioRegime × ρ) := do
  let (kind, rng) ← drawKind rng
  let (switchAfter, rng) ← drawSwitchAfter config rng
  let (lo, hi) := kind.dummyCountRange
  return (⟨kind, switchAfter, lo, min hi config.maxDummyPacketsPerBurst, kind = .spiky⟩, rng)

-- ============================================================================
-- Mixed bursts
-- ============================================================================

structure MixedBurst where
  frames : List MixedFrame
  ratioRegime : RatioRegime
  realPackets : Nat
  dummyPackets : Nat
  deriving DecidableEq, Repr

def MixedBurst.totalPackets (m : MixedBurst) : Nat := m.frames.length

/-- Allocate `n` elements of `size` bytes; more than `isize::MAX` bytes panic. -/
def allocate (n size : Nat) : Option Unit := if n * size < 2 ^ 63 then some () else none

/-- Grow a packet of `len` bytes to a cell; one that is long enough is not moved. -/
def allocateCell (cell len : Nat) : Option Unit :=
  if len < cell then allocate cell 1 else some ()

/-- The size of a `MixedFrame` in memory. -/
def frameSize : Nat := 32

/-- The bytes of the dummies among the frames. -/
def dummyBytes (frames : List MixedFrame) : Nat :=
  (frames.filter MixedFrame.isDummy).foldl (fun sum f => sum + f.len) 0

-- ============================================================================
-- The composer
-- ============================================================================

/-- `SeedBComposer` with its burst path.  Its configuration was validated when it was
    built. -/
structure BurstComposer (ρ : Type) where
  config : BurstConfig
  rng : ρ
  regime : RatioRegime
  burstsInRegime : Nat
  realBytesInRegime : Nat
  realPacketsInRegime : Nat
  lastBurstAt : Instant
  spectralIat : SpectralIatGenerator ρ
  nextKeepaliveDue : Instant
  lengthPool : LengthPool
  observedRealIatMs : Double
  lastRealBurstAt : Option Instant
  optimalPadder : OptimalPadder
  dpShaper : Option (DpShaper ρ)
  sessionBounder : Option SessionBounder
  dummyBytesEmitted : Nat
  accountant : PrivacyAccountant
  selfTester : SelfTester
  frameClockMs : Nat
  config_valid : config.Valid

namespace BurstComposer

/-- Draw the next delay and set the keepalive deadline. -/
def resetKeepaliveDeadline (F : F64) (clk : Clock) (c : BurstComposer ρ) :
    Option (BurstComposer ρ × Clock) := do
  let spectralIat ← c.spectralIat.setTargetIatMs c.observedRealIatMs
  let (delayMs, spectralIat) ← spectralIat.nextDelayMs F
  let clamped := delayMs.min (.ofNat F c.config.maxIdleGapMs)
  return ({ c with
    spectralIat
    nextKeepaliveDue := clk.now + Duration.fromMillis (max clamped.roundAsUsize 1) }, clk.later)

/-- The delay generator of a new composer. -/
def spectralConfig (F : F64) (config : BurstConfig) : SpectralConfig where
  targetIatMs := .ofNat F config.maxIdleGapMs
  laplaceScaleMs := .mul F (.ofNat F config.maxIdleGapMs) (.finite (F.round 0.1))
  floorMs := .finite 10
  ceilingMs := .mul F (.ofNat F config.maxIdleGapMs) (.finite 2)
  similarityRejectionFraction := .finite (F.round 0.10)
  maxRejections := 8

/-- The DP shaper of a new composer, if it has one. -/
def newDpShaper (H : Blake3) (seed : RoleSeed) (config : BurstConfig) :
    Except DpShaperError (Option (DpShaper ρ)) :=
  match config.dpShaper with
  | none => .ok none
  | some cfg => (DpShaper.new cfg (RngCore.fromSeed (seed.deriveRngSeed H "mixtor.dp.v1"))).map some

/-- The session bounder of a new composer, if it has one. -/
def newSessionBounder (clk : Clock) (config : BurstConfig) : Option SessionBounder × Clock :=
  match config.sessionClass with
  | none => (none, clk)
  | some cls =>
      let (bounder, clk) := SessionBounder.new clk cls
      (some bounder, clk)

/-- A composer that has seen no burst. -/
def fresh (F : F64) (clk : Clock) (config : BurstConfig) (hv : config.Valid) (rng : ρ)
    (regime : RatioRegime) (spectralIat : SpectralIatGenerator ρ) (dpShaper : Option (DpShaper ρ))
    (sessionBounder : Option SessionBounder) (accountant : PrivacyAccountant) :
    BurstComposer ρ where
  config
  rng
  regime
  burstsInRegime := 0
  realBytesInRegime := 0
  realPacketsInRegime := 0
  lastBurstAt := clk.now
  spectralIat
  nextKeepaliveDue := clk.later.now
  lengthPool := .empty
  observedRealIatMs := .ofNat F config.maxIdleGapMs
  lastRealBurstAt := none
  optimalPadder := .new config.paddingBuckets 32
  dpShaper
  sessionBounder
  dummyBytesEmitted := 0
  accountant
  selfTester := .new
  frameClockMs := 0
  config_valid := hv

/-- Build a composer from the seed of the burst-composition role. -/
def withConfig (F : F64) (H : Blake3) (clk : Clock) (seed : RoleSeed) (config : BurstConfig) :
    Option (Except ComposerError (BurstComposer ρ × Clock)) :=
  if seed.role ≠ .burstComposition then
    some (.error (.wrongSeedRole .burstComposition seed.role))
  else
    match hval : config.validate with
    | .error e => some (.error (.composition e))
    | .ok config => do
        let (regime, rng) ←
          nextRegime config (RngCore.fromSeed (seed.deriveRngSeed H "mixtor.composition.v1"))
        match SpectralIatGenerator.new (spectralConfig F config)
            (RngCore.fromSeed (seed.deriveRngSeed H "mixtor.spectral.v1")) with
        | .error _ =>
            return .error (.composition (.invalidConfig
              "spectral IAT: invalid configuration"))
        | .ok spectralIat =>
            match newDpShaper H seed config with
            | .error _ => return .error (.composition (.invalidConfig "invalid DP shaper config"))
            | .ok dpShaper =>
                let (sessionBounder, clk) := newSessionBounder clk config
                let (accountant, clk) ← PrivacyAccountant.new clk (.finite 100) .basic
                have hv : config.Valid := by
                  obtain ⟨hv, rfl⟩ := BurstConfig.validate_eq_ok.mp hval
                  exact hv
                let composer ← resetKeepaliveDeadline F clk.later.later
                  (fresh F clk config hv rng regime spectralIat dpShaper sessionBounder accountant)
                return .ok composer

/-- Book the length of a packet three times in the ring, and once in the padder. -/
def ingestPacket (c : BurstComposer ρ) (packet : Packet) : BurstComposer ρ :=
  { c with
    lengthPool :=
      ((c.lengthPool.ingest packet.len).ingest packet.len).ingest packet.len
    optimalPadder := c.optimalPadder.observeLength packet.len }

def ingestPackets (c : BurstComposer ρ) (packets : List Packet) : BurstComposer ρ :=
  packets.foldl ingestPacket c

/-- The regime's number of dummies.  Three in four draws of the spiky regime are low. -/
def dummyCountAbsolute (c : BurstComposer ρ) : Option (Nat × BurstComposer ρ) := do
  let (raw, rng) ←
    if c.regime.spiky then
      let (low, rng) := Rng.genBool (37 / 50) c.rng
      if low then genRange 0 1 rng else genRange c.regime.dummyLo c.regime.dummyHi rng
    else genRange c.regime.dummyLo c.regime.dummyHi c.rng
  return (min raw c.config.maxDummyPacketsPerBurst, { c with rng })

/-- The mean packet length by which the shaper's bytes are divided. -/
def meanLen (c : BurstComposer ρ) : Nat :=
  if c.lengthPool.lens = [] then c.config.keepaliveMinBytes
  else c.lengthPool.sum / c.lengthPool.lens.length

/-- The number of dummies for a burst of `realBytes` bytes, charged to the budget. -/
def dummyCountForBurst (F : F64) (c : BurstComposer ρ) (realBytes : Nat) :
    Option (Nat × BurstComposer ρ) := do
  let (regimeCount, c) ← c.dummyCountAbsolute
  match c.dpShaper with
  | some dp =>
      let (decision, dp) := dp.decideWindow F realBytes
      let (_, accountant) ← c.accountant.recordQuery F decision.epsilonSpent
      let dpCount := decision.dummyBytes / max c.meanLen 1
      return (min (max dpCount regimeCount) c.config.maxDummyPacketsPerBurst,
        { c with dpShaper := some dp, accountant })
  | none => return (regimeCount, c)

/-- A length of the session, or one from the keepalive range before any is known. -/
def trueLen (c : BurstComposer ρ) : Option (Nat × ρ) :=
  if c.lengthPool.lens = [] then
    genRange c.config.keepaliveMinBytes c.config.keepaliveMaxBytes c.rng
  else do
    let (idx, rng) ← genRange 0 (c.lengthPool.lens.length - 1) c.rng
    let len ← c.lengthPool.lens[idx]?
    return (len, rng)

/-- The length of a dummy: the cell, or a length of the session padded to its bucket. -/
def dummyLen (c : BurstComposer ρ) : Option (Nat × BurstComposer ρ) :=
  match c.config.cellBytes with
  | some cell => some (cell, c)
  | none => do
      let (trueLen, rng) ← c.trueLen
      let (len, optimalPadder) ← c.optimalPadder.padLength trueLen
      return (len, { c with rng, optimalPadder })

/-- Build a dummy payload. -/
def dummyPayload (c : BurstComposer ρ) : Option (Bytes × BurstComposer ρ) := do
  let (len, c) ← c.dummyLen
  allocate len 1
  let (bytes, rng) := RngCore.fillBytes len c.rng
  return (bytes.toList, { c with rng })

/-- Pad a real packet to the cell size, or return it as it is. -/
def padRealPacket (c : BurstComposer ρ) (packet : Packet) : Option (Packet × BurstComposer ρ) :=
  match c.config.cellBytes with
  | none => some (packet, c)
  | some cell => do
      allocateCell cell packet.len
      let (padded, rng) := padToCell cell c.rng packet.bytes
      match Packet.new padded with
      | .ok p => return (p, { c with rng })
      | .error _ => none

/-- Put each of `left` dummies into a random gap. -/
def scatter : Nat → List Nat → ρ → Option (List Nat × ρ)
  | 0, gaps, rng => some (gaps, rng)
  | left + 1, gaps, rng => do
      let (gap, rng) ← genRange 0 (gaps.length - 1) rng
      scatter left (gaps.modify gap (· + 1)) rng

/-- How many dummies stand before, between and behind `packets` real packets.  A single
    packet gets a uniformly drawn position. -/
def placeDummies (packets dummies : Nat) (rng : ρ) : Option (List Nat × ρ) :=
  if packets = 1 then do
    let (leading, rng) ← genRange 0 dummies rng
    return ([leading, dummies - leading], rng)
  else scatter dummies (List.replicate (packets + 1) 0) rng

def dummyFrames : Nat → BurstComposer ρ → Option (List MixedFrame × BurstComposer ρ)
  | 0, c => some ([], c)
  | n + 1, c => do
      let (bytes, c) ← c.dummyPayload
      let (frames, c) ← dummyFrames n c
      return (.dummy bytes :: frames, c)

/-- Every packet, followed by the dummies of its gap. -/
def gapFrames : List Packet → List Nat → BurstComposer ρ →
    Option (List MixedFrame × BurstComposer ρ)
  | [], _, c => some ([], c)
  | _ :: _, [], _ => none
  | packet :: packets, gap :: gaps, c => do
      let (padded, c) ← c.padRealPacket packet
      let (dummies, c) ← dummyFrames gap c
      let (frames, c) ← gapFrames packets gaps c
      return (.real padded :: (dummies ++ frames), c)

/-- Interleave the packets, in their order, with dummies at random positions. -/
def interleavePreservingRealOrder (c : BurstComposer ρ) (packets : List Packet)
    (dummies : Nat) : Option (List MixedFrame × BurstComposer ρ) := do
  let (gaps, rng) ← placeDummies packets.length dummies c.rng
  allocate ((packets.length + dummies) % 2 ^ 64) frameSize
  match gaps with
  | [] => none
  | first :: rest => do
      let (leading, c) ← dummyFrames first { c with rng }
      let (frames, c) ← gapFrames packets rest c
      return (leading ++ frames, c)

/-- Book frames that have been built: their dummy bytes, and each in the self-tester. -/
def recordFrames (c : BurstComposer ρ) (frames : List MixedFrame) : BurstComposer ρ :=
  frames.foldl
    (fun c frame =>
      { c with
        frameClockMs := c.frameClockMs + 1
        selfTester := c.selfTester.recordFrame frame (c.frameClockMs + 1) })
    { c with dummyBytesEmitted := min (c.dummyBytesEmitted + dummyBytes frames) (2 ^ 64 - 1) }

/-- The moving average of the time between real bursts, after one of `elapsed`. -/
def averageIatMs (F : F64) (c : BurstComposer ρ) (elapsed : Duration) : Double :=
  let iatMs := Double.mul F (.finite (Duration.asSecsF64 F elapsed)) (.finite 1000)
  Double.add F (.mul F (.finite (1 / 4)) iatMs) (.mul F (.finite (3 / 4)) c.observedRealIatMs)

/-- Observe the time since the last real burst.  The first reading is the time of this
    burst, the second one that of `elapsed()`. -/
def observeIat (F : F64) (clk : Clock) (c : BurstComposer ρ) : Option (BurstComposer ρ × Clock) :=
  match c.lastRealBurstAt with
  | none => some ({ c with lastRealBurstAt := some clk.now }, clk.later)
  | some last => do
      let observedRealIatMs ←
        (c.averageIatMs F (clk.later.now - last)).clamp (.finite 10) (.finite 10000)
      return ({ c with observedRealIatMs, lastRealBurstAt := some clk.now }, clk.later.later)

/-- The regime has run its course. -/
def switchDue (c : BurstComposer ρ) : Bool :=
  decide (c.regime.switchAfter.bursts ≤ c.burstsInRegime) ||
    decide (c.regime.switchAfter.realBytes ≤ c.realBytesInRegime) ||
    decide (c.regime.switchAfter.realPackets ≤ c.realPacketsInRegime)

/-- Draw a new regime if the old one has run its course. -/
def switchRegime (c : BurstComposer ρ) : Option (BurstComposer ρ) :=
  if c.switchDue then
    (nextRegime c.config c.rng).map fun (regime, rng) =>
      { c with
        regime
        rng
        burstsInRegime := 0
        realBytesInRegime := 0
        realPacketsInRegime := 0 }
  else some c

/-- `u64::saturating_add`. -/
def saturatingAdd (x y : Nat) : Nat := min (x + y) (2 ^ 64 - 1)

/-- Count a real burst in its regime and its session. -/
def countBurst (c : BurstComposer ρ) (realBytes realPackets : Nat) : BurstComposer ρ :=
  { c with
    burstsInRegime := saturatingAdd c.burstsInRegime 1
    realBytesInRegime := saturatingAdd c.realBytesInRegime realBytes
    realPacketsInRegime := saturatingAdd c.realPacketsInRegime realPackets
    sessionBounder := c.sessionBounder.map (SessionBounder.recordRealBytes · realBytes) }

/-- Account for a real burst, and draw a new regime when the old one has run its course. -/
def observe (F : F64) (clk : Clock) (c : BurstComposer ρ) (realBytes realPackets : Nat) :
    Option (BurstComposer ρ × Clock) := do
  let (c, clk) ← (c.countBurst realBytes realPackets).observeIat F clk
  let c ← c.switchRegime
  return (c, clk)

/-- The end of a call that took a real burst. -/
def finishBurst (F : F64) (clk : Clock) (c : BurstComposer ρ) (burst : Burst) :
    Option (BurstComposer ρ × Clock) := do
  let (c, clk) ← c.observe F clk burst.totalBytes burst.packetCount
  resetKeepaliveDeadline F clk.later { c with lastBurstAt := clk.now }

/-- Mix a real burst with cover traffic. -/
def compose (F : F64) (clk : Clock) (c : BurstComposer ρ) (burst : Burst) :
    Option (MixedBurst × BurstComposer ρ × Clock) := do
  let (dummyCount, c) ← (c.ingestPackets burst.packets).dummyCountForBurst F burst.totalBytes
  let (frames, c) ← c.interleavePreservingRealOrder burst.packets dummyCount
  let (c', clk) ← (c.recordFrames frames).finishBurst F clk burst
  return (⟨frames, c.regime, burst.packetCount, dummyCount⟩, c', clk)

/-- The number of dummies of a keepalive beyond the first. -/
def keepaliveExtra (F : F64) (clk : Clock) (c : BurstComposer ρ) : Nat × Clock :=
  match c.sessionBounder with
  | some bounder =>
      let (needed, clk) := bounder.dummyBytesNeededNow F clk c.dummyBytesEmitted
      let meanPkt := (c.config.keepaliveMinBytes + c.config.keepaliveMaxBytes) % 2 ^ 64 / 2
      (needed / max meanPkt 1, clk)
  | none => (0, clk)

/-- The number of dummies of a keepalive. -/
def keepaliveCount (F : F64) (clk : Clock) (c : BurstComposer ρ) : Nat × Clock :=
  let (extra, clk) := c.keepaliveExtra F clk
  (min ((1 + extra) % 2 ^ 64) c.config.maxDummyPacketsPerBurst, clk)

/-- Build a dummy-only keepalive burst. -/
def composeKeepalive (F : F64) (clk : Clock) (c : BurstComposer ρ) :
    Option (MixedBurst × BurstComposer ρ × Clock) := do
  let (dummyCount, clk) := c.keepaliveCount F clk
  allocate dummyCount frameSize
  let (frames, c) ← dummyFrames dummyCount c
  let (c', clk) ← resetKeepaliveDeadline F clk.later
    { c.recordFrames frames with lastBurstAt := clk.now }
  return (⟨frames, c.regime, 0, dummyCount⟩, c', clk)

end BurstComposer

end MixTor
