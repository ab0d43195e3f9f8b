/-
  MixTor.Shaping.ShapedSession

  `ShapedSession` (composition.rs): the departure clock together with the part
  of the `SeedBComposer` that emission touches, which pads real packets before
  they are queued and records every frame in the self-tester.

  The composer's burst path (regimes, DP accounting, length pools) is not driven
  by `inject_real` or `tick`; its fields are left out.
-/

import MixTor.Shaping.TimingCorrelator

namespace MixTor

open Crypto (Bytes Key Blake3)

/-- A 256-bit seed of one dimension of the engine. -/
structure EphemeralSeed where
  bytes : Key
  deriving DecidableEq

/-- The generator seed of one domain. -/
def EphemeralSeed.deriveRngSeed (H : Blake3) (seed : EphemeralSeed) (domain : String) :
    Vector UInt8 32 :=
  H.keyedHash seed.bytes domain.toUTF8.data.toList

/-- The fields of `CompositionConfig` the session reads. -/
structure CompositionConfig where
  maxDummyPacketsPerBurst : Nat
  maxIdleGapMs : Nat
  cellBytes : Option Nat
  clockEmaAlpha : Option Double
  clockMinIatMs : Option Double
  clockMaxIatMs : Option Double
  clockInitialIatMs : Option Double
  clockAdaptRate : Option Bool
  clockMinDummyFraction : Option Double

def CompositionConfig.default : CompositionConfig where
  maxDummyPacketsPerBurst := 32
  maxIdleGapMs := 480
  cellBytes := some 514
  clockEmaAlpha := none
  clockMinIatMs := none
  clockMaxIatMs := none
  clockInitialIatMs := none
  clockAdaptRate := none
  clockMinDummyFraction := none

inductive CompositionError where
  | invalidConfig (msg : String)
  | queueFull
  deriving DecidableEq, Repr

/-- Output frames accumulated for the statistical checks. -/
structure SelfTester where
  iatSamples : List Rat
  dummySizes : List Nat
  realSizes : List Nat
  realCount : Nat
  dummyCount : Nat
  lastFrameAtMs : Option Nat

namespace SelfTester

def new : SelfTester := ⟨[], [], [], 0, 0, none⟩

/-- Record an emitted frame at `nowMs`. -/
def recordFrame (st : SelfTester) (frame : MixedFrame) (nowMs : Nat) : SelfTester :=
  let st := match frame with
    | .real p => { st with realCount := st.realCount + 1, realSizes := st.realSizes ++ [p.len] }
    | .dummy b =>
        { st with dummyCount := st.dummyCount + 1, dummySizes := st.dummySizes ++ [b.length] }
  let st := match st.lastFrameAtMs with
    | some last => { st with iatSamples := st.iatSamples ++ [((nowMs - last : Nat) : Rat)] }
    | none => st
  { st with lastFrameAtMs := some nowMs }

end SelfTester

/-- The composer, as far as emission touches it. -/
structure SeedBComposer (ρ : Type) where
  cellBytes : Option Nat
  rng : ρ
  dummyBytesEmitted : Nat
  selfTester : SelfTester
  frameClockMs : Nat

/-- A fresh composer; `rng` is its generator once the first regime is drawn. -/
def SeedBComposer.withConfig {ρ : Type} (config : CompositionConfig) (rng : ρ) :
    SeedBComposer ρ where
  cellBytes := config.cellBytes
  rng
  dummyBytesEmitted := 0
  selfTester := .new
  frameClockMs := 0

/-- Pad a real packet to the cell size before it is queued. -/
def SeedBComposer.padRealPacket {ρ : Type} [RngCore ρ] (c : SeedBComposer ρ) (packet : Packet) :
    Packet × SeedBComposer ρ :=
  match c.cellBytes with
  | none => (packet, c)
  | some cell =>
      let (padded, rng) := padToCell cell c.rng packet.bytes
      match Packet.new padded with
      | .ok p => (p, { c with rng })
      | .error _ => (packet, { c with rng })  -- `expect`: the cell size is validated non-zero

/-- The departure clock with its composer. -/
structure ShapedSession (ρ : Type) where
  composer : SeedBComposer ρ
  correlator : TimingCorrelator ρ

namespace ShapedSession

variable {ρ : Type} [RngCore ρ]

/-- The correlator configuration a session derives from its own.  The queue depth is a
    usize product, which wraps. -/
def correlatorConfig (F : F64) (config : CompositionConfig) (cell : Nat) :
    TimingCorrelatorConfig where
  cellBytes := cell
  initialIatMs := config.clockInitialIatMs.getD (.ofNat F config.maxIdleGapMs)
  emaAlpha := config.clockEmaAlpha.getD (.finite (F.round 0.20))
  minIatMs := config.clockMinIatMs.getD (.finite 5)
  maxIatMs := config.clockMaxIatMs.getD
    (Double.mul F (.ofNat F config.maxIdleGapMs) (.finite 2))
  maxQueueDepth := config.maxDummyPacketsPerBurst * 4 % 2 ^ 64
  adaptRate := config.clockAdaptRate.getD true
  minDummyFraction := config.clockMinDummyFraction.getD (.finite 0)

def ofCorrelatorError : TimingCorrelatorError → CompositionError
  | .invalidConfig msg => .invalidConfig msg
  | .queueFull => .queueFull

/-- The generator of the departure clock.  One word is burnt so that its draws
    differ from those of other generators derived from the seed. -/
def correlatorRng (H : Blake3) (seed : EphemeralSeed) : ρ :=
  (RngCore.nextU64 (RngCore.fromSeed (seed.deriveRngSeed H "mixtor.correlator.v1"))).2

/-- Build a session from a seed.  `none` is a panic of the clock. -/
def new (F : F64) (H : Blake3) (clk : Clock) (seed : EphemeralSeed) (config : CompositionConfig)
    (composerRng : ρ) : Option (Except CompositionError (ShapedSession ρ × Clock)) :=
  match config.cellBytes with
  | none => some (.error (.invalidConfig
      "ShapedSession requires cell_bytes to be set for size uniformity"))
  | some cell =>
      match TimingCorrelator.new F clk (correlatorConfig F config cell)
          (correlatorRng H seed : ρ) with
      | none => none
      | some (.error (.invalidConfig msg)) => some (.error (.invalidConfig msg))
      | some (.error .queueFull) =>
          some (.error (.invalidConfig "correlator queue full during init"))
      | some (.ok (correlator, clk)) =>
          some (.ok (⟨.withConfig config composerRng, correlator⟩, clk))

/-- Inject a real packet, padded to the cell size. -/
def injectReal (F : F64) (clk : Clock) (s : ShapedSession ρ) (packet : Packet) :
    Except CompositionError Unit × ShapedSession ρ × Clock :=
  let (padded, composer) := s.composer.padRealPacket packet
  match s.correlator.injectReal F clk padded with
  | (.ok correlator, clk) => (.ok (), ⟨composer, correlator⟩, clk)
  | (.error e, clk) => (.error (ofCorrelatorError e), { s with composer }, clk)

/-- Book a frame in the self-tester and the dummy byte count. -/
def recordFrame (c : SeedBComposer ρ) (frame : MixedFrame) : SeedBComposer ρ :=
  { c with
    frameClockMs := c.frameClockMs + 1
    selfTester := c.selfTester.recordFrame frame (c.frameClockMs + 1)
    dummyBytesEmitted :=
      if frame.isDummy then min (c.dummyBytesEmitted + frame.len) (2 ^ 64 - 1)
      else c.dummyBytesEmitted }

/-- Emit the next frame, if its slot has come. -/
def tick (F : F64) (clk : Clock) (s : ShapedSession ρ) :
    Option MixedFrame × ShapedSession ρ × Clock :=
  match s.correlator.tick F clk with
  | (none, correlator, clk) => (none, { s with correlator }, clk)
  | (some frame, correlator, clk) => (some frame, ⟨recordFrame s.composer frame, correlator⟩, clk)

def restartClock (F : F64) (clk : Clock) (s : ShapedSession ρ) : ShapedSession ρ × Clock :=
  let (correlator, clk) := s.correlator.restartClock F clk
  ({ s with correlator }, clk)

def slotReady (clk : Clock) (s : ShapedSession ρ) : Bool × Clock := s.correlator.slotReady clk
def queueDepth (s : ShapedSession ρ) : Nat := s.correlator.queueDepth
def hasQueueSpace (s : ShapedSession ρ) : Bool := s.correlator.hasQueueSpace

-- ============================================================================
-- Sessions of a fixed-rate clock over cell-sized packets
-- ============================================================================

variable {F : F64}

/-- A session whose clock runs at a fixed rate and whose packets all have the
    cell size both layers pad to. -/
structure FixedRate (s : ShapedSession ρ) : Prop where
  adaptRate : s.correlator.config.adaptRate = false
  cellBytes : s.composer.cellBytes = some s.correlator.config.cellBytes
  cellSized : s.correlator.CellSized

/-- A new session is configured as its configuration says and its queue is empty. -/
theorem new_eq_ok {H : Blake3} {clk clk' : Clock} {seed : EphemeralSeed}
    {config : CompositionConfig} {composerRng : ρ} {s : ShapedSession ρ}
    (h : new F H clk seed config composerRng = some (.ok (s, clk'))) :
    ∃ cell, config.cellBytes = some cell ∧ s.composer.cellBytes = some cell ∧
      s.correlator.config = correlatorConfig F config cell ∧ s.correlator.realQueue = [] := by
  unfold new at h
  split at h
  · cases h
  · next cell hcell =>
    split at h
    · cases h
    · cases h
    · cases h
    · next correlator clk'' hnew =>
      obtain ⟨rfl, -⟩ := Prod.mk.inj (Except.ok.inj (Option.some.inj h))
      obtain ⟨hcfg, hq, -⟩ := TimingCorrelator.new_eq_ok hnew
      exact ⟨cell, hcell, hcell, hcfg, hq⟩

/-- A valid clock configuration is accepted, if its range of intervals is in order. -/
theorem new_of_valid {H : Blake3} {clk : Clock} {seed : EphemeralSeed}
    {config : CompositionConfig} {composerRng : ρ} {cell : Nat} (hcell : config.cellBytes = some cell)
    (hv : (correlatorConfig F config cell).Valid)
    (hord : (correlatorConfig F config cell).minIatMs.le (correlatorConfig F config cell).maxIatMs
      = true) :
    new F H clk seed config composerRng
      = some (.ok (⟨.withConfig config composerRng,
            (TimingCorrelator.start F clk _ hv hord (correlatorRng H seed)).1⟩,
          (TimingCorrelator.start F clk _ hv hord (correlatorRng H seed : ρ)).2)) := by
  unfold new
  rw [hcell]
  simp only [TimingCorrelator.new_of_valid hv hord]

/-- A cell-sized packet is queued as it is; the clock does not move. -/
theorem injectReal_of_space {s : ShapedSession ρ} (hs : s.FixedRate) (clk : Clock)
    (packet : Packet) (hlen : packet.len = s.correlator.config.cellBytes)
    (hroom : s.hasQueueSpace = true) :
    ∃ s', s.injectReal F clk packet = (.ok (), s', clk) ∧ s'.FixedRate ∧
      s'.correlator.realQueue = s.correlator.realQueue ++ [packet] ∧
      s'.correlator.config = s.correlator.config ∧ s'.correlator.rng = s.correlator.rng ∧
      s'.correlator.meanIatMs = s.correlator.meanIatMs ∧
      s'.correlator.nextDeparture = s.correlator.nextDeparture := by
  have hpad : s.composer.padRealPacket packet = (packet, s.composer) := by
    unfold SeedBComposer.padRealPacket
    split
    · rfl
    · next cell hcell =>
      obtain rfl : cell = s.correlator.config.cellBytes :=
        Option.some.inj (hcell.symm.trans hs.cellBytes)
      simp only [padToCell_of_eq s.composer.rng hlen, Packet.new_self]
  obtain ⟨tc', hinj, hq, hcfg, hrng, hmean, hnext⟩ :=
    TimingCorrelator.injectReal_of_space (F := F) clk packet hs.adaptRate hroom
  refine ⟨⟨s.composer, tc'⟩, ?_, ⟨?_, ?_, ?_⟩, hq, hcfg, hrng, hmean, hnext⟩
  · rw [injectReal, hpad]
    simp only [hinj]
  · rw [hcfg]
    exact hs.adaptRate
  · rw [hcfg]
    exact hs.cellBytes
  · intro p hp
    rw [hq, List.mem_append, List.mem_singleton] at hp
    rw [hcfg]
    rcases hp with hp | rfl
    · exact hs.cellSized p hp
    · exact hlen

/-- A slot that has come emits one cell-sized frame. -/
theorem tick_of_le {s : ShapedSession ρ} (hs : s.FixedRate) {clk : Clock}
    (h : s.correlator.nextDeparture ≤ clk.now) :
    ∃ frame s', s.tick F clk = (some frame, s', clk.later.later) ∧ s'.FixedRate ∧
      TimingCorrelator.Emitted s.correlator.realQueue s'.correlator.realQueue
        (TimingCorrelator.slotCoin F s.correlator.config s.correlator.rng
          s.correlator.meanIatMs).1 frame ∧
      frame.len = s.correlator.config.cellBytes ∧
      s'.correlator.config = s.correlator.config ∧
      s'.correlator.meanIatMs = s.correlator.meanIatMs ∧
      s'.correlator.rng = (TimingCorrelator.slotCoin F s.correlator.config s.correlator.rng
        s.correlator.meanIatMs).2 ∧
      s'.correlator.nextDeparture = TimingCorrelator.nextSlot s.correlator.nextDeparture
        (TimingCorrelator.slotStep F s.correlator.config s.correlator.rng
          s.correlator.meanIatMs).1 clk.later.now := by
  obtain ⟨frame, tc', htick, hem, hlen, hcfg, hmean, hrng, hnext⟩ :=
    TimingCorrelator.tick_of_le (F := F) hs.cellSized h
  refine ⟨frame, ⟨recordFrame s.composer frame, tc'⟩, ?_, ⟨?_, ?_, ?_⟩, hem, hlen, hcfg, hmean,
    hrng, hnext⟩
  · rw [tick, htick]
  · rw [hcfg]
    exact hs.adaptRate
  · rw [hcfg]
    exact hs.cellBytes
  · intro p hp
    rw [hcfg]
    apply hs.cellSized
    cases hem with
    | real p' _ head => rw [head]; exact List.mem_cons_of_mem _ hp
    | dummy b _ same => rwa [← same]

@[simp] theorem tick_of_lt {s : ShapedSession ρ} {clk : Clock}
    (h : clk.now < s.correlator.nextDeparture) : s.tick F clk = (none, s, clk.later) := by
  rw [tick, TimingCorrelator.tick_of_lt h]

end ShapedSession

end MixTor
