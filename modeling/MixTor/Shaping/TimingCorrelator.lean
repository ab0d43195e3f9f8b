/-
  MixTor.Shaping.TimingCorrelator

  The unified packet-slot scheduler (timing_correlator.rs): one departure clock
  governs real and dummy frames alike.  A slot that fires takes the oldest real
  packet, unless the slot is reserved for a dummy or no packet waits.

  The clock is driven by `rng` alone; dummy payloads come from `contentRng`.
  The process-wide slot counters are debug output and left out.

  The times and rates of the configuration are f64 values.  NaN passes every check of
  `validate` that is written as a comparison with a bound.  For the ends of the range of
  intervals the first `clamp` catches it and panics; a mean or a smoothing factor that is
  NaN goes through.
-/

import MixTor.Shaping.Double

namespace MixTor

open Crypto (Bytes)

structure TimingCorrelatorConfig where
  cellBytes : Nat
  initialIatMs : Double
  emaAlpha : Double
  minIatMs : Double
  maxIatMs : Double
  maxQueueDepth : Nat
  adaptRate : Bool
  minDummyFraction : Double
  deriving DecidableEq, Repr

inductive TimingCorrelatorError where
  | invalidConfig (msg : String)
  | queueFull
  deriving DecidableEq, Repr

namespace TimingCorrelatorConfig

/-- What `validate` checks. -/
structure Valid (c : TimingCorrelatorConfig) : Prop where
  cellBytes_pos : 0 < c.cellBytes
  initialIatMs_pos : c.initialIatMs.le (.finite 0) = false
  emaAlpha_pos : c.emaAlpha.le (.finite 0) = false
  emaAlpha_le : Double.lt (.finite 1) c.emaAlpha = false
  minIatMs_pos : c.minIatMs.le (.finite 0) = false
  minIatMs_lt : c.maxIatMs.le c.minIatMs = false
  maxQueueDepth_pos : 0 < c.maxQueueDepth
  minDummyFraction_nonneg : Double.le (.finite 0) c.minDummyFraction = true
  minDummyFraction_lt : c.minDummyFraction.lt (.finite 1) = true

def validate (c : TimingCorrelatorConfig) :
    Except TimingCorrelatorError TimingCorrelatorConfig :=
  if c.cellBytes = 0 then .error (.invalidConfig "cell_bytes must be non-zero")
  else if c.initialIatMs.le (.finite 0) then
    .error (.invalidConfig "initial_iat_ms must be positive")
  else if c.emaAlpha.le (.finite 0) || Double.lt (.finite 1) c.emaAlpha then
    .error (.invalidConfig "ema_alpha must be in (0, 1]")
  else if c.minIatMs.le (.finite 0) then
    .error (.invalidConfig "min_iat_ms must be positive")
  else if c.maxIatMs.le c.minIatMs then
    .error (.invalidConfig "min_iat_ms must be less than max_iat_ms")
  else if c.maxQueueDepth = 0 then .error (.invalidConfig "max_queue_depth must be non-zero")
  else if !(Double.le (.finite 0) c.minDummyFraction && c.minDummyFraction.lt (.finite 1)) then
    .error (.invalidConfig "min_dummy_fraction must be in [0.0, 1.0)")
  else .ok c

/-- `validate` accepts exactly the valid configurations and returns them as they are. -/
theorem validate_eq_ok {c c' : TimingCorrelatorConfig} :
    c.validate = .ok c' ↔ c.Valid ∧ c' = c := by
  simp only [validate, guard_eq_ok, Bool.not_eq_true, Bool.or_eq_false_iff, Bool.not_eq_false',
    Bool.and_eq_true]
  constructor
  · rintro ⟨h1, h2, ⟨h3, h4⟩, h5, h6, h7, ⟨h8, h9⟩, h⟩
    exact ⟨⟨Nat.pos_of_ne_zero h1, h2, h3, h4, h5, h6, Nat.pos_of_ne_zero h7, h8, h9⟩,
      (Except.ok.inj h).symm⟩
  · rintro ⟨⟨h1, h2, h3, h4, h5, h6, h7, h8, h9⟩, rfl⟩
    exact ⟨Nat.pos_iff_ne_zero.mp h1, h2, ⟨h3, h4⟩, h5, h6, Nat.pos_iff_ne_zero.mp h7,
      ⟨h8, h9⟩, rfl⟩

end TimingCorrelatorConfig

/-- The scheduler.  Its configuration was validated when it was built, the ends of its
    range of intervals are numbers in order, since the first `clamp` asserts it, and its
    queue never outgrows `maxQueueDepth`. -/
structure TimingCorrelator (ρ : Type) where
  config : TimingCorrelatorConfig
  /-- Generator of the departure clock and of the dummy coin. -/
  rng : ρ
  /-- Generator of dummy payloads. -/
  contentRng : ρ
  realQueue : List Packet
  nextDeparture : Instant
  meanIatMs : Double
  lastRealArrival : Option Instant
  realEmitted : Nat
  dummyEmitted : Nat
  config_valid : config.Valid
  bounds_ordered : config.minIatMs.le config.maxIatMs = true
  realQueue_le : realQueue.length ≤ config.maxQueueDepth

namespace TimingCorrelator

variable {ρ : Type} [RngCore ρ]

/-- The largest schedule debt that is caught up with. -/
def maxCatchupLag : Duration := .fromMillis 200

/-- Sample from Exponential(mean) by the inverse CDF. -/
def exponentialSample (F : F64) (rng : ρ) (meanMs : Double) : Double × ρ :=
  Double.exponentialSample F rng meanMs

/-- The slot length drawn by `advance_clock`, between bounds that are in order. -/
def slotStep (F : F64) (config : TimingCorrelatorConfig) (rng : ρ) (meanMs : Double) :
    Duration × ρ :=
  let (iatMs, rng) := exponentialSample F rng meanMs
  let clamped := iatMs.clamped config.minIatMs config.maxIatMs
  (.fromMicros (Double.mul F clamped (.finite 1000)).roundAsUsize, rng)

/-- The slot after `prev`, or one step from `now` when the schedule has fallen
    more than `maxCatchupLag` behind. -/
def nextSlot (prev : Instant) (step : Duration) (now : Instant) : Instant :=
  if prev + step + maxCatchupLag < now then now + step else prev + step

/-- Advance the departure clock by one exponentially distributed slot. -/
def advanceClock (F : F64) (clk : Clock) (tc : TimingCorrelator ρ) : TimingCorrelator ρ × Clock :=
  let (step, rng) := slotStep F tc.config tc.rng tc.meanIatMs
  ({ tc with rng, nextDeparture := nextSlot tc.nextDeparture step clk.now }, clk.later)

/-- A scheduler whose first slot is one interval after the first reading. -/
def start (F : F64) (clk : Clock) (config : TimingCorrelatorConfig) (hv : config.Valid)
    (hord : config.minIatMs.le config.maxIatMs = true) (rng : ρ) : TimingCorrelator ρ × Clock :=
  let (contentSeed, rng) := RngCore.fillBytes 32 rng
  advanceClock F clk.later
    { config
      rng
      contentRng := RngCore.fromSeed contentSeed
      realQueue := []
      nextDeparture := clk.now
      meanIatMs := config.initialIatMs
      lastRealArrival := none
      realEmitted := 0
      dummyEmitted := 0
      config_valid := hv
      bounds_ordered := hord
      realQueue_le := Nat.zero_le _ }

/-- Validate the configuration and start the clock.  `none` is a panic: the first
    `clamp` asserts that the range of intervals is in order. -/
def new (F : F64) (clk : Clock) (config : TimingCorrelatorConfig) (rng : ρ) :
    Option (Except TimingCorrelatorError (TimingCorrelator ρ × Clock)) :=
  match h : config.validate with
  | .error e => some (.error e)
  | .ok c =>
      if hord : c.minIatMs.le c.maxIatMs = true then
        some (.ok (start F clk c (by
          obtain ⟨hv, rfl⟩ := TimingCorrelatorConfig.validate_eq_ok.mp h
          exact hv) hord rng))
      else none

/-- The exponential moving average after an arrival at `now`. -/
def observeArrival (F : F64) (tc : TimingCorrelator ρ) (now : Instant) : Double :=
  match tc.lastRealArrival with
  | none => tc.meanIatMs
  | some last =>
      let iatMs := Double.mul F (.finite (Duration.asSecsF64 F (now - last))) (.finite 1000)
      let mean := Double.add F (Double.mul F tc.config.emaAlpha iatMs)
        (Double.mul F (Double.sub F (.finite 1) tc.config.emaAlpha) tc.meanIatMs)
      mean.clamped tc.config.minIatMs tc.config.maxIatMs

/-- Enqueue a real packet, or report that the queue is full. -/
def injectReal (F : F64) (clk : Clock) (tc : TimingCorrelator ρ) (packet : Packet) :
    Except TimingCorrelatorError (TimingCorrelator ρ) × Clock :=
  if h : tc.config.maxQueueDepth ≤ tc.realQueue.length then (.error .queueFull, clk)
  else
    have hroom : (tc.realQueue ++ [packet]).length ≤ tc.config.maxQueueDepth := by
      rw [List.length_append, List.length_singleton]
      omega
    if tc.config.adaptRate then
      -- the two readings are `elapsed()` and the new arrival time
      match tc.lastRealArrival with
      | none =>
          (.ok { tc with
            lastRealArrival := some clk.now
            realQueue := tc.realQueue ++ [packet]
            realQueue_le := hroom }, clk.later)
      | some _ =>
          (.ok { tc with
            meanIatMs := observeArrival F tc clk.now
            lastRealArrival := some clk.later.now
            realQueue := tc.realQueue ++ [packet]
            realQueue_le := hroom }, clk.later.later)
    else
      (.ok { tc with realQueue := tc.realQueue ++ [packet], realQueue_le := hroom }, clk)

/-- The dummy coin: reserve a fraction of the slots for dummies, whatever waits. -/
def forceDummy (config : TimingCorrelatorConfig) (rng : ρ) : Bool × ρ :=
  if Double.lt (.finite 0) config.minDummyFraction then
    let (u, rng) := genF64 rng
    (Double.lt (.finite u) config.minDummyFraction, rng)
  else (false, rng)

/-- Build a real frame padded to the cell size. -/
def makeRealFrame (tc : TimingCorrelator ρ) (packet : Packet) :
    MixedFrame × TimingCorrelator ρ :=
  let (padded, rng) := padToCell tc.config.cellBytes tc.rng packet.bytes
  match Packet.new padded with
  | .ok p => (.real p, { tc with rng })
  | .error _ => (.dummy (List.replicate tc.config.cellBytes 0), { tc with rng })

/-- Build a dummy frame of exactly the cell size. -/
def makeDummyFrame (tc : TimingCorrelator ρ) : MixedFrame × TimingCorrelator ρ :=
  let (bytes, contentRng) := RngCore.fillBytes tc.config.cellBytes tc.contentRng
  (.dummy bytes.toList, { tc with contentRng })

/-- `real_queue.pop_front()`. -/
def popFront (tc : TimingCorrelator ρ) : Option (Packet × TimingCorrelator ρ) :=
  match h : tc.realQueue with
  | [] => none
  | packet :: rest =>
      some (packet, { tc with
        realQueue := rest
        realQueue_le := by
          have := tc.realQueue_le
          rw [h, List.length_cons] at this
          omega })

/-- The frame of a slot whose coin has been tossed. -/
def emitSlot (tc : TimingCorrelator ρ) (forced : Bool) : MixedFrame × TimingCorrelator ρ :=
  match if forced then none else popFront tc with
  | some (packet, tc) =>
      let (frame, tc) := makeRealFrame tc packet
      (frame, { tc with realEmitted := tc.realEmitted + 1 })
  | none =>
      let (frame, tc) := makeDummyFrame tc
      (frame, { tc with dummyEmitted := tc.dummyEmitted + 1 })

/-- Emit the frame of the next slot, if that slot has come. -/
def tick (F : F64) (clk : Clock) (tc : TimingCorrelator ρ) :
    Option MixedFrame × TimingCorrelator ρ × Clock :=
  if clk.now < tc.nextDeparture then (none, tc, clk.later)
  else
    let (tc, clk) := advanceClock F clk.later tc
    let (forced, rng) := forceDummy tc.config tc.rng
    let (frame, tc) := emitSlot { tc with rng } forced
    (some frame, tc, clk)

/-- The next slot has come. -/
def slotReady (clk : Clock) (tc : TimingCorrelator ρ) : Bool × Clock :=
  (decide (tc.nextDeparture ≤ clk.now), clk.later)

/-- Restart the departure clock from now, dropping the slots that came due. -/
def restartClock (F : F64) (clk : Clock) (tc : TimingCorrelator ρ) : TimingCorrelator ρ × Clock :=
  advanceClock F clk.later { tc with nextDeparture := clk.now }

def queueDepth (tc : TimingCorrelator ρ) : Nat := tc.realQueue.length

def hasQueueSpace (tc : TimingCorrelator ρ) : Bool :=
  decide (tc.realQueue.length < tc.config.maxQueueDepth)

-- ============================================================================
-- What the operations do to a queue of cell-sized packets
-- ============================================================================

variable {F : F64}

/-- Every waiting packet has exactly the cell size. -/
def CellSized (tc : TimingCorrelator ρ) : Prop :=
  ∀ p ∈ tc.realQueue, p.len = tc.config.cellBytes

/-- A new scheduler has the configuration it was given and an empty queue. -/
theorem new_eq_ok {clk clk' : Clock} {config : TimingCorrelatorConfig} {rng : ρ}
    {tc : TimingCorrelator ρ} (h : new F clk config rng = some (.ok (tc, clk'))) :
    tc.config = config ∧ tc.realQueue = [] ∧ tc.meanIatMs = config.initialIatMs := by
  unfold new at h
  split at h
  · cases h
  · next c hval =>
    obtain ⟨-, rfl⟩ := TimingCorrelatorConfig.validate_eq_ok.mp hval
    split at h
    · obtain ⟨rfl, -⟩ := Prod.mk.inj (Except.ok.inj (Option.some.inj h))
      exact ⟨rfl, rfl, rfl⟩
    · cases h

/-- A valid configuration is accepted, if its range of intervals is in order. -/
theorem new_of_valid {config : TimingCorrelatorConfig} (hv : config.Valid)
    (hord : config.minIatMs.le config.maxIatMs = true) (clk : Clock) (rng : ρ) :
    new F clk config rng = some (.ok (start F clk config hv hord rng)) := by
  unfold new
  split
  · next e he =>
    rw [TimingCorrelatorConfig.validate_eq_ok.mpr ⟨hv, rfl⟩] at he
    cases he
  · next c hc =>
    obtain ⟨-, rfl⟩ := TimingCorrelatorConfig.validate_eq_ok.mp hc
    rw [dif_pos hord]

omit [RngCore ρ] in
/-- The least interval of a scheduler is a positive number. -/
theorem exists_minIatMs (tc : TimingCorrelator ρ) :
    ∃ m : Rat, tc.config.minIatMs = .finite m ∧ 0 < m := by
  have hpos := tc.config_valid.minIatMs_pos
  have hlt := tc.config_valid.minIatMs_lt
  have hord := tc.bounds_ordered
  cases hmin : tc.config.minIatMs with
  | nan =>
      rw [hmin, Double.nan_le] at hord
      cases hord
  | inf b =>
      rw [hmin] at hpos hlt hord
      cases b with
      | true => cases hpos
      | false => cases hmax : tc.config.maxIatMs <;> simp_all [Double.le]
  | finite m =>
      rw [hmin] at hpos
      exact ⟨m, rfl, not_le.mp (of_decide_eq_false hpos)⟩

omit [RngCore ρ] in
/-- A queue with space takes the packet; at a fixed rate nothing else moves. -/
theorem injectReal_of_space {tc : TimingCorrelator ρ} (clk : Clock) (packet : Packet)
    (hfix : tc.config.adaptRate = false) (hroom : tc.hasQueueSpace = true) :
    ∃ tc', injectReal F clk tc packet = (.ok tc', clk) ∧ tc'.realQueue = tc.realQueue ++ [packet] ∧
      tc'.config = tc.config ∧ tc'.rng = tc.rng ∧ tc'.meanIatMs = tc.meanIatMs ∧
      tc'.nextDeparture = tc.nextDeparture := by
  have hlt : tc.realQueue.length < tc.config.maxQueueDepth := by
    simpa [hasQueueSpace] using hroom
  unfold injectReal
  rw [dif_neg (by omega), if_neg (by simp [hfix])]
  exact ⟨_, rfl, rfl, rfl, rfl, rfl, rfl⟩

/-- What the slot took out of the queue: its real packet, or nothing. -/
inductive Emitted (queue queue' : List Packet) (forced : Bool) : MixedFrame → Prop
  | real (p : Packet) (unforced : forced = false) (head : queue = p :: queue') :
      Emitted queue queue' forced (.real p)
  | dummy (b : Bytes) (idle : forced = true ∨ queue = []) (same : queue' = queue) :
      Emitted queue queue' forced (.dummy b)

omit [RngCore ρ] in
theorem popFront_eq_none {tc : TimingCorrelator ρ} :
    popFront tc = none ↔ tc.realQueue = [] := by
  unfold popFront
  split
  · next h => simp [h]
  · next h => simp [h]

omit [RngCore ρ] in
theorem popFront_eq_some {tc tc' : TimingCorrelator ρ} {packet : Packet}
    (h : popFront tc = some (packet, tc')) :
    tc.realQueue = packet :: tc'.realQueue ∧ tc'.config = tc.config ∧ tc'.rng = tc.rng ∧
      tc'.meanIatMs = tc.meanIatMs ∧ tc'.nextDeparture = tc.nextDeparture := by
  unfold popFront at h
  split at h
  · cases h
  · next packet' rest hq =>
    obtain ⟨rfl, rfl⟩ := Prod.mk.inj (Option.some.inj h)
    exact ⟨hq, rfl, rfl, rfl, rfl⟩

/-- The frame of a slot has the cell size, whether real or dummy, and drawing it
    leaves the clock generator alone. -/
theorem emitSlot_spec (tc : TimingCorrelator ρ) (hsz : tc.CellSized) (forced : Bool) :
    Emitted tc.realQueue (emitSlot tc forced).2.realQueue forced (emitSlot tc forced).1 ∧
      (emitSlot tc forced).1.len = tc.config.cellBytes ∧
      (emitSlot tc forced).2.config = tc.config ∧ (emitSlot tc forced).2.rng = tc.rng ∧
      (emitSlot tc forced).2.meanIatMs = tc.meanIatMs ∧
      (emitSlot tc forced).2.nextDeparture = tc.nextDeparture := by
  unfold emitSlot
  cases hpop : if forced then none else popFront tc with
  | none =>
      refine ⟨.dummy _ ?_ rfl, by simp [makeDummyFrame, MixedFrame.len], rfl, rfl, rfl, rfl⟩
      cases forced with
      | true => exact .inl rfl
      | false => exact .inr (popFront_eq_none.mp hpop)
  | some r =>
      obtain ⟨packet, tc'⟩ := r
      cases forced with
      | true => cases hpop
      | false =>
          obtain ⟨hq, hcfg, hrng, hmean, hnext⟩ := popFront_eq_some hpop
          have hlen : packet.bytes.length = tc'.config.cellBytes := by
            rw [hcfg]
            exact hsz packet (by rw [hq]; exact List.mem_cons_self)
          simp only [makeRealFrame, padToCell_of_eq tc'.rng hlen, Packet.new_self]
          exact ⟨.real packet rfl hq, by rw [← hcfg]; exact hlen, hcfg, hrng, hmean, hnext⟩

/-- A tick before its slot does nothing. -/
theorem tick_of_lt {clk : Clock} {tc : TimingCorrelator ρ} (h : clk.now < tc.nextDeparture) :
    tick F clk tc = (none, tc, clk.later) := by
  rw [tick, if_pos h]

/-- The generator and the coin of a slot, after its step has been drawn. -/
def slotCoin (F : F64) (config : TimingCorrelatorConfig) (rng : ρ) (meanMs : Double) : Bool × ρ :=
  forceDummy config (slotStep F config rng meanMs).2

/-- **What a slot that has come does.** It emits one cell-sized frame; the clock
    moves on by its own draws, which do not depend on the frame. -/
theorem tick_of_le {clk : Clock} {tc : TimingCorrelator ρ} (hsz : tc.CellSized)
    (h : tc.nextDeparture ≤ clk.now) :
    ∃ frame tc', tick F clk tc = (some frame, tc', clk.later.later) ∧
      Emitted tc.realQueue tc'.realQueue (slotCoin F tc.config tc.rng tc.meanIatMs).1 frame ∧
      frame.len = tc.config.cellBytes ∧ tc'.config = tc.config ∧
      tc'.meanIatMs = tc.meanIatMs ∧
      tc'.rng = (slotCoin F tc.config tc.rng tc.meanIatMs).2 ∧
      tc'.nextDeparture
        = nextSlot tc.nextDeparture (slotStep F tc.config tc.rng tc.meanIatMs).1
            clk.later.now := by
  rw [tick, if_neg (not_lt.mpr h)]
  obtain ⟨hem, hlen, hcfg, hrng, hmean, hnext⟩ :=
    emitSlot_spec { (advanceClock F clk.later tc).1 with
      rng := (slotCoin F tc.config tc.rng tc.meanIatMs).2 } hsz
      (slotCoin F tc.config tc.rng tc.meanIatMs).1
  exact ⟨_, _, rfl, hem, hlen, hcfg, hmean, hrng, hnext⟩

end TimingCorrelator

end MixTor
