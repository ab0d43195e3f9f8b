/-
  MixTor.Shaping.TimingScheduler

  The Seed-A timing scheduler (timing.rs): a regime that changes with the traffic
  seen, and for each decision a delay drawn under the regime and the thresholds of
  a pool cycle.

  A configuration gives its bounds as durations; the draws are made in whole
  milliseconds and microseconds.  What is proved is when the conversions keep the
  bounds, for every value a draw can have.
-/

import MixTor.Shaping.ClumpingPool

namespace MixTor

-- ============================================================================
-- Draws from f64 ranges and from distributions
-- ============================================================================

/-- A distribution of the `rand_distr` crate with its parameters. -/
inductive Distr where
  | poisson (lambda : Rat)
  | pareto (scale shape : Rat)
  | exp (lambda : Rat)
  deriving DecidableEq, Repr

namespace Distr

/-- What `new` checks; the code expects it to succeed. -/
def Accepted : Distr → Prop
  | poisson lambda => 0 < lambda
  | pareto scale shape => 0 < scale ∧ 0 < shape
  | exp lambda => 0 ≤ lambda

instance : DecidablePred Accepted := fun d =>
  match d with
  | poisson lambda => inferInstanceAs (Decidable (0 < lambda))
  | pareto scale shape => inferInstanceAs (Decidable (0 < scale ∧ 0 < shape))
  | exp lambda => inferInstanceAs (Decidable (0 ≤ lambda))

/-- No sample is below this. -/
def least : Distr → Rat
  | pareto scale _ => scale
  | _ => 0

end Distr

/-- The f64 draws: from a range that is not empty, in the range; from a distribution, a
    number in its support. -/
class DistrRng (ρ : Type) extends Rng ρ where
  uniform : (lo hi : Rat) → lo ≤ hi → ρ → {x : Rat // lo ≤ x ∧ x ≤ hi} × ρ
  distr : (d : Distr) → ρ → {x : Rat // d.least ≤ x} × ρ

/-- `rng.gen_range(lo..=hi)` for f64 bounds. -/
def genRangeF64 {ρ : Type} [DistrRng ρ] (lo hi : Rat) (rng : ρ) : Option (Rat × ρ) :=
  if h : lo ≤ hi then
    let (x, rng) := DistrRng.uniform lo hi h rng
    some (x.1, rng)
  else none

/-- `new(..).expect(..).sample(rng)`. -/
def Distr.sample {ρ : Type} [DistrRng ρ] (d : Distr) (rng : ρ) : Option (Rat × ρ) :=
  if d.Accepted then
    let (x, rng) := DistrRng.distr d rng
    some (x.1, rng)
  else none

section Draws

variable {ρ : Type} [DistrRng ρ]

theorem exists_genRangeF64 {lo hi : Rat} (h : lo ≤ hi) (rng : ρ) :
    ∃ x rng', genRangeF64 lo hi rng = some (x, rng') ∧ lo ≤ x := by
  rw [genRangeF64, dif_pos h]
  exact ⟨_, _, rfl, (DistrRng.uniform lo hi h rng).1.2.1⟩

theorem Distr.exists_sample {d : Distr} (h : d.Accepted) (rng : ρ) :
    ∃ x rng', d.sample rng = some (x, rng') := by
  rw [Distr.sample, if_pos h]
  exact ⟨_, _, rfl⟩

end Draws

-- ============================================================================
-- Configuration
-- ============================================================================

inductive TimingDistributionKind where
  | poisson
  | pareto
  | bimodal
  | burstAndSilence
  | uniform
  | exponential
  deriving DecidableEq, Repr

structure RegimeSwitchThreshold where
  bytes : Nat
  packets : Nat
  deriving DecidableEq, Repr

structure TimingRegime where
  kind : TimingDistributionKind
  switchAfter : RegimeSwitchThreshold
  deriving DecidableEq, Repr

structure TimingDecision where
  delay : Duration
  regime : TimingRegime
  poolThresholds : CycleThresholds
  deriving DecidableEq, Repr

structure TimingConfig where
  minDelay : Duration
  maxDelay : Duration
  minRegimeBytes : Nat
  maxRegimeBytes : Nat
  minRegimePackets : Nat
  maxRegimePackets : Nat
  clumping : ClumpingConfig
  deriving DecidableEq, Repr

inductive TimingError where
  | invalidConfig (msg : String)
  | invalidClumpingConfig (error : ClumpingConfigError)
  | wrongSeedRole (expected actual : SeedRole)
  deriving DecidableEq, Repr

namespace TimingConfig

def default : TimingConfig where
  minDelay := .fromMillis 4
  maxDelay := .fromMillis 240
  minRegimeBytes := 24 * 1024
  maxRegimeBytes := 512 * 1024
  minRegimePackets := 48
  maxRegimePackets := 1024
  clumping := .default

/-- What `validate` checks. -/
structure Valid (c : TimingConfig) : Prop where
  minDelay_pos : 0 < c.minDelay
  minDelay_le : c.minDelay ≤ c.maxDelay
  minBytes_pos : 0 < c.minRegimeBytes
  minPackets_pos : 0 < c.minRegimePackets
  minBytes_le : c.minRegimeBytes ≤ c.maxRegimeBytes
  minPackets_le : c.minRegimePackets ≤ c.maxRegimePackets
  clumping : c.clumping.Valid

def validate (c : TimingConfig) : Except TimingError TimingConfig :=
  if c.minDelay = 0 then .error (.invalidConfig "minimum delay must be non-zero")
  else if c.maxDelay < c.minDelay then
    .error (.invalidConfig "minimum delay cannot exceed maximum delay")
  else if c.minRegimeBytes = 0 ∨ c.minRegimePackets = 0 then
    .error (.invalidConfig "regime switch thresholds must be non-zero")
  else if c.maxRegimeBytes < c.minRegimeBytes then
    .error (.invalidConfig "minimum regime bytes cannot exceed maximum regime bytes")
  else if c.maxRegimePackets < c.minRegimePackets then
    .error (.invalidConfig "minimum regime packets cannot exceed maximum regime packets")
  else
    match c.clumping.validate with
    | .error e => .error (.invalidClumpingConfig e)
    | .ok _ => .ok c

/-- `validate` accepts exactly the valid configurations and returns them as they are. -/
theorem validate_eq_ok {c c' : TimingConfig} : c.validate = .ok c' ↔ c.Valid ∧ c' = c := by
  simp only [validate, guard_eq_ok, not_or, not_lt, ← Nat.pos_iff_ne_zero]
  constructor
  · rintro ⟨h1, h2, ⟨h3, h4⟩, h5, h6, h⟩
    split at h
    · cases h
    · next hok =>
      exact ⟨⟨h1, h2, h3, h4, h5, h6, (ClumpingConfig.validate_eq_ok.mp hok).1⟩,
        (Except.ok.inj h).symm⟩
  · rintro ⟨⟨h1, h2, h3, h4, h5, h6, h7⟩, rfl⟩
    exact ⟨h1, h2, ⟨h3, h4⟩, h5, h6, by rw [ClumpingConfig.validate_eq_ok.mpr ⟨h7, rfl⟩]⟩

/-- The default passes its own check. -/
theorem default_valid : default.Valid where
  minDelay_pos := by decide
  minDelay_le := by decide
  minBytes_pos := by decide
  minPackets_pos := by decide
  minBytes_le := by decide
  minPackets_le := by decide
  clumping := by decide

end TimingConfig

-- ============================================================================
-- The scheduler
-- ============================================================================

variable {ρ : Type} [DistrRng ρ]

/-- The scheduler.  Its configuration was validated when it was built. -/
structure SeedATimingScheduler (ρ : Type) where
  config : TimingConfig
  rng : ρ
  regime : TimingRegime
  bytesInRegime : Nat
  packetsInRegime : Nat
  config_valid : config.Valid

/-- `x as u64` for an f64 that is not negative. -/
def F64.asU64 (x : Rat) : Nat := min x.floor.toNat (2 ^ 64 - 1)

/-- `x.round()`: half away from zero. -/
def F64.roundHalf (x : Rat) : Rat :=
  if x < 0 then -((-x + 1 / 2).floor : Rat) else ((x + 1 / 2).floor : Rat)

namespace SeedATimingScheduler

def nextRegime (config : TimingConfig) (rng : ρ) : Option (TimingRegime × ρ) := do
  let (n, rng) ← genRange 0 5 rng
  let kind :=
    match n with
    | 0 => TimingDistributionKind.poisson
    | 1 => .pareto
    | 2 => .bimodal
    | 3 => .burstAndSilence
    | 4 => .uniform
    | _ => .exponential
  let (bytes, rng) ← genRange config.minRegimeBytes config.maxRegimeBytes rng
  let (packets, rng) ← genRange config.minRegimePackets config.maxRegimePackets rng
  return (⟨kind, ⟨bytes, packets⟩⟩, rng)

/-- A scheduler in a first regime drawn from `rng`. -/
def start (config : TimingConfig) (hv : config.Valid) (rng : ρ) :
    Option (SeedATimingScheduler ρ) :=
  (nextRegime config rng).map fun (regime, rng) =>
    { config, rng, regime, bytesInRegime := 0, packetsInRegime := 0, config_valid := hv }

def withConfig (H : Crypto.Blake3) (seedA : RoleSeed) (config : TimingConfig) :
    Except TimingError (Option (SeedATimingScheduler ρ)) :=
  if seedA.role ≠ .timingAndPool then .error (.wrongSeedRole .timingAndPool seedA.role)
  else
    match h : config.validate with
    | .error e => .error e
    | .ok config => .ok (start config
        (by
          obtain ⟨hv, rfl⟩ := TimingConfig.validate_eq_ok.mp h
          exact hv)
        (RngCore.fromSeed (seedA.deriveRngSeed H "mixtor.timing.v1")))

def observeBurst (s : SeedATimingScheduler ρ) (bytes packets : Nat) :
    Option (SeedATimingScheduler ρ) :=
  let bytesInRegime := min (s.bytesInRegime + bytes) (2 ^ 64 - 1)
  let packetsInRegime := min (s.packetsInRegime + packets) (2 ^ 64 - 1)
  if s.regime.switchAfter.bytes ≤ bytesInRegime ∨
      s.regime.switchAfter.packets ≤ packetsInRegime then
    (nextRegime s.config s.rng).map fun (regime, rng) =>
      { s with rng, regime, bytesInRegime := 0, packetsInRegime := 0 }
  else some { s with bytesInRegime, packetsInRegime }

/-- The two modes of a regime: a short delay up to `cap` of the maximum with probability
    `p`, a long one from `floor` of it otherwise. -/
def sampleModes (F : F64) (minMs maxMs p cap floor : Rat) (rng : ρ) : Option (Rat × ρ) :=
  let (short, rng) := Rng.genBool p rng
  if short then genRangeF64 minMs (max (F.mul maxMs cap) minMs) rng
  else genRangeF64 (max (F.mul maxMs floor) minMs) maxMs rng

/-- The sample a regime makes for a delay, in milliseconds. -/
def sampleMs (F : F64) (minMs maxMs : Rat) (kind : TimingDistributionKind) (rng : ρ) :
    Option (Rat × ρ) :=
  match kind with
  | .poisson => do
      let (lambda, rng) ← genRangeF64 minMs maxMs rng
      (Distr.poisson (max lambda 1)).sample rng
  | .pareto => do
      let (scale, rng) ← genRangeF64 minMs (max (F.round (maxMs / 3)) minMs) rng
      let (shape, rng) ← genRangeF64 (F.round (12 / 10)) (F.round (28 / 10)) rng
      (Distr.pareto scale shape).sample rng
  | .bimodal =>
      sampleModes F minMs maxMs (F.round (68 / 100)) (F.round (30 / 100)) (F.round (55 / 100)) rng
  | .burstAndSilence =>
      sampleModes F minMs maxMs (F.round (82 / 100)) (F.round (18 / 100)) (F.round (60 / 100)) rng
  | .uniform => genRangeF64 minMs maxMs rng
  | .exponential => do
      let (mean, rng) ← genRangeF64 minMs maxMs rng
      (Distr.exp (F.round (1 / max mean 1))).sample rng

/-- `d.as_millis() as f64`. -/
def millis (F : F64) (d : Duration) : Rat := F.round ((d / 1000000 : Nat) : Rat)

def nextDelay (F : F64) (s : SeedATimingScheduler ρ) : Option (Duration × ρ) := do
  let minMs := millis F s.config.minDelay
  let maxMs := millis F s.config.maxDelay
  let (sampledMs, rng) ← sampleMs F minMs maxMs s.regime.kind s.rng
  if maxMs < minMs then none
  else return (.fromMillis (F64.asU64 (F64.clamp (F64.roundHalf sampledMs) minMs maxMs)), rng)

/-- The thresholds are drawn as the pool itself draws them. -/
def nextPoolThresholds (config : TimingConfig) (rng : ρ) : Option (CycleThresholds × ρ) :=
  nextThresholds config.clumping rng

def nextDecision (F : F64) (s : SeedATimingScheduler ρ) :
    Option (TimingDecision × SeedATimingScheduler ρ) := do
  let (delay, rng) ← s.nextDelay F
  let (poolThresholds, rng) ← nextPoolThresholds s.config rng
  return (⟨delay, s.regime, poolThresholds⟩, { s with rng })

end SeedATimingScheduler

/-- A call of the scheduler. -/
inductive TimingCall where
  | observeBurst (bytes packets : Nat)
  | nextDecision
  deriving DecidableEq, Repr

namespace SeedATimingScheduler

/-- The decisions of a sequence of calls; `none` if one of the calls panics. -/
def decisions (F : F64) (s : SeedATimingScheduler ρ) : List TimingCall → Option (List TimingDecision)
  | [] => some []
  | .observeBurst bytes packets :: calls => do
      let s ← s.observeBurst bytes packets
      s.decisions F calls
  | .nextDecision :: calls => do
      let (d, s) ← s.nextDecision F
      let ds ← s.decisions F calls
      return d :: ds

-- ============================================================================
-- When the conversions keep the bounds
-- ============================================================================

/-- `d` as whole milliseconds in an f64, and back. -/
def throughMillis (F : F64) (d : Duration) : Duration := .fromMillis (F64.asU64 (millis F d))

/-- `d` as whole microseconds in a u64, and back. -/
def throughMicros (d : Duration) : Duration := .fromMicros (ClumpingConfig.micros d)

end SeedATimingScheduler

open SeedATimingScheduler (throughMillis throughMicros)

/-- The ends of both ranges stay inside the bounds when they are converted, and the range
    of the timeout keeps its order. -/
structure TimingConfig.Representable (F : F64) (c : TimingConfig) : Prop where
  minDelay_le : c.minDelay ≤ throughMillis F c.minDelay
  le_maxDelay : throughMillis F c.maxDelay ≤ c.maxDelay
  minTimeout_le : c.clumping.minTimeout ≤ throughMicros c.clumping.minTimeout
  timeouts_le : throughMicros c.clumping.minTimeout ≤ throughMicros c.clumping.maxTimeout

/-- The decision keeps the bounds of the configuration. -/
structure TimingDecision.InBounds (c : TimingConfig) (d : TimingDecision) : Prop where
  minDelay_le : c.minDelay ≤ d.delay
  le_maxDelay : d.delay ≤ c.maxDelay
  minPackets_le : c.clumping.minPacketsPerBurst ≤ d.poolThresholds.maxPackets
  le_maxPackets : d.poolThresholds.maxPackets ≤ c.clumping.maxPacketsPerBurst
  minTimeout_le : c.clumping.minTimeout ≤ d.poolThresholds.timeout
  le_maxTimeout : d.poolThresholds.timeout ≤ c.clumping.maxTimeout

/-- With every generator, in every regime and after any calls, no call panics and every
    decision is in bounds. -/
def TimingConfig.StaysInBounds (F : F64) (c : TimingConfig) : Prop :=
  ∀ (ρ : Type) [DistrRng ρ] (s : SeedATimingScheduler ρ), s.config = c →
    ∀ calls, ∃ ds, s.decisions F calls = some ds ∧ ∀ d ∈ ds, d.InBounds c

section Rounding

variable {F : F64} {x : Rat}

/-- Rounding keeps the side of a representable whole number. -/
theorem F64.Lawful.natCast_le_round (hF : F.Lawful) {n : Nat} (hn : n ≤ 2 ^ 53)
    (h : (n : Rat) ≤ x) : (n : Rat) ≤ F.round x := by
  rw [← hF.round_natCast n hn]
  exact hF.round_mono h

theorem F64.Lawful.round_le_natCast (hF : F.Lawful) {n : Nat} (hn : n ≤ 2 ^ 53)
    (h : x ≤ (n : Rat)) : F.round x ≤ (n : Rat) := by
  rw [← hF.round_natCast n hn]
  exact hF.round_mono h

theorem F64.Lawful.round_nonneg (hF : F.Lawful) (h : 0 ≤ x) : 0 ≤ F.round x := by
  simpa using hF.natCast_le_round (Nat.zero_le _) (by simpa using h)

theorem F64.Lawful.one_le_round (hF : F.Lawful) (h : 1 ≤ x) : 1 ≤ F.round x := by
  simpa using hF.natCast_le_round (n := 1) (by norm_num) (by simpa using h)

theorem F64.Lawful.round_le_one (hF : F.Lawful) (h : x ≤ 1) : F.round x ≤ 1 := by
  simpa using hF.round_le_natCast (n := 1) (by norm_num) (by simpa using h)

end Rounding

theorem F64.asU64_mono : Monotone F64.asU64 := by
  intro x y h
  have hfloor : x.floor ≤ y.floor := Rat.floor_monotone h
  simp only [F64.asU64]
  omega

theorem F64.clamp_le {x lo hi : Rat} (h : lo ≤ hi) : F64.clamp x lo hi ≤ hi := by
  unfold F64.clamp
  split
  · exact h
  · split
    · exact le_rfl
    · next hx => exact not_lt.mp hx

namespace SeedATimingScheduler

variable {F : F64} {c : TimingConfig}

theorem millis_mono (hF : F.Lawful) {d d' : Duration} (h : d ≤ d') : millis F d ≤ millis F d' :=
  hF.round_mono (Nat.cast_le.mpr (Nat.div_le_div_right h))

theorem millis_nonneg (hF : F.Lawful) (d : Duration) : 0 ≤ millis F d :=
  hF.round_nonneg (Nat.cast_nonneg _)

/-- A bound that survives the conversion is not zero milliseconds. -/
theorem millis_pos {d : Duration} (hd : 0 < d) (h : d ≤ throughMillis F d) :
    0 < millis F d := by
  by_contra hle
  have hfloor : (millis F d).floor ≤ 0 :=
    (Rat.floor_monotone (not_lt.mp hle)).trans_eq (by decide)
  have hzero : throughMillis F d = 0 := by
    rw [throughMillis, F64.asU64, Int.toNat_of_nonpos hfloor, Nat.zero_min]
    rfl
  rw [hzero] at h
  exact absurd hd (not_lt.mpr h)

/-- A share of a maximum, rounded, is not above the maximum. -/
theorem mul_share_le (hF : F.Nearest) {x : Rat} (hx : 0 ≤ x) (hround : F.round x = x) {r : Rat}
    (hr : r ≤ 1) : F.mul x (F.round r) ≤ x :=
  calc F.mul x (F.round r) ≤ F.round x :=
        hF.round_mono (mul_le_of_le_one_right hx (hF.round_le_one hr))
    _ = x := hround

variable {minMs maxMs : Rat}

theorem exists_sampleModes (hF : F.Nearest) (hle : minMs ≤ maxMs) (hmax : 0 ≤ maxMs)
    (hround : F.round maxMs = maxMs) (p cap : Rat) {r : Rat} (hr : r ≤ 1) (rng : ρ) :
    ∃ x rng', sampleModes F minMs maxMs p cap (F.round r) rng = some (x, rng') := by
  unfold sampleModes
  obtain ⟨short, rng₁⟩ := Rng.genBool p rng
  cases short with
  | true =>
      obtain ⟨x, rng', h, -⟩ := exists_genRangeF64 (le_max_right (F.mul maxMs cap) minMs) rng₁
      exact ⟨x, rng', h⟩
  | false =>
      obtain ⟨x, rng', h, -⟩ :=
        exists_genRangeF64 (max_le (mul_share_le hF hmax hround hr) hle) rng₁
      exact ⟨x, rng', h⟩

/-- With a minimum above zero no regime draws from an empty range or gives a distribution a
    parameter it refuses. -/
theorem exists_sampleMs (hF : F.Nearest) (hpos : 0 < minMs) (hle : minMs ≤ maxMs)
    (hround : F.round maxMs = maxMs) (kind : TimingDistributionKind) (rng : ρ) :
    ∃ x rng', sampleMs F minMs maxMs kind rng = some (x, rng') := by
  have hmax : 0 ≤ maxMs := hpos.le.trans hle
  cases kind with
  | poisson =>
      obtain ⟨lambda, rng₁, h, -⟩ := exists_genRangeF64 hle rng
      have hok : (Distr.poisson (max lambda 1)).Accepted :=
        lt_of_lt_of_le one_pos (le_max_right lambda 1)
      obtain ⟨x, rng₂, hx⟩ := Distr.exists_sample hok rng₁
      exact ⟨x, rng₂, by simp only [sampleMs, h]; exact hx⟩
  | pareto =>
      obtain ⟨scale, rng₁, h, hscale⟩ :=
        exists_genRangeF64 (le_max_right (F.round (maxMs / 3)) minMs) rng
      have hshapes : F.round (12 / 10) ≤ F.round (28 / 10) := hF.round_mono (by norm_num)
      obtain ⟨shape, rng₂, h', hshape⟩ := exists_genRangeF64 hshapes rng₁
      have hone : 1 ≤ F.round (12 / 10) := hF.one_le_round (by norm_num)
      have hok : (Distr.pareto scale shape).Accepted :=
        ⟨hpos.trans_le hscale, one_pos.trans_le (hone.trans hshape)⟩
      obtain ⟨x, rng₃, hx⟩ := Distr.exists_sample hok rng₂
      refine ⟨x, rng₃, ?_⟩
      simp only [sampleMs, h]
      show (genRangeF64 _ _ rng₁).bind _ = _
      rw [h']
      exact hx
  | bimodal => exact exists_sampleModes hF hle hmax hround _ _ (by norm_num) rng
  | burstAndSilence => exact exists_sampleModes hF hle hmax hround _ _ (by norm_num) rng
  | uniform =>
      obtain ⟨x, rng', h, -⟩ := exists_genRangeF64 hle rng
      exact ⟨x, rng', h⟩
  | exponential =>
      obtain ⟨mean, rng₁, h, -⟩ := exists_genRangeF64 hle rng
      have hok : (Distr.exp (F.round (1 / max mean 1))).Accepted :=
        hF.round_nonneg (div_nonneg zero_le_one (zero_le_one.trans (le_max_right mean 1)))
      obtain ⟨x, rng₂, hx⟩ := Distr.exists_sample hok rng₁
      exact ⟨x, rng₂, by simp only [sampleMs, h]; exact hx⟩

-- ============================================================================
-- One call
-- ============================================================================

/-- Whatever is sampled, the delay lies between the converted ends. -/
theorem delay_mem (hle : minMs ≤ maxMs) (x : Rat) :
    F64.asU64 minMs ≤ F64.asU64 (F64.clamp x minMs maxMs) ∧
      F64.asU64 (F64.clamp x minMs maxMs) ≤ F64.asU64 maxMs :=
  ⟨F64.asU64_mono (F64.le_clamp hle), F64.asU64_mono (F64.clamp_le hle)⟩

theorem exists_nextDelay (hF : F.Nearest) (s : SeedATimingScheduler ρ)
    (hrep : s.config.Representable F) :
    ∃ delay rng, s.nextDelay F = some (delay, rng) ∧
      s.config.minDelay ≤ delay ∧ delay ≤ s.config.maxDelay := by
  have hle : millis F s.config.minDelay ≤ millis F s.config.maxDelay :=
    millis_mono hF.toLawful s.config_valid.minDelay_le
  have hpos : 0 < millis F s.config.minDelay :=
    millis_pos s.config_valid.minDelay_pos hrep.minDelay_le
  obtain ⟨x, rng, h⟩ := exists_sampleMs hF hpos hle (hF.round_round _) s.regime.kind s.rng
  obtain ⟨hlo, hhi⟩ := delay_mem hle (F64.roundHalf x)
  refine ⟨_, rng, ?_, hrep.minDelay_le.trans (Nat.mul_le_mul_right _ hlo),
    (Nat.mul_le_mul_right _ hhi).trans hrep.le_maxDelay⟩
  simp only [nextDelay, h]
  exact if_neg (not_lt.mpr hle)

theorem throughMicros_le (d : Duration) : throughMicros d ≤ d :=
  calc d / 1000 % 2 ^ 64 * 1000 ≤ d / 1000 * 1000 := Nat.mul_le_mul_right _ (Nat.mod_le _ _)
    _ ≤ d := Nat.div_mul_le_self d 1000

theorem exists_nextPoolThresholds (hv : c.Valid) (hrep : c.Representable F) (rng : ρ) :
    ∃ t rng', nextPoolThresholds c rng = some (t, rng') ∧
      c.clumping.minPacketsPerBurst ≤ t.maxPackets ∧
      t.maxPackets ≤ c.clumping.maxPacketsPerBurst ∧
      c.clumping.minTimeout ≤ t.timeout ∧ t.timeout ≤ c.clumping.maxTimeout := by
  obtain ⟨n, rng₁, hn⟩ := exists_genRange hv.clumping.minPackets_le rng
  have hmicros : ClumpingConfig.micros c.clumping.minTimeout
      ≤ ClumpingConfig.micros c.clumping.maxTimeout :=
    Nat.le_of_mul_le_mul_right hrep.timeouts_le (by norm_num)
  obtain ⟨us, rng₂, hus⟩ := exists_genRange hmicros rng₁
  obtain ⟨hnlo, hnhi⟩ := genRange_mem hn
  obtain ⟨huslo, hushi⟩ := genRange_mem hus
  refine ⟨⟨n, .fromMicros us⟩, rng₂, ?_, hnlo, hnhi,
    hrep.minTimeout_le.trans (Nat.mul_le_mul_right _ huslo),
    (Nat.mul_le_mul_right _ hushi).trans (throughMicros_le _)⟩
  rw [nextPoolThresholds, nextThresholds, hn]
  show (genRange _ _ rng₁).bind _ = _
  rw [hus]
  rfl

/-- A decision is made and is in bounds; the configuration stays. -/
theorem exists_nextDecision (hF : F.Nearest) (s : SeedATimingScheduler ρ)
    (hrep : s.config.Representable F) :
    ∃ d s', s.nextDecision F = some (d, s') ∧ d.InBounds s.config ∧ s'.config = s.config := by
  obtain ⟨delay, rng, hdelay, hlo, hhi⟩ := exists_nextDelay hF s hrep
  obtain ⟨t, rng', ht, h1, h2, h3, h4⟩ := exists_nextPoolThresholds s.config_valid hrep rng
  refine ⟨⟨delay, s.regime, t⟩, { s with rng := rng' }, ?_, ⟨hlo, hhi, h1, h2, h3, h4⟩, rfl⟩
  rw [nextDecision, hdelay]
  show (nextPoolThresholds s.config rng).bind _ = _
  rw [ht]
  rfl

theorem exists_nextRegime (hv : c.Valid) (rng : ρ) :
    ∃ regime rng', nextRegime c rng = some (regime, rng') := by
  obtain ⟨n, rng₁, hn⟩ := exists_genRange (Nat.zero_le 5) rng
  obtain ⟨bytes, rng₂, hbytes⟩ := exists_genRange hv.minBytes_le rng₁
  obtain ⟨packets, rng₃, hpackets⟩ := exists_genRange hv.minPackets_le rng₂
  simp only [nextRegime, hn]
  show ∃ regime rng', (genRange _ _ rng₁).bind _ = some (regime, rng')
  rw [hbytes]
  show ∃ regime rng', (genRange _ _ rng₂).bind _ = some (regime, rng')
  rw [hpackets]
  exact ⟨_, rng₃, rfl⟩

/-- Traffic may switch the regime, for which the configuration has thresholds. -/
theorem exists_observeBurst (s : SeedATimingScheduler ρ) (bytes packets : Nat) :
    ∃ s', s.observeBurst bytes packets = some s' ∧ s'.config = s.config := by
  unfold observeBurst
  dsimp only
  split
  · obtain ⟨regime, rng, h⟩ := exists_nextRegime s.config_valid s.rng
    rw [h]
    exact ⟨_, rfl, rfl⟩
  · exact ⟨_, rfl, rfl⟩

/-- Any calls: by induction on them, the configuration staying as it is. -/
theorem exists_decisions (hF : F.Nearest) (calls : List TimingCall)
    (s : SeedATimingScheduler ρ) (hrep : s.config.Representable F) :
    ∃ ds, s.decisions F calls = some ds ∧ ∀ d ∈ ds, d.InBounds s.config := by
  induction calls generalizing s with
  | nil => exact ⟨[], rfl, fun d hd => absurd hd List.not_mem_nil⟩
  | cons call calls ih =>
      cases call with
      | observeBurst bytes packets =>
          obtain ⟨s', h, hconfig⟩ := s.exists_observeBurst bytes packets
          obtain ⟨ds, hds, hin⟩ := ih s' (hconfig ▸ hrep)
          refine ⟨ds, ?_, hconfig ▸ hin⟩
          rw [decisions, h]
          exact hds
      | nextDecision =>
          obtain ⟨d, s', h, hd, hconfig⟩ := exists_nextDecision hF s hrep
          obtain ⟨ds, hds, hin⟩ := ih s' (hconfig ▸ hrep)
          refine ⟨d :: ds, ?_, ?_⟩
          · rw [decisions, h]
            show (s'.decisions F calls).bind _ = _
            rw [hds]
            rfl
          · intro d' hd'
            obtain rfl | hd' := List.mem_cons.mp hd'
            · exact hd
            · exact hconfig ▸ hin d' hd'

end SeedATimingScheduler

-- ============================================================================
-- The ends of the ranges are drawn
-- ============================================================================

/-- A generator that draws one end of every range, and `value` from a distribution whose
    support has it. -/
structure EndRng where
  high : Bool
  value : Rat
  deriving DecidableEq, Repr

instance : DistrRng EndRng where
  nextU64 rng := (0, rng)
  fillBytes n rng := (Vector.replicate n 0, rng)
  fromSeed _ := ⟨false, 0⟩
  sample lo hi h rng := (if rng.high then ⟨hi, h, le_rfl⟩ else ⟨lo, le_rfl, h⟩, rng)
  genBool _ rng := (rng.high, rng)
  uniform lo hi h rng := (if rng.high then ⟨hi, h, le_rfl⟩ else ⟨lo, le_rfl, h⟩, rng)
  distr d rng := (⟨max d.least rng.value, le_max_left _ _⟩, rng)

theorem genRange_end {lo hi n : Nat} {rng rng' : EndRng}
    (h : genRange lo hi rng = some (n, rng')) :
    n = (if rng.high then hi else lo) ∧ rng' = rng := by
  unfold genRange at h
  split at h
  · obtain ⟨rfl, rfl⟩ := Prod.mk.inj (Option.some.inj h)
    refine ⟨?_, rfl⟩
    show (if rng.high then _ else _ : {n // lo ≤ n ∧ n ≤ hi}).1 = _
    split <;> rfl
  · cases h

theorem F64.clamp_eq_lo {x lo hi : Rat} (hx : x ≤ lo) (h : lo ≤ hi) : F64.clamp x lo hi = lo := by
  obtain hlt | rfl := hx.lt_or_eq
  · rw [F64.clamp, if_pos hlt]
  · rw [F64.clamp, if_neg (lt_irrefl _), if_neg (not_lt.mpr h)]

theorem F64.clamp_eq_hi {x lo hi : Rat} (hx : hi ≤ x) (h : lo ≤ hi) : F64.clamp x lo hi = hi := by
  rw [F64.clamp, if_neg (not_lt.mpr (h.trans hx))]
  obtain hlt | rfl := hx.lt_or_eq
  · rw [if_pos hlt]
  · rw [if_neg (lt_irrefl _)]

/-- Rounding goes down by a half at most. -/
theorem F64.le_roundHalf {x y : Rat} (hx : 0 ≤ x) (h : x + 1 / 2 ≤ y) : x ≤ F64.roundHalf y := by
  rw [F64.roundHalf, if_neg (not_lt.mpr (by linarith))]
  have hfloor : y + 1 / 2 < ((y + 1 / 2).floor : Rat) + 1 :=
    (Rat.lt_floor_add_one _).trans_eq (Int.cast_add _ 1)
  linarith

namespace SeedATimingScheduler

variable {F : F64} {c : TimingConfig}

/-- A scheduler in the Poisson regime over such a generator. -/
def atEnd (c : TimingConfig) (hv : c.Valid) (rng : EndRng) : SeedATimingScheduler EndRng where
  config := c
  rng
  regime := ⟨.poisson, ⟨c.minRegimeBytes, c.minRegimePackets⟩⟩
  bytesInRegime := 0
  packetsInRegime := 0
  config_valid := hv

theorem atEnd_nextDelay (hF : F.Lawful) (hv : c.Valid) (rng : EndRng) :
    (atEnd c hv rng).nextDelay F = some (.fromMillis (F64.asU64 (F64.clamp
      (F64.roundHalf (max 0 rng.value)) (millis F c.minDelay) (millis F c.maxDelay))), rng) := by
  have hle : millis F c.minDelay ≤ millis F c.maxDelay := millis_mono hF hv.minDelay_le
  have hsample : sampleMs F (millis F c.minDelay) (millis F c.maxDelay) .poisson rng
      = some (max 0 rng.value, rng) := by
    rw [sampleMs, genRangeF64, dif_pos hle]
    show Distr.sample _ _ = _
    rw [Distr.sample, if_pos]
    · rfl
    · exact lt_of_lt_of_le one_pos (le_max_right _ 1)
  show (sampleMs F (millis F c.minDelay) (millis F c.maxDelay) .poisson rng).bind _ = _
  rw [hsample]
  exact if_neg (not_lt.mpr hle)

/-- The shortest delay a decision can have. -/
theorem atEnd_nextDelay_low (hF : F.Lawful) (hv : c.Valid) :
    (atEnd c hv ⟨false, 0⟩).nextDelay F = some (throughMillis F c.minDelay, ⟨false, 0⟩) := by
  rw [atEnd_nextDelay hF hv, max_self, F64.clamp_eq_lo _ (millis_mono hF hv.minDelay_le)]
  · rfl
  · show F64.roundHalf 0 ≤ _
    rw [show F64.roundHalf 0 = 0 by decide +kernel]
    exact millis_nonneg hF _

/-- The longest delay a decision can have. -/
theorem atEnd_nextDelay_high (hF : F.Lawful) (hv : c.Valid) :
    (atEnd c hv ⟨true, millis F c.maxDelay + 1⟩).nextDelay F
      = some (throughMillis F c.maxDelay, ⟨true, millis F c.maxDelay + 1⟩) := by
  have h0 : 0 ≤ millis F c.maxDelay := millis_nonneg hF _
  rw [atEnd_nextDelay hF hv, max_eq_right (by show 0 ≤ millis F c.maxDelay + 1; linarith),
    F64.clamp_eq_hi (F64.le_roundHalf h0 (by linarith)) (millis_mono hF hv.minDelay_le)]
  rfl

theorem nextPoolThresholds_end {rng rng' : EndRng} {t : CycleThresholds}
    (h : nextPoolThresholds c rng = some (t, rng')) :
    ClumpingConfig.micros c.clumping.minTimeout ≤ ClumpingConfig.micros c.clumping.maxTimeout ∧
      t.timeout = throughMicros (if rng.high then c.clumping.maxTimeout
        else c.clumping.minTimeout) := by
  obtain ⟨⟨n, rng₁⟩, hn, h⟩ := Option.bind_eq_some_iff.mp h
  obtain ⟨⟨us, rng₂⟩, hus, h⟩ := Option.bind_eq_some_iff.mp h
  obtain ⟨rfl, rfl⟩ := Prod.mk.inj (Option.some.inj h)
  obtain ⟨-, rfl⟩ := genRange_end hn
  obtain ⟨hlo, hhi⟩ := genRange_mem hus
  obtain ⟨rfl, -⟩ := genRange_end hus
  refine ⟨hlo.trans hhi, ?_⟩
  cases rng₁.high <;> rfl

/-- What staying in bounds says about one decision. -/
theorem exists_decision (hbounds : c.StaysInBounds F) (hv : c.Valid) {rng : EndRng}
    {delay : Duration} (hdelay : (atEnd c hv rng).nextDelay F = some (delay, rng)) :
    ∃ t rng', nextPoolThresholds c rng = some (t, rng') ∧
      c.minDelay ≤ delay ∧ delay ≤ c.maxDelay ∧ c.clumping.minTimeout ≤ t.timeout := by
  obtain ⟨ds, hds, hin⟩ := hbounds EndRng (atEnd c hv rng) rfl [.nextDecision]
  obtain ⟨⟨d, s'⟩, hd, hds⟩ := Option.bind_eq_some_iff.mp hds
  obtain rfl : [d] = ds := Option.some.inj hds
  have hd : (nextPoolThresholds c rng).bind (fun (t, rng) =>
      some (⟨delay, (atEnd c hv rng).regime, t⟩, atEnd c hv rng)) = some (d, s') := by
    rw [nextDecision, hdelay] at hd
    exact hd
  obtain ⟨⟨t, rng'⟩, ht, hd⟩ := Option.bind_eq_some_iff.mp hd
  obtain ⟨rfl, -⟩ := Prod.mk.inj (Option.some.inj hd)
  have hd := hin _ (List.mem_singleton_self _)
  exact ⟨t, rng', ht, hd.minDelay_le, hd.le_maxDelay, hd.minTimeout_le⟩

end SeedATimingScheduler

-- ============================================================================
-- The scheduler keeps its bounds exactly if they are representable
-- ============================================================================

open SeedATimingScheduler in
/-- For every accepted configuration: no call panics and every decision is in bounds,
    whatever the regime, the draws and the calls, exactly if the configuration's bounds
    survive the conversions. -/
theorem TimingConfig.staysInBounds_iff {F : F64} (hF : F.Nearest) {c c' : TimingConfig}
    (hok : c.validate = .ok c') : c'.StaysInBounds F ↔ c'.Representable F := by
  obtain ⟨hv, rfl⟩ := validate_eq_ok.mp hok
  constructor
  · intro hbounds
    obtain ⟨t, rng, ht, hmin, -, hmint⟩ :=
      exists_decision hbounds hv (atEnd_nextDelay_low hF.toLawful hv)
    obtain ⟨-, -, -, -, hmax, -⟩ :=
      exists_decision hbounds hv (atEnd_nextDelay_high hF.toLawful hv)
    obtain ⟨hmicros, htimeout⟩ := nextPoolThresholds_end ht
    exact ⟨hmin, hmax, hmint.trans_eq htimeout, Nat.mul_le_mul_right _ hmicros⟩
  · intro hrep ρ _ s hs calls
    subst hs
    exact exists_decisions hF calls s hrep

section Whole

variable {F : F64}

theorem F64.asU64_natCast {n : Nat} (h : n ≤ 2 ^ 64 - 1) : F64.asU64 (n : Rat) = n := by
  have hfloor : (n : Rat).floor = n := Rat.floor_intCast n
  rw [F64.asU64, hfloor, Int.toNat_natCast, Nat.min_eq_left h]

theorem SeedATimingScheduler.throughMillis_eq (hF : F.Lawful) {d : Duration}
    (h : d / 1000000 ≤ 2 ^ 53) : throughMillis F d = d / 1000000 * 1000000 := by
  have hms : millis F d = ((d / 1000000 : Nat) : Rat) := hF.round_natCast _ h
  rw [throughMillis, hms, F64.asU64_natCast (h.trans (by norm_num))]
  rfl

theorem SeedATimingScheduler.throughMicros_eq {d : Duration} (h : d / 1000 < 2 ^ 64) :
    throughMicros d = d / 1000 * 1000 := by
  rw [throughMicros, ClumpingConfig.micros, Nat.mod_eq_of_lt h]
  rfl

/-- What is left of a whole number of units is the number itself. -/
theorem le_div_mul_iff {d unit : Nat} : d ≤ d / unit * unit ↔ d % unit = 0 := by
  have h := Nat.div_add_mod d unit
  rw [Nat.mul_comm] at h
  omega

/-- Delays of up to 2^53 milliseconds and timeouts of up to 2^64 microseconds survive if the
    minima are whole. -/
theorem TimingConfig.representable_iff (hF : F.Lawful) {c : TimingConfig}
    (hv : c.Valid) (hdelay : c.maxDelay / 1000000 ≤ 2 ^ 53)
    (htimeout : c.clumping.maxTimeout / 1000 < 2 ^ 64) :
    c.Representable F ↔ c.minDelay % 1000000 = 0 ∧ c.clumping.minTimeout % 1000 = 0 := by
  have hmin : throughMillis F c.minDelay = c.minDelay / 1000000 * 1000000 :=
    SeedATimingScheduler.throughMillis_eq hF ((Nat.div_le_div_right hv.minDelay_le).trans hdelay)
  have hmax : throughMillis F c.maxDelay = c.maxDelay / 1000000 * 1000000 :=
    SeedATimingScheduler.throughMillis_eq hF hdelay
  have horder := Nat.div_le_div_right (c := 1000) hv.clumping.minTimeout_le
  have hmint := SeedATimingScheduler.throughMicros_eq (horder.trans_lt htimeout)
  have hmaxt := SeedATimingScheduler.throughMicros_eq htimeout
  rw [← le_div_mul_iff, ← le_div_mul_iff, ← hmin, ← hmint]
  constructor
  · exact fun h => ⟨h.minDelay_le, h.minTimeout_le⟩
  · intro h
    refine ⟨h.1, hmax ▸ Nat.div_mul_le_self _ _, h.2, ?_⟩
    rw [hmint, hmaxt]
    exact Nat.mul_le_mul_right _ horder

end Whole

/-- Two milliseconds to twenty. -/
def TimingConfig.fast : TimingConfig := { TimingConfig.default with
  minDelay := .fromMillis 2, maxDelay := .fromMillis 20 }

theorem TimingConfig.staysInBounds_iff_sample :
    TimingConfig.fast.StaysInBounds .steep ↔ TimingConfig.fast.Representable .steep :=
  staysInBounds_iff F64.steep_nearest (c := .fast) rfl

/-- A fixed delay in microseconds. -/
def TimingConfig.fixed (us : Nat) : TimingConfig := { TimingConfig.default with
  minDelay := .fromMicros us, maxDelay := .fromMicros us }

theorem TimingConfig.fixed_valid {us : Nat} (h : 0 < us) : (fixed us).Valid where
  minDelay_pos := Nat.mul_pos h (by decide)
  minDelay_le := le_rfl
  minBytes_pos := default_valid.minBytes_pos
  minPackets_pos := default_valid.minPackets_pos
  minBytes_le := default_valid.minBytes_le
  minPackets_le := default_valid.minPackets_le
  clumping := default_valid.clumping

open SeedATimingScheduler in
/-- With a delay of one and a half milliseconds the decision is one.  Half a millisecond is
    zero for the Pareto regime, which panics. -/
theorem TimingConfig.delay_below_minimum :
    (∃ hv : (fixed 1500).Valid, (fixed 1500).validate = .ok (fixed 1500) ∧
      ((start (fixed 1500) hv (⟨false, 0⟩ : EndRng)).bind fun s =>
          s.decisions .steep [.nextDecision]).map (fun ds => ds.map TimingDecision.delay)
        = some [.fromMillis 1] ∧ Duration.fromMillis 1 < (fixed 1500).minDelay) ∧
    (∃ hv : (fixed 500).Valid, (fixed 500).validate = .ok (fixed 500) ∧
      ({ atEnd (fixed 500) hv ⟨false, 0⟩ with regime := ⟨.pareto, ⟨1, 1⟩⟩ }).decisions .steep
        [.nextDecision] = none) := by
  have hv : ∀ {us : Nat}, 0 < us → (fixed us).validate = .ok (fixed us) :=
    fun h => validate_eq_ok.mpr ⟨fixed_valid h, rfl⟩
  refine ⟨⟨fixed_valid (by decide), hv (by decide), ?_, by decide⟩,
    ⟨fixed_valid (by decide), hv (by decide), ?_⟩⟩
  · decide +kernel
  · decide +kernel

end MixTor
