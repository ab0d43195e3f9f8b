/-
  MixTor.Lab.Adversary

  The lab's adversary (correlation_attack.rs): all its attacks on a log, and whether one
  of them won.

  The series are counted with the rounding `F` of f64, the statistics are computed in
  an arithmetic `A`.  `none` is a panic: a series that has too many bins to be stored.
-/

import MixTor.Lab.Pearson
import MixTor.Lab.RankCorrelation
import MixTor.Lab.SizeAttack
import MixTor.Lib.Histogram

namespace MixTor

open Text (Str)

variable {K : Type} [Field K] [LinearOrder K]

-- ============================================================================
-- Configuration and report
-- ============================================================================

/-- The tunables of all attacks. -/
structure AdversaryConfig extends AttackConfig where
  sizeKsThreshold : Double

def AdversaryConfig.default (F : F64) : AdversaryConfig where
  toAttackConfig := .default
  sizeKsThreshold := .finite (F.round (3 / 20))

/-- The size attack: real frames against dummies. -/
structure SizeAttack where
  realFrames : Nat
  dummyFrames : Nat
  ksStatistic : ℚ
  bestThresholdAccuracy : ℚ
  distinguishable : Bool

/-- The total volume attack: the flows' bytes on the wire against their real bytes. -/
structure TotalVolumeAttack (K : Type) where
  flows : Nat
  pearsonTotal : K
  spearmanTotal : K
  wireCv : K
  totals : List (Nat × Rat × Rat)
  leaks : Bool

/-- How long the flows were active; reported, and not scored. -/
structure DurationLeak where
  spans : List (Nat × Rat × Rat)
  medianRelGap : Rat
  leaks : Bool

/-- The linking attack: which real flow each wire flow is taken for. -/
structure LinkingAttack (K : Type) where
  flows : Nat
  linkingAccuracy : K
  chance : K
  matched : List (Nat × Nat × Bool)
  beatsChance : Bool

structure AdversaryReport (K : Type) where
  sizeAttack : Option SizeAttack
  volumeAttack : Option (VolumeAttack K)
  volumeCoarse : List (Double × VolumeAttack K)
  totalVolumeAttack : Option (TotalVolumeAttack K)
  durationLeak : Option DurationLeak
  linkingAttack : Option (LinkingAttack K)
  connIds : List Nat
  config : AdversaryConfig

/-- One of the scored attacks succeeded. -/
def AdversaryReport.adversaryWon (r : AdversaryReport K) : Bool :=
  r.sizeAttack.any (·.distinguishable) || r.volumeAttack.any (·.leaks) ||
    r.volumeCoarse.any (·.2.leaks) || r.totalVolumeAttack.any (·.leaks) ||
    r.linkingAttack.any (·.beatsChance)

/-- The connections of a log, in order and without repeats. -/
def distinctConnIds (records : List LogRecord) (events : EventNames) : List Nat :=
  dedupSizes (sortSizes ((records.filter fun r =>
    r.event = events.wire ∨ r.event = events.real).map LogRecord.connId))

-- ============================================================================
-- Attack 1: sizes
-- ============================================================================

/-- The sizes of the frames of one kind. -/
def frameSizes (F : F64) (records : List LogRecord) (events : EventNames) (kind : LabKind) :
    List Rat :=
  (records.filter fun r => r.event = events.wire ∧ r.kind = kind.name).map fun r =>
    F.round (r.bytes : ℕ)

/-- The inner `none` says that there is nothing to compare.  The walk of the statistic
    always ends. -/
def sizeAttack (F : F64) (records : List LogRecord) (events : EventNames)
    (config : AdversaryConfig) : Option (Option SizeAttack) :=
  let realSizes := frameSizes F records events .real
  let dummySizes := frameSizes F records events .dummy
  if realSizes = [] ∨ dummySizes = [] then some none
  else
    (ksStatistic (realSizes.length + dummySizes.length + 1) realSizes dummySizes).map fun ks =>
      some
        { realFrames := realSizes.length
          dummyFrames := dummySizes.length
          ksStatistic := ks
          bestThresholdAccuracy := bestThresholdAccuracy realSizes dummySizes
          distinguishable := exceeds config.sizeKsThreshold ks }

/-- Frames of one size have a sample of one size for each kind. -/
theorem frameSizes_eq_replicate (F : F64) {records : List LogRecord} {events : EventNames}
    {cell : Nat} (hcell : ∀ r ∈ records, r.event = events.wire → r.bytes = cell)
    (kind : LabKind) :
    ∃ n, frameSizes F records events kind = List.replicate n (F.round (cell : ℕ)) := by
  refine ⟨_, List.eq_replicate_iff.mpr ⟨rfl, fun x hx => ?_⟩⟩
  obtain ⟨r, hr, rfl⟩ := List.mem_map.mp hx
  obtain ⟨hr, hwire, -⟩ : r ∈ records ∧ r.event = events.wire ∧ r.kind = kind.name := by
    simpa using hr
  rw [hcell r hr hwire]

/-- Frames of one size give the size attack nothing. -/
theorem sizeAttack_of_one_size (F : F64) {records : List LogRecord} {events : EventNames}
    {cell : Nat} (hcell : ∀ r ∈ records, r.event = events.wire → r.bytes = cell)
    {config : AdversaryConfig} (hthreshold : exceeds config.sizeKsThreshold (0 : ℚ) = false) :
    ∃ result, sizeAttack F records events config = some result ∧
      result.any (·.distinguishable) = false := by
  obtain ⟨m, hreal⟩ := frameSizes_eq_replicate F hcell .real
  obtain ⟨n, hdummy⟩ := frameSizes_eq_replicate F hcell .dummy
  rw [sizeAttack, hreal, hdummy]
  split
  · exact ⟨none, rfl, rfl⟩
  · rw [ksStatistic_replicate _ _ _ _ (by rw [List.length_replicate, List.length_replicate]; omega)]
    exact ⟨_, rfl, hthreshold⟩

-- ============================================================================
-- Attack 3: linking
-- ============================================================================

/-- `wire_by_flow` and `real_by_flow`. -/
structure FlowSeries where
  wire : Nat → Option (List Rat)
  real : Nat → Option (List Rat)

/-- `if let Some(v) = map.get_mut(&id) { v[idx] += bytes as f64 }`. -/
def addToFlow (F : F64) (flows : Nat → Option (List Rat)) (id idx bytes : Nat) :
    Option (Nat → Option (List Rat)) :=
  match flows id with
  | none => some flows
  | some v => (addAt F v idx bytes).map fun v => Function.update flows id (some v)

/-- Count one record on the grid all flows share. -/
def linkRecord (F : F64) (events : EventNames) (t0 binNs nBins : Nat) (s : FlowSeries)
    (r : LogRecord) : Option FlowSeries :=
  if r.unixNanos < t0 then some s
  else
    let idx := min (binIndex t0 binNs r.unixNanos) (nBins - 1)
    if r.event = events.wire then
      (addToFlow F s.wire r.connId idx r.bytes).map fun wire => { s with wire }
    else if r.event = events.real then
      (addToFlow F s.real r.connId idx r.bytes).map fun real => { s with real }
    else some s

/-- The series of all flows on the grid from `t0` to `tEnd`. -/
def linkingSeries (F : F64) (records : List LogRecord) (events : EventNames)
    (binNs t0 tEnd : Nat) (connIds : List Nat) : Option FlowSeries :=
  let nBins := binIndex t0 binNs tEnd + 1
  if 2 ^ 60 ≤ nBins then none
  else
    let empty := fun id => if id ∈ connIds then some (List.replicate nBins 0) else none
    records.foldlM (linkRecord F events t0 binNs nBins) ⟨empty, empty⟩

/-- The real flow that a wire flow is taken for. -/
def guessFlow (p : List Rat → List Rat → K) (s : FlowSeries) (config : AttackConfig)
    (connIds : List Nat) (wireId : Nat) : Nat :=
  let wire := (s.wire wireId).getD []
  (RunningMax.best Prod.snd (connIds.headD 0, (⊥ : WithBot K)) (connIds.map fun realId =>
    (realId, ((peakCrossCorrelation p wire ((s.real realId).getD []) config.maxLagBins).2 :
      WithBot K)))).1

/-- The score of the guesses. -/
def scoreLinks (A : Arith K) (guess : Nat → Nat) (connIds : List Nat) : LinkingAttack K :=
  let matched := connIds.map fun wireId => (wireId, guess wireId, guess wireId == wireId)
  let correct := matched.countP (·.2.2)
  let accuracy := A.div (A.round (correct : ℕ)) (A.round (connIds.length : ℕ))
  let chance := A.div 1 (A.round (connIds.length : ℕ))
  { flows := connIds.length
    linkingAccuracy := accuracy
    chance := chance
    matched := matched
    beatsChance := decide (A.add chance (A.round (1 / 1000000000)) < accuracy) &&
      decide (((1 / 2 : Rat) : K) < accuracy) }

def linkingAttack (F : F64) (A : Arith K) (records : List LogRecord) (events : EventNames)
    (config : AttackConfig) (connIds : List Nat) : Option (Option (LinkingAttack K)) :=
  if connIds.length < 2 then some none
  else if binNs F config.binMs = 0 then some none
  else
    let relevant := records.filter fun r => r.event = events.wire ∨ r.event = events.real
    match (relevant.map LogRecord.unixNanos).min?, (relevant.map LogRecord.unixNanos).max? with
    | some t0, some tEnd =>
        (linkingSeries F records events (binNs F config.binMs) t0 tEnd connIds).map fun s =>
          some (scoreLinks A (guessFlow (pearson A) s config connIds) connIds)
    | _, _ => some none

-- ============================================================================
-- Attack 4: total volumes
-- ============================================================================

/-- The bytes of one flow, on the wire and real. -/
def flowTotals (F : F64) (records : List LogRecord) (events : EventNames) (id : Nat) :
    Rat × Rat :=
  (records.filter fun r => r.connId = id).foldl (fun t r =>
    if r.event = events.wire then (F.add t.1 (F.round (r.bytes : ℕ)), t.2)
    else if r.event = events.real then (t.1, F.add t.2 (F.round (r.bytes : ℕ)))
    else t) (0, 0)

/-- `MIN_DISTINGUISHABLE_CV`, the f64 next to 0.05. -/
def minDistinguishableCv : Rat := 3602879701896397 / 2 ^ 56

/-- The spread of the totals. -/
def coefficientOfVariation (A : Arith K) (xs : List K) : K :=
  if 0 < mean A xs then A.div (A.sqrt (variance A xs)) (mean A xs) else 0

/-- The ranks are found by loops that always end. -/
def totalVolumeAttack (F : F64) (A : Arith K) (records : List LogRecord) (events : EventNames)
    (config : AttackConfig) (connIds : List Nat) : Option (Option (TotalVolumeAttack K)) :=
  if connIds.length < 3 then some none
  else
    let totals := (connIds.map fun id => (id, flowTotals F records events id)).filter fun t =>
      0 < t.2.2
    if totals.length < 3 then some none
    else
      let wire := totals.map (·.2.1)
      let real := totals.map (·.2.2)
      let r := pearson A wire real
      let cv := coefficientOfVariation A (wire.map fun x : Rat => (x : K))
      (spearman F (pearson A) wire real).map fun rho => some
        { flows := totals.length
          pearsonTotal := r
          spearmanTotal := rho
          wireCv := cv
          totals := totals
          leaks := decide ((minDistinguishableCv : K) ≤ cv) &&
            (exceeds config.volumeCorrThreshold |r| ||
              exceeds config.volumeCorrThreshold |rho|) }

-- ============================================================================
-- Durations
-- ============================================================================

/-- `median`. -/
def median (F : F64) (xs : List Rat) : Rat :=
  let xs := sortSizes xs
  let n := xs.length
  if n = 0 then 0
  else if n % 2 = 1 then xs.getD (n / 2) 0
  else F.mul (1 / 2) (F.add (xs.getD (n / 2 - 1) 0) (xs.getD (n / 2) 0))

/-- From the first to the last of the times, in ms. -/
def spanMs (F : F64) (ts : List Nat) : Rat :=
  F.round (F.round ((ts.max?.getD 0 - ts.min?.getD 0 : Nat) : Rat) / 1000000)

def durationLeak (F : F64) (records : List LogRecord) (events : EventNames)
    (connIds : List Nat) : Option DurationLeak :=
  let times := fun event id =>
    (records.filter fun r => r.connId = id ∧ r.event = event).map LogRecord.unixNanos
  let measured := connIds.filter fun id =>
    2 ≤ (times events.wire id).length ∧ 2 ≤ (times events.real id).length
  let spans := measured.map fun id =>
    (id, spanMs F (times events.wire id), spanMs F (times events.real id))
  let relGaps := (spans.filter fun s => 0 < s.2.2).map fun s =>
    F.round (|F.sub s.2.1 s.2.2| / s.2.2)
  if spans = [] then none
  else
    some ⟨spans, median F relGaps, !relGaps.isEmpty && decide (median F relGaps < F.round (1 / 5))⟩

-- ============================================================================
-- The driver
-- ============================================================================

/-- The coarser scales that are examined besides the base one. -/
def coarseScales (F : F64) (binMs : Double) : List Double :=
  [.finite 1000, .finite 5000].filter fun scale =>
    !Double.le scale (Double.mul F binMs (.finite (3 / 2)))

/-- The configuration of the volume attack at a coarser scale. -/
def coarseConfig (config : AttackConfig) (scale : Double) : AttackConfig :=
  { config with binMs := scale, minBins := 30, maxLagBins := 0 }

/-- Run every attack and report. -/
def runAdversary (F : F64) (A : Arith K) (records : List LogRecord) (events : EventNames)
    (config : AdversaryConfig) : Option (AdversaryReport K) := do
  let connIds := distinctConnIds records events
  let volumeCoarse ← (coarseScales F config.binMs).mapM fun scale =>
    (volumeAttack F (pearson A) records events (coarseConfig config.toAttackConfig scale)
      connIds).map fun a => a.map fun a => (scale, a)
  let sizeAttack ← sizeAttack F records events config
  let volumeAttack ← volumeAttack F (pearson A) records events config.toAttackConfig connIds
  let totalVolumeAttack ← totalVolumeAttack F A records events config.toAttackConfig connIds
  let linkingAttack ← linkingAttack F A records events config.toAttackConfig connIds
  return {
    sizeAttack := sizeAttack
    volumeAttack := volumeAttack
    volumeCoarse := volumeCoarse.reduceOption
    totalVolumeAttack := totalVolumeAttack
    durationLeak := durationLeak F records events connIds
    linkingAttack := linkingAttack
    connIds := connIds
    config := config }

end MixTor
