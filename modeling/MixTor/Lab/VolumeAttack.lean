/-
  MixTor.Lab.VolumeAttack

  The volume attack of the lab's adversary (correlation_attack.rs): for each connection
  the bytes on the wire and the real bytes, counted in bins of time, are correlated with
  each other over a window of lags, and the worst connection is reported.

  The correlation coefficient is a parameter with values in an ordered field.  `none` at
  the outside is a panic: bin numbers are cast to 64 bits, and a series has a bin for
  every number.
-/

import MixTor.Lab.LabLog
import MixTor.Lib.RunningMax
import MixTor.Shaping.Double
import Mathlib.Algebra.Order.Field.Basic
import Mathlib.Order.WithBot

namespace MixTor

open Text (Str)

-- ============================================================================
-- Configuration and result
-- ============================================================================

/-- Which event names hold the data. -/
structure EventNames where
  wire : Str
  real : Str
  deriving DecidableEq, Repr

namespace EventNames

def server : EventNames := ⟨LabEvent.name .serverWireInput, LabEvent.name .serverRealOutput⟩
def client : EventNames := ⟨LabEvent.name .clientWireOutput, LabEvent.name .clientInput⟩
def serverReturn : EventNames := ⟨LabEvent.name .serverWireReturn, LabEvent.name .serverBridgeReply⟩
def clientReturn : EventNames := ⟨LabEvent.name .clientWireReturn, LabEvent.name .clientInboundReal⟩

end EventNames

structure AttackConfig where
  binMs : Double
  maxLagBins : Nat
  volumeCorrThreshold : Double
  minBins : Nat
  deriving DecidableEq, Repr

def AttackConfig.default : AttackConfig where
  binMs := .finite 100
  maxLagBins := 20
  volumeCorrThreshold := .finite (1 / 2)
  minBins := 3

/-- The result for one flow. -/
structure VolumeAttack (K : Type*) where
  flow : Nat
  bins : Nat
  pearson : K
  peakCrossCorr : K
  peakLagBins : Int
  leaks : Bool

-- ============================================================================
-- The series of a connection
-- ============================================================================

/-- `x as u128`. -/
def F64.asU128 : Double → Nat
  | .nan => 0
  | .inf negative => if negative then 0 else 2 ^ 128 - 1
  | .finite x => min x.floor.toNat (2 ^ 128 - 1)

/-- The width of a bin in nanoseconds. -/
def binNs (F : F64) (binMs : Double) : Nat := F64.asU128 (Double.mul F binMs (.finite 1000000))

/-- `((unix_nanos - t0) / bin_ns) as usize`. -/
def binIndex (t0 binNs unixNanos : Nat) : Nat := (unixNanos - t0) / binNs % 2 ^ 64

def relevantRecords (records : List LogRecord) (events : EventNames) (conn : Option Nat) :
    List LogRecord :=
  (records.filter fun r => r.event = events.wire ∨ r.event = events.real).filter fun r =>
    conn.all fun id => r.connId = id

/-- `series[idx] += bytes as f64`. -/
def addAt (F : F64) (series : List Rat) (idx bytes : Nat) : Option (List Rat) :=
  match series[idx]? with
  | none => none
  | some x => some (series.set idx (F.add x (F.round bytes)))

/-- Count one record. -/
def addRecord (F : F64) (events : EventNames) (t0 binNs : Nat) (series : List Rat × List Rat)
    (r : LogRecord) : Option (List Rat × List Rat) :=
  let idx := binIndex t0 binNs r.unixNanos
  if r.event = events.wire then (addAt F series.1 idx r.bytes).map fun wire => (wire, series.2)
  else (addAt F series.2 idx r.bytes).map fun real => (series.1, real)

/-- Both series on the grid from `t0` to `tEnd`.  A vector of f64 of `2 ^ 63` bytes or more
    is a capacity overflow. -/
def countBins (F : F64) (events : EventNames) (binNs t0 tEnd : Nat) (rs : List LogRecord) :
    Option (List Rat × List Rat) :=
  let nBins := binIndex t0 binNs tEnd + 1
  if 2 ^ 60 ≤ nBins then none
  else rs.foldlM (addRecord F events t0 binNs) (List.replicate nBins 0, List.replicate nBins 0)

/-- Wire and real bytes of a connection on one grid of bins. -/
def alignedSeries (F : F64) (records : List LogRecord) (events : EventNames) (binMs : Double)
    (conn : Option Nat) : Option (Option (List Rat × List Rat)) :=
  if binNs F binMs = 0 then some none
  else
    let relevant := relevantRecords records events conn
    match (relevant.map LogRecord.unixNanos).min?, (relevant.map LogRecord.unixNanos).max? with
    | some t0, some tEnd => (countBins F events (binNs F binMs) t0 tEnd relevant).map some
    | _, _ => some none

-- ============================================================================
-- The attack
-- ============================================================================

section Attack

variable {K : Type*} [Field K] [LinearOrder K]

/-- `x > t` for a threshold `t`. -/
def exceeds (t : Double) (x : K) : Bool :=
  match t with
  | .nan => false
  | .inf negative => negative
  | .finite t => decide ((t : K) < x)

/-- `pearson` of `a[i]` against `b[i - lag]` over the overlap. -/
def shiftedPearson (pearson : List Rat → List Rat → K) (a b : List Rat) (lag : Int) : K :=
  let n := min a.length b.length
  let pairs := (List.range n).filterMap fun i : Nat =>
    let j := (i : Int) - lag
    if 0 ≤ j ∧ j < n then some (a.getD i 0, b.getD j.toNat 0) else none
  pearson (pairs.map Prod.fst) (pairs.map Prod.snd)

/-- The lag with the largest correlation, and its magnitude. -/
def peakCrossCorrelation (pearson : List Rat → List Rat → K) (a b : List Rat) (maxLag : Nat) :
    Int × K :=
  let n := min a.length b.length
  let minOverlap := max (n / 2) 3
  let maxLag := min maxLag (n - minOverlap)
  let lags := (List.range (2 * maxLag + 1)).map fun i : Nat => (i : Int) - maxLag
  RunningMax.best Prod.snd (0, 0) ((lags.filter fun lag => minOverlap ≤ n - lag.natAbs).map
    fun lag => (lag, |shiftedPearson pearson a b lag|))

/-- The result for the connection `id`; the inner `none` says that it is passed over. -/
def flowAttack (F : F64) (pearson : List Rat → List Rat → K) (records : List LogRecord)
    (events : EventNames) (config : AttackConfig) (id : Nat) : Option (Option (VolumeAttack K)) :=
  (alignedSeries F records events config.binMs (some id)).map fun series =>
    match series with
    | none => none
    | some (wire, real) =>
        if wire.length < max config.minBins 3 then none
        else
          let r := pearson wire real
          let (peakLag, peak) := peakCrossCorrelation pearson wire real config.maxLagBins
          some
            { flow := id
              bins := wire.length
              pearson := r
              peakCrossCorr := peak
              peakLagBins := peakLag
              leaks := exceeds config.volumeCorrThreshold |peak| ||
                exceeds config.volumeCorrThreshold |r| }

/-- What the worst result is chosen by. -/
def peakKey (a : Option (VolumeAttack K)) : WithBot K :=
  a.elim ⊥ fun a => (a.peakCrossCorr : WithBot K)

/-- The worst result of all connections. -/
def volumeAttack (F : F64) (pearson : List Rat → List Rat → K) (records : List LogRecord)
    (events : EventNames) (config : AttackConfig) (connIds : List Nat) :
    Option (Option (VolumeAttack K)) :=
  connIds.foldlM (fun worst id =>
    (flowAttack F pearson records events config id).map fun cand =>
      match cand with
      | none => worst
      | some cand => RunningMax.update peakKey worst (some cand)) none

end Attack

-- ============================================================================
-- When a connection has a series
-- ============================================================================

/-- The grid has less than `2 ^ 60` bins, and every record falls in one of them. -/
def GridFits (binNs t0 tEnd : Nat) (rs : List LogRecord) : Prop :=
  binIndex t0 binNs tEnd + 1 < 2 ^ 60 ∧
    ∀ r ∈ rs, binIndex t0 binNs r.unixNanos ≤ binIndex t0 binNs tEnd

/-- The records of the connection fit in their grid, or nothing is counted. -/
def SeriesFits (F : F64) (records : List LogRecord) (events : EventNames) (binMs : Double)
    (id : Nat) : Prop :=
  let relevant := relevantRecords records events (some id)
  let nanos := relevant.map LogRecord.unixNanos
  binNs F binMs = 0 ∨ ∀ t0 tEnd, nanos.min? = some t0 → nanos.max? = some tEnd →
    GridFits (binNs F binMs) t0 tEnd relevant

section Series

variable {F : F64} {events : EventNames}

theorem addAt_eq_some {series series' : List Rat} {idx bytes : Nat}
    (h : addAt F series idx bytes = some series') :
    idx < series.length ∧ series'.length = series.length := by
  unfold addAt at h
  split at h
  · cases h
  · next x hx =>
    obtain rfl := Option.some.inj h
    exact ⟨(List.getElem?_eq_some_iff.mp hx).1, List.length_set⟩

theorem exists_addAt {series : List Rat} {idx : Nat} (h : idx < series.length) (bytes : Nat) :
    ∃ series', addAt F series idx bytes = some series' := by
  rw [addAt, List.getElem?_eq_getElem h]
  exact ⟨_, rfl⟩

/-- Both series have `n` bins. -/
def HasBins (n : Nat) (series : List Rat × List Rat) : Prop :=
  series.1.length = n ∧ series.2.length = n

theorem hasBins_replicate (n : Nat) : HasBins n (List.replicate n 0, List.replicate n 0) :=
  ⟨List.length_replicate, List.length_replicate⟩

/-- A record is counted exactly if its bin exists, and the series keep their bins. -/
theorem addRecord_spec (F : F64) (events : EventNames) (t0 ns : Nat) {n : Nat}
    {series : List Rat × List Rat} (hbins : HasBins n series) (r : LogRecord) :
    if binIndex t0 ns r.unixNanos < n then
      ∃ series', addRecord F events t0 ns series r = some series' ∧ HasBins n series'
    else addRecord F events t0 ns series r = none := by
  have hadd : ∀ s : List Rat, s.length = n →
      if binIndex t0 ns r.unixNanos < n then
        ∃ s', addAt F s (binIndex t0 ns r.unixNanos) r.bytes = some s' ∧ s'.length = n
      else addAt F s (binIndex t0 ns r.unixNanos) r.bytes = none := by
    rintro s rfl
    split
    · next h =>
      obtain ⟨s', hs'⟩ := exists_addAt (F := F) h r.bytes
      exact ⟨s', hs', (addAt_eq_some hs').2⟩
    · next h => rw [addAt, List.getElem?_eq_none (not_lt.mp h)]
  obtain ⟨hwire, hreal⟩ := hbins
  have haddwire := hadd series.1 hwire
  have haddreal := hadd series.2 hreal
  by_cases hidx : binIndex t0 ns r.unixNanos < n
  · rw [if_pos hidx] at haddwire haddreal ⊢
    obtain ⟨wire, hw, hwlen⟩ := haddwire
    obtain ⟨real, hr, hrlen⟩ := haddreal
    simp only [addRecord, hw, hr, Option.map_some]
    split
    · exact ⟨_, rfl, hwlen, hreal⟩
    · exact ⟨_, rfl, hwire, hrlen⟩
  · rw [if_neg hidx] at haddwire haddreal ⊢
    simp only [addRecord, haddwire, haddreal, Option.map_none, ite_self]

/-- All records are counted exactly if all their bins exist; by induction on them. -/
theorem foldlM_addRecord_spec (F : F64) (events : EventNames) (t0 ns : Nat) {n : Nat}
    (rs : List LogRecord) {series : List Rat × List Rat} (hbins : HasBins n series) :
    if ∀ r ∈ rs, binIndex t0 ns r.unixNanos < n then
      ∃ series', rs.foldlM (addRecord F events t0 ns) series = some series' ∧ HasBins n series'
    else rs.foldlM (addRecord F events t0 ns) series = none := by
  induction rs generalizing series with
  | nil =>
      rw [if_pos fun r h => absurd h List.not_mem_nil]
      exact ⟨series, rfl, hbins⟩
  | cons r rs ih =>
      have hstep := addRecord_spec F events t0 ns hbins r
      rw [List.foldlM_cons]
      by_cases hidx : binIndex t0 ns r.unixNanos < n
      · rw [if_pos hidx] at hstep
        obtain ⟨series', hs', hbins'⟩ := hstep
        have hrest := ih hbins'
        rw [hs']
        simp only [List.forall_mem_cons, hidx, true_and]
        exact hrest
      · rw [if_neg hidx] at hstep
        rw [if_neg fun h => hidx (h r List.mem_cons_self), hstep]
        rfl

/-- The records are counted, in two series of one length, exactly if they fit. -/
theorem countBins_spec (F : F64) (events : EventNames) (ns t0 tEnd : Nat) (rs : List LogRecord) :
    ((countBins F events ns t0 tEnd rs).isSome ↔ GridFits ns t0 tEnd rs) ∧
    ∀ series, countBins F events ns t0 tEnd rs = some series →
      series.1.length = series.2.length := by
  have hspec := foldlM_addRecord_spec F events t0 ns rs
    (hasBins_replicate (binIndex t0 ns tEnd + 1))
  simp only [Nat.lt_succ_iff] at hspec
  rw [countBins, GridFits]
  by_cases hbig : 2 ^ 60 ≤ binIndex t0 ns tEnd + 1
  · rw [if_pos hbig]
    exact ⟨⟨nofun, fun h => absurd h.1 (not_lt.mpr hbig)⟩, nofun⟩
  · rw [if_neg hbig, and_iff_right (not_le.mp hbig)]
    split at hspec
    · next hall =>
      obtain ⟨series, hseries, hbins⟩ := hspec
      rw [hseries]
      refine ⟨⟨fun _ => hall, fun _ => rfl⟩, fun series' h => ?_⟩
      obtain rfl := Option.some.inj h
      exact hbins.1.trans hbins.2.symm
    · next hall =>
      rw [hspec]
      exact ⟨⟨nofun, fun h => absurd h hall⟩, nofun⟩

/-- The series of a connection are built, with one length, exactly if they fit. -/
theorem alignedSeries_spec (records : List LogRecord) (binMs : Double) (id : Nat) :
    ((alignedSeries F records events binMs (some id)).isSome ↔
      SeriesFits F records events binMs id) ∧
    ∀ wire real, alignedSeries F records events binMs (some id) = some (some (wire, real)) →
      wire.length = real.length := by
  unfold alignedSeries SeriesFits
  by_cases hns : binNs F binMs = 0
  · rw [if_pos hns]
    exact ⟨⟨fun _ => .inl hns, fun _ => rfl⟩, nofun⟩
  · rw [if_neg hns, or_iff_right hns]
    dsimp only
    generalize relevantRecords records events (some id) = rs
    cases (rs.map LogRecord.unixNanos).min? with
    | none => exact ⟨⟨fun _ _ _ => nofun, fun _ => rfl⟩, nofun⟩
    | some t0 =>
        cases (rs.map LogRecord.unixNanos).max? with
        | none => exact ⟨⟨fun _ _ _ _ => nofun, fun _ => rfl⟩, nofun⟩
        | some tEnd =>
            obtain ⟨hsome, hlen⟩ := countBins_spec F events (binNs F binMs) t0 tEnd rs
            refine ⟨?_, fun wire real h => ?_⟩
            · rw [Option.isSome_map, hsome]
              exact ⟨fun h _ _ h0 hEnd => Option.some.inj h0 ▸ Option.some.inj hEnd ▸ h,
                fun h => h t0 tEnd rfl rfl⟩
            · obtain ⟨series, hseries, hpair⟩ := Option.map_eq_some_iff.mp h
              obtain rfl := Option.some.inj hpair
              exact hlen _ hseries

end Series

-- ============================================================================
-- Lag 0 is in the window
-- ============================================================================

section Leaks

variable {K : Type*} [Field K] [LinearOrder K]

theorem map_getD_range (xs : List Rat) : (List.range xs.length).map (fun i => xs.getD i 0) = xs := by
  refine List.ext_getElem (by rw [List.length_map, List.length_range]) fun i h h' => ?_
  rw [List.getElem_map, List.getElem_range, List.getD_eq_getElem?_getD,
    List.getElem?_eq_getElem h', Option.getD_some]

omit [Field K] [LinearOrder K] in
/-- Without a lag the whole series are compared. -/
theorem shiftedPearson_zero (pearson : List Rat → List Rat → K) {a b : List Rat}
    (h : a.length = b.length) : shiftedPearson pearson a b 0 = pearson a b := by
  have hpairs : ((List.range a.length).filterMap fun i : Nat =>
      let j := (i : Int) - 0
      if 0 ≤ j ∧ j < (a.length : Nat) then some (a.getD i 0, b.getD j.toNat 0) else none)
      = (List.range a.length).map fun i => (a.getD i 0, b.getD i 0) := by
    rw [← List.filterMap_eq_map]
    refine List.filterMap_congr fun i hi => ?_
    have hlt := List.mem_range.mp hi
    dsimp only
    rw [if_pos (by omega), Int.sub_zero, Int.toNat_natCast]
    rfl
  have hb : (List.range a.length).map (fun i => b.getD i 0) = b := by
    rw [h, map_getD_range]
  unfold shiftedPearson
  simp only [← h, min_self]
  rw [hpairs, List.map_map, List.map_map]
  exact congrArg₂ pearson (map_getD_range a) hb

/-- The peak over the window is at least the correlation without a lag, for a series of three
    bins or more: half of the bins, and three of them, overlap. -/
theorem abs_pearson_le_peak (pearson : List Rat → List Rat → K) {a b : List Rat}
    (h : a.length = b.length) (hbins : 3 ≤ a.length) (maxLag : Nat) :
    |pearson a b| ≤ (peakCrossCorrelation pearson a b maxLag).2 := by
  have hn : min a.length b.length = a.length := by omega
  unfold peakCrossCorrelation
  simp only [hn]
  refine le_trans (le_of_eq ?_) (RunningMax.le_best Prod.snd _
    (List.mem_map_of_mem (a := (0 : Int)) (List.mem_filter.mpr ⟨List.mem_map.mpr ?_, ?_⟩)))
  · rw [shiftedPearson_zero pearson h]
  · exact ⟨min maxLag (a.length - max (a.length / 2) 3),
      List.mem_range.mpr (by omega), sub_self _⟩
  · simp only [Int.natAbs_zero, Nat.sub_zero, decide_eq_true_eq]
    omega

/-- The peak is not negative. -/
theorem peak_nonneg (pearson : List Rat → List Rat → K) (a b : List Rat) (maxLag : Nat) :
    0 ≤ (peakCrossCorrelation pearson a b maxLag).2 :=
  RunningMax.init_le_best Prod.snd (0, 0) _

theorem exceeds_mono {t : Double} {x y : K} (h : x ≤ y) (hx : exceeds t x = true) :
    exceeds t y = true := by
  cases t with
  | nan => exact hx
  | inf negative => exact hx
  | finite t => exact decide_eq_true ((of_decide_eq_true hx).trans_le h)

-- ============================================================================
-- The worst connection leaks if any does
-- ============================================================================

variable {F : F64} {pearson : List Rat → List Rat → K} {records : List LogRecord}
  {events : EventNames} {config : AttackConfig}

/-- The connection's series are long enough, and the correlation or its peak exceeds the
    threshold. -/
def LeakingFlow (F : F64) (pearson : List Rat → List Rat → K) (records : List LogRecord)
    (events : EventNames) (config : AttackConfig) (id : Nat) : Prop :=
  ∃ wire real, alignedSeries F records events config.binMs (some id) = some (some (wire, real)) ∧
    max config.minBins 3 ≤ wire.length ∧
    (exceeds config.volumeCorrThreshold |pearson wire real| = true ∨
      exceeds config.volumeCorrThreshold
        (peakCrossCorrelation pearson wire real config.maxLagBins).2 = true)

/-- The result of a connection has a peak, which exceeds the threshold if the result leaks. -/
theorem flowAttack_leaks [IsStrictOrderedRing K] {id : Nat} {a : VolumeAttack K}
    (h : flowAttack F pearson records events config id = some (some a)) :
    (a.leaks = true ↔ exceeds config.volumeCorrThreshold a.peakCrossCorr = true) ∧
      (a.leaks = true → LeakingFlow F pearson records events config id) := by
  obtain ⟨series, hseries, h⟩ := Option.map_eq_some_iff.mp h
  obtain _ | ⟨wire, real⟩ := series
  · cases h
  · dsimp only at h
    split at h
    · cases h
    · next hbins =>
      have hlen : max config.minBins 3 ≤ wire.length := not_lt.mp hbins
      have hpeak := abs_pearson_le_peak pearson ((alignedSeries_spec _ _ id).2 wire real hseries)
        ((le_max_right _ _).trans hlen) config.maxLagBins
      obtain rfl := Option.some.inj h
      dsimp only
      rw [abs_of_nonneg (peak_nonneg pearson wire real config.maxLagBins), Bool.or_eq_true]
      refine ⟨⟨fun hleak => hleak.elim (fun hp => hp) (exceeds_mono hpeak), .inl⟩, fun hleak => ?_⟩
      exact ⟨wire, real, hseries, hlen, hleak.symm⟩

/-- A leaking connection has a result, whose peak exceeds the threshold. -/
theorem exists_flowAttack {id : Nat} (h : LeakingFlow F pearson records events config id) :
    ∃ a, flowAttack F pearson records events config id = some (some a) ∧
      exceeds config.volumeCorrThreshold a.peakCrossCorr = true := by
  obtain ⟨wire, real, hseries, hlen, hleak⟩ := h
  have hpeak := abs_pearson_le_peak pearson ((alignedSeries_spec _ _ id).2 wire real hseries)
    ((le_max_right _ _).trans hlen) config.maxLagBins
  refine ⟨_, by rw [flowAttack, hseries]; exact congrArg some (if_neg (not_lt.mpr hlen)), ?_⟩
  exact hleak.elim (exceeds_mono hpeak) fun hp => hp

theorem flowAttack_isSome_iff (pearson : List Rat → List Rat → K) {id : Nat} :
    (flowAttack F pearson records events config id).isSome ↔
      SeriesFits F records events config.binMs id := by
  rw [flowAttack, Option.isSome_map, (alignedSeries_spec records config.binMs id).1]

/-- A connection that is passed over changes nothing. -/
theorem volumeAttack_eq (connIds : List Nat) :
    volumeAttack F pearson records events config connIds
      = connIds.foldlM (fun worst id => (flowAttack F pearson records events config id).map
          (RunningMax.update peakKey worst)) none := by
  have hupdate : ∀ worst cand : Option (VolumeAttack K),
      (match cand with
      | none => worst
      | some cand => RunningMax.update peakKey worst (some cand))
        = RunningMax.update peakKey worst cand := by
    intro worst cand
    cases cand with
    | none => exact (if_neg not_lt_bot).symm
    | some cand => rfl
  simp only [volumeAttack, hupdate]

/-- The worst of the results leaks exactly if one of the connections does. -/
theorem worst_leaks_iff [IsStrictOrderedRing K] {connIds : List Nat}
    {cand : Nat → Option (VolumeAttack K)}
    (hcand : ∀ id ∈ connIds, flowAttack F pearson records events config id = some (cand id)) :
    (∃ a, RunningMax.best peakKey none (connIds.map cand) = some a ∧ a.leaks = true) ↔
      ∃ id ∈ connIds, LeakingFlow F pearson records events config id := by
  have hfrom : ∀ a, RunningMax.best peakKey none (connIds.map cand) = some a →
      ∃ id ∈ connIds, flowAttack F pearson records events config id = some (some a) := by
    intro a ha
    obtain hnone | hmem := RunningMax.best_eq_or_mem peakKey none (connIds.map cand)
    · rw [hnone] at ha
      cases ha
    · rw [ha] at hmem
      obtain ⟨id, hid, hida⟩ := List.mem_map.mp hmem
      exact ⟨id, hid, (hcand id hid).trans (congrArg some hida)⟩
  constructor
  · rintro ⟨a, ha, hleak⟩
    obtain ⟨id, hid, hflow⟩ := hfrom a ha
    exact ⟨id, hid, (flowAttack_leaks hflow).2 hleak⟩
  · rintro ⟨id, hid, hleak⟩
    obtain ⟨c, hflow, hpeak⟩ := exists_flowAttack hleak
    have hc : cand id = some c := Option.some.inj ((hcand id hid).symm.trans hflow)
    have hmem : some c ∈ connIds.map cand := List.mem_map.mpr ⟨id, hid, hc⟩
    have hle := RunningMax.le_best peakKey none hmem
    cases hbest : RunningMax.best peakKey none (connIds.map cand) with
    | none =>
        rw [hbest] at hle
        exact absurd hle (not_le.mpr (WithBot.bot_lt_coe c.peakCrossCorr))
    | some a =>
        rw [hbest] at hle
        obtain ⟨id', -, hflow'⟩ := hfrom a hbest
        exact ⟨a, rfl, (flowAttack_leaks hflow').1.mpr
          (exceeds_mono (WithBot.coe_le_coe.mp hle) hpeak)⟩

/-- For every list of records and connections and every configuration: the attack returns,
    with a leak reported exactly if one of the connections leaks, if and only if the series
    of every connection fits. -/
theorem volumeAttack_leaks_iff [IsStrictOrderedRing K] (connIds : List Nat) :
    (∃ worst, volumeAttack F pearson records events config connIds = some worst ∧
      ((∃ a, worst = some a ∧ a.leaks = true) ↔
        ∃ id ∈ connIds, LeakingFlow F pearson records events config id)) ↔
    ∀ id ∈ connIds, SeriesFits F records events config.binMs id := by
  rw [volumeAttack_eq]
  constructor
  · rintro ⟨worst, hworst, -⟩ id hid
    have hreturns : (connIds.foldlM (fun worst id =>
        (flowAttack F pearson records events config id).map
          (RunningMax.update peakKey worst)) none).isSome := Option.isSome_of_eq_some hworst
    exact (flowAttack_isSome_iff pearson).mp (RunningMax.foldlM_isSome.mp hreturns id hid)
  · intro hfits
    have hsome : ∀ id ∈ connIds, flowAttack F pearson records events config id
        = some ((flowAttack F pearson records events config id).getD none) := by
      intro id hid
      obtain ⟨cand, hcand⟩ := Option.isSome_iff_exists.mp
        ((flowAttack_isSome_iff pearson).mpr (hfits id hid))
      rw [hcand, Option.getD_some]
    refine ⟨_, RunningMax.foldlM_eq_best hsome, worst_leaks_iff hsome⟩

end Leaks

/-- A connection whose records span less than `2 ^ 60` bins fits. -/
theorem seriesFits_of_span {F : F64} {records : List LogRecord} {events : EventNames}
    {binMs : Double} {id : Nat}
    (h : ∀ r ∈ relevantRecords records events (some id),
      ∀ r' ∈ relevantRecords records events (some id),
        (r'.unixNanos - r.unixNanos) / binNs F binMs + 1 < 2 ^ 60) :
    SeriesFits F records events binMs id := by
  refine .inr fun t0 tEnd h0 hEnd => ?_
  obtain ⟨first, hfirst, rfl⟩ := List.mem_map.mp (List.min?_mem h0)
  obtain ⟨last, hlast, rfl⟩ := List.mem_map.mp (List.max?_mem hEnd)
  have hindex : ∀ r ∈ relevantRecords records events (some id),
      binIndex first.unixNanos (binNs F binMs) r.unixNanos
        = (r.unixNanos - first.unixNanos) / binNs F binMs := by
    intro r hr
    have hspan := h first hfirst r hr
    exact Nat.mod_eq_of_lt (by omega)
  refine ⟨by rw [hindex last hlast]; exact h first hfirst last hlast, fun r hr => ?_⟩
  rw [hindex r hr, hindex last hlast]
  have hle : r.unixNanos ≤ last.unixNanos :=
    (List.max?_eq_some_iff.mp hEnd).2 _ (List.mem_map_of_mem hr)
  exact Nat.div_le_div_right (Nat.sub_le_sub_right hle _)

/-- A frame of 100 ms that is real on the wire and behind it. -/
def leakingBin (conn bin bytes : Nat) : List LogRecord :=
  [⟨bin * 100000000, LabRole.name .server, LabEvent.name .serverWireInput, conn, bin, bytes,
      LabKind.name .real⟩,
    ⟨bin * 100000000, LabRole.name .server, LabEvent.name .serverRealOutput, conn, bin, bytes,
      LabKind.name .real⟩]

/-- A connection that leaks. -/
def leakingConn (conn : Nat) : List LogRecord :=
  leakingBin conn 0 1 ++ leakingBin conn 1 2 ++ leakingBin conn 2 3

/-- The coefficient of a series with itself. -/
def samePearson (a b : List Rat) : ℚ := if a = b then 1 else 0

theorem volumeAttack_leaks_iff_sample :
    (∃ worst, volumeAttack .steep samePearson (leakingConn 1) .server .default [1] = some worst ∧
      ((∃ a, worst = some a ∧ a.leaks = true) ↔
        ∃ id ∈ [1], LeakingFlow .steep samePearson (leakingConn 1) .server .default id)) ↔
    ∀ id ∈ [1], SeriesFits .steep (leakingConn 1) .server AttackConfig.default.binMs id :=
  volumeAttack_leaks_iff [1]

/-- Connection 1 leaks, connection 2 has two frames `2 ^ 60` bins apart: the attack
    panics. -/
theorem volumeAttack_panics :
    LeakingFlow .steep samePearson
      (leakingConn 1 ++ leakingBin 2 0 514 ++ leakingBin 2 (2 ^ 60) 514) .server .default 1 ∧
    (volumeAttack .steep samePearson
      (leakingConn 1 ++ leakingBin 2 0 514 ++ leakingBin 2 (2 ^ 60) 514) .server .default
        [1, 2]).isNone = true := by
  refine ⟨⟨[1, 2, 3], [1, 2, 3], by decide +kernel, by decide, .inl (by decide +kernel)⟩, ?_⟩
  decide +kernel

end MixTor
