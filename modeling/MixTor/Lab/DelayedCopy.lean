/-
  MixTor.Lab.DelayedCopy

  What the lab's adversary makes of traffic that is not shaped (correlation_attack.rs): a
  flow whose wire frames repeat its real traffic, some bins later.

  In exact arithmetic the volume attack finds such a flow, and the linking attack finds
  all of them if none is mistaken for another.  The delay is a whole number of bins, and
  the log is short enough to be binned: under `2 ^ 60` bins at every scale.
-/

import MixTor.Lab.ConstantRate

namespace MixTor

variable {K : Type} [Field K] [LinearOrder K] {F : F64} {A : Arith K} {records : List LogRecord}
  {events : EventNames}

-- ============================================================================
-- The adversary finishes
-- ============================================================================

/-- The log spans less than `2 ^ 60` bins of this width. -/
def SpanFits (F : F64) (records : List LogRecord) (events : EventNames) (binMs : Double) : Prop :=
  ∀ r ∈ records, (r.event = events.wire ∨ r.event = events.real) →
    ∀ r' ∈ records, (r'.event = events.wire ∨ r'.event = events.real) →
      (r'.unixNanos - r.unixNanos) / binNs F binMs + 1 < 2 ^ 60

instance (F : F64) (records : List LogRecord) (events : EventNames) (binMs : Double) :
    Decidable (SpanFits F records events binMs) :=
  inferInstanceAs (Decidable (∀ r ∈ records, (r.event = events.wire ∨ r.event = events.real) →
    ∀ r' ∈ records, (r'.event = events.wire ∨ r'.event = events.real) →
      (r'.unixNanos - r.unixNanos) / binNs F binMs + 1 < 2 ^ 60))

theorem mem_relevantRecords {id : Nat} {r : LogRecord} :
    r ∈ relevantRecords records events (some id) ↔
      r ∈ records ∧ (r.event = events.wire ∨ r.event = events.real) ∧ r.connId = id := by
  simp only [relevantRecords, List.mem_filter, Option.all_some, decide_eq_true_eq, and_assoc]

theorem SpanFits.seriesFits {binMs : Double} (h : SpanFits F records events binMs) (id : Nat) :
    SeriesFits F records events binMs id := by
  refine seriesFits_of_span fun r hr r' hr' => ?_
  obtain ⟨hr, hevent, -⟩ := mem_relevantRecords.mp hr
  obtain ⟨hr', hevent', -⟩ := mem_relevantRecords.mp hr'
  exact h r hr hevent r' hr' hevent'

/-- The volume attack finishes. -/
theorem SpanFits.exists_volumeAttack {config : AttackConfig}
    (h : SpanFits F records events config.binMs) (p : List Rat → List Rat → K)
    (connIds : List Nat) :
    ∃ worst, volumeAttack F p records events config connIds = some worst := by
  rw [volumeAttack_eq]
  refine Option.isSome_iff_exists.mp (RunningMax.foldlM_isSome.mpr fun id _ => ?_)
  exact (flowAttack_isSome_iff p).mpr (h.seriesFits id)

theorem exists_sizeAttack (F : F64) (records : List LogRecord) (events : EventNames)
    (config : AdversaryConfig) : ∃ result, sizeAttack F records events config = some result := by
  unfold sizeAttack
  dsimp only
  split
  · exact ⟨none, rfl⟩
  · next hne =>
    obtain ⟨hreal, hdummy⟩ := not_or.mp hne
    obtain ⟨d, -, hd⟩ := exists_ksStatistic hreal hdummy
    rw [hd _ (Nat.lt_succ_self _)]
    exact ⟨_, rfl⟩

theorem exists_totalVolumeAttack (F : F64) (A : Arith K) (records : List LogRecord)
    (events : EventNames) (config : AttackConfig) (connIds : List Nat) :
    ∃ result, totalVolumeAttack F A records events config connIds = some result := by
  unfold totalVolumeAttack
  dsimp only
  split
  · exact ⟨none, rfl⟩
  · split
    · exact ⟨none, rfl⟩
    · obtain ⟨rho, hrho⟩ := exists_spearman F (pearson A)
        ((((connIds.map fun id => (id, flowTotals F records events id)).filter fun t =>
          0 < t.2.2).map (·.2.1)))
        ((((connIds.map fun id => (id, flowTotals F records events id)).filter fun t =>
          0 < t.2.2).map (·.2.2)))
      rw [hrho]
      exact ⟨_, rfl⟩

theorem SpanFits.exists_linkingAttack {config : AttackConfig}
    (h : SpanFits F records events config.binMs) (A : Arith K) (connIds : List Nat) :
    ∃ result, linkingAttack F A records events config connIds = some result := by
  unfold linkingAttack
  dsimp only
  split
  · exact ⟨none, rfl⟩
  · split
    · exact ⟨none, rfl⟩
    · split
      · next t0 tEnd h0 hEnd =>
        obtain ⟨first, hfirst, rfl⟩ := List.mem_map.mp (List.min?_mem h0)
        obtain ⟨last, hlast, rfl⟩ := List.mem_map.mp (List.max?_mem hEnd)
        simp only [List.mem_filter, decide_eq_true_eq] at hfirst hlast
        have hspan := h first hfirst.1 hfirst.2 last hlast.1 hlast.2
        have hgrid : binIndex first.unixNanos (binNs F config.binMs) last.unixNanos + 1
            < 2 ^ 60 := by
          rw [binIndex, Nat.mod_eq_of_lt (by omega)]
          exact hspan
        obtain ⟨s, hs⟩ := exists_linkingSeries F events records connIds hgrid
        rw [hs]
        exact ⟨_, rfl⟩
      · exact ⟨none, rfl⟩

/-- The adversary finishes, with the results of its attacks, on every log that fits at every
    scale. -/
theorem exists_runAdversary {config : AdversaryConfig}
    (h : ∀ scale ∈ config.binMs :: coarseScales F config.binMs, SpanFits F records events scale) :
    ∃ report, runAdversary F A records events config = some report ∧
      volumeAttack F (pearson A) records events config.toAttackConfig
        (distinctConnIds records events) = some report.volumeAttack ∧
      linkingAttack F A records events config.toAttackConfig (distinctConnIds records events)
        = some report.linkingAttack := by
  obtain ⟨hbase, hcoarse⟩ := List.forall_mem_cons.mp h
  obtain ⟨coarse, hmap, -⟩ := Slices.exists_mapM (f := fun scale =>
    (volumeAttack F (pearson A) records events (coarseConfig config.toAttackConfig scale)
      (distinctConnIds records events)).map fun a => a.map fun a => (scale, a))
    (P := fun _ => True) fun scale hscale => by
      have hfits : SpanFits F records events (coarseConfig config.toAttackConfig scale).binMs :=
        hcoarse scale hscale
      obtain ⟨worst, hworst⟩ :=
        hfits.exists_volumeAttack (pearson A) (distinctConnIds records events)
      exact ⟨_, by rw [hworst]; rfl, trivial⟩
  obtain ⟨size, hsize⟩ := exists_sizeAttack F records events config
  have hattack : SpanFits F records events config.toAttackConfig.binMs := hbase
  obtain ⟨volume, hvolume⟩ :=
    hattack.exists_volumeAttack (pearson A) (distinctConnIds records events)
  obtain ⟨total, htotal⟩ := exists_totalVolumeAttack F A records events config.toAttackConfig
    (distinctConnIds records events)
  obtain ⟨link, hlink⟩ := hattack.exists_linkingAttack A (distinctConnIds records events)
  rw [runAdversary]
  simp only [hmap, hsize, hvolume, htotal, hlink, Option.bind_eq_bind, Option.bind_some,
    Option.pure_def]
  exact ⟨_, rfl, rfl, rfl⟩

-- ============================================================================
-- A flow that is repeated on the wire
-- ============================================================================

/-- The real traffic of a flow, with its times and sizes. -/
def realFrames (records : List LogRecord) (events : EventNames) (id : Nat) : List (Nat × Nat) :=
  (records.filter fun r => r.event ≠ events.wire ∧ r.event = events.real ∧ r.connId = id).map
    fun r => (r.unixNanos, r.bytes)

/-- What the flow puts on the wire is its real traffic, `delay` nanoseconds later. -/
def Repeats (records : List LogRecord) (events : EventNames) (delay id : Nat) : Prop :=
  wireFrames records events id
    = (realFrames records events id).map fun t => (t.1 + delay, t.2)

instance (records : List LogRecord) (events : EventNames) (delay id : Nat) :
    Decidable (Repeats records events delay id) :=
  inferInstanceAs (Decidable (wireFrames records events id
    = (realFrames records events id).map fun t => (t.1 + delay, t.2)))

/-- A delay of whole bins moves a time by as many bins. -/
theorem binIndex_add {t0 ns t k : Nat} (hns : 0 < ns) (h0 : t0 ≤ t)
    (hfits : (t + k * ns - t0) / ns < 2 ^ 64) :
    binIndex t0 ns (t + k * ns) = binIndex t0 ns t + k := by
  have hdiv : (t + k * ns - t0) / ns = (t - t0) / ns + k := by
    rw [Nat.sub_add_comm h0, Nat.add_mul_div_right _ _ hns]
  rw [binIndex, binIndex, hdiv, Nat.mod_eq_of_lt (hdiv ▸ hfits), Nat.mod_eq_of_lt (by omega)]

/-- The wire series of such a flow follows its real series. -/
theorem follows_of_repeats {binMs : Double} {id k : Nat} {wire real : List Rat}
    (hspan : SpanFits F records events binMs)
    (hrepeats : Repeats records events (k * binNs F binMs) id)
    (hseries : alignedSeries F records events binMs (some id) = some (some (wire, real))) :
    wire.length = real.length ∧ ∀ i, i + k < wire.length → wire.getD (i + k) 0 = real.getD i 0 := by
  have hns : 0 < binNs F binMs := by
    refine Nat.pos_of_ne_zero fun hzero => ?_
    rw [alignedSeries, if_pos hzero] at hseries
    cases hseries
  obtain ⟨t0, tEnd, h0, hEnd, hwire, hreal⟩ := alignedSeries_eq hseries
  have hbinnedWire : binned (fun r => r.event = events.wire) t0 (binNs F binMs)
      (relevantRecords records events (some id)) = (wireFrames records events id).map
        fun t => (binIndex t0 (binNs F binMs) t.1, t.2) := by
    rw [binned, wireFrames, List.map_map, relevantRecords, List.filter_filter, List.filter_filter]
    refine congrArg _ (List.filter_congr fun r _ => ?_)
    by_cases hw : r.event = events.wire <;> simp [hw]
  have hbinnedReal : binned (fun r => r.event ≠ events.wire) t0 (binNs F binMs)
      (relevantRecords records events (some id)) = (realFrames records events id).map
        fun t => (binIndex t0 (binNs F binMs) t.1, t.2) := by
    rw [binned, realFrames, List.map_map, relevantRecords, List.filter_filter, List.filter_filter]
    refine congrArg _ (List.filter_congr fun r _ => ?_)
    by_cases hw : r.event = events.wire <;> simp [hw, and_comm]
  have hshift : binned (fun r => r.event = events.wire) t0 (binNs F binMs)
      (relevantRecords records events (some id)) = Histogram.shift k
        (binned (fun r => r.event ≠ events.wire) t0 (binNs F binMs)
          (relevantRecords records events (some id))) := by
    rw [hbinnedWire, hbinnedReal, hrepeats, Histogram.shift, List.map_map, List.map_map]
    refine List.map_congr_left fun t ht => ?_
    obtain ⟨first, hfirst, rfl⟩ := List.mem_map.mp (List.min?_mem h0)
    obtain ⟨hfirst, hfirstEvent, -⟩ := mem_relevantRecords.mp hfirst
    -- the record that repeats this one is in the log, so the grid reaches it
    have hcopy : (t.1 + k * binNs F binMs, t.2) ∈ wireFrames records events id :=
      hrepeats ▸ List.mem_map_of_mem (f := fun t => (t.1 + k * binNs F binMs, t.2)) ht
    obtain ⟨copy, hcopyMem, hcopyEq⟩ := List.mem_map.mp hcopy
    simp only [List.mem_filter, decide_eq_true_eq] at hcopyMem
    have hfar := hspan first hfirst hfirstEvent copy hcopyMem.1 (.inl hcopyMem.2.1)
    rw [(Prod.mk.inj hcopyEq).1] at hfar
    obtain ⟨r, hr, rfl⟩ := List.mem_map.mp ht
    simp only [List.mem_filter, decide_eq_true_eq] at hr
    have hge : first.unixNanos ≤ r.unixNanos := (List.min?_eq_some_iff.mp h0).2 _
      (List.mem_map_of_mem (mem_relevantRecords.mpr ⟨hr.1, .inr hr.2.2.1, hr.2.2.2⟩))
    dsimp only at hfar
    simp only [Function.comp_apply]
    rw [binIndex_add hns hge (by omega)]
  rw [hshift] at hwire
  rw [hwire, hreal, length_series, length_series]
  refine ⟨rfl, fun i hi => ?_⟩
  rw [getD_series hi, getD_series (by omega), Histogram.weights_shift]

section Exact

variable [IsStrictOrderedRing K]

/-- The result of a flow that is repeated on the wire has peak 1. -/
theorem flowAttack_of_repeats (hA : A.Exact) {config : AttackConfig} {id k : Nat}
    {wire real : List Rat} (hspan : SpanFits F records events config.binMs)
    (hrepeats : Repeats records events (k * binNs F config.binMs) id)
    (hseries : alignedSeries F records events config.binMs (some id) = some (some (wire, real)))
    (hbins : max config.minBins 3 ≤ wire.length)
    (hlag : InWindow wire.length config.maxLagBins k) (hvaries : Varies (wire.length - k) real) :
    ∃ a, flowAttack F (pearson A) records events config id = some (some a) ∧
      a.peakCrossCorr = 1 := by
  obtain ⟨hlen, hcopy⟩ := follows_of_repeats hspan hrepeats hseries
  have hfollows : Follows k wire real := ⟨1, 0, one_ne_zero, fun i hi => by
    rw [hcopy i hi, one_mul, add_zero]⟩
  have hpeak := peak_of_follows hA rfl hlen.symm hlag hfollows hvaries
  rw [flowAttack, hseries, Option.map_some]
  dsimp only
  rw [if_neg (not_lt.mpr hbins)]
  exact ⟨_, rfl, hpeak⟩

theorem flowAttack_peak_le_one (hA : A.Exact) {config : AttackConfig} {id : Nat}
    {a : VolumeAttack K}
    (h : flowAttack F (pearson A) records events config id = some (some a)) :
    a.peakCrossCorr ≤ 1 := by
  obtain ⟨series?, -, ha⟩ := Option.map_eq_some_iff.mp h
  cases series? with
  | none => cases ha
  | some pair =>
      obtain ⟨wire, real⟩ := pair
      dsimp only at ha
      split at ha
      · cases ha
      · obtain rfl := Option.some.inj ha
        exact peak_le_one hA wire real config.maxLagBins

/-- **Traffic that is not shaped is always found.**  For every log that spans less than
    `2 ^ 60` bins at every scale, in exact arithmetic: if what one flow puts on the wire is
    its real traffic, `k` whole bins later for a lag `k` of the window, the flow has at
    least `min_bins` bins, and three, its real traffic differs among the bins but the
    last `k`, and the volume threshold is below 1, then the adversary finishes and wins;
    the worst flow it reports is fully correlated. -/
theorem runAdversary_delayed_copy (hA : A.Exact) {config : AdversaryConfig} {id k : Nat}
    {wire real : List Rat}
    (hspan : ∀ scale ∈ config.binMs :: coarseScales F config.binMs,
      SpanFits F records events scale)
    (hrepeats : Repeats records events (k * binNs F config.binMs) id)
    (hseries : alignedSeries F records events config.binMs (some id) = some (some (wire, real)))
    (hbins : max config.minBins 3 ≤ wire.length)
    (hlag : InWindow wire.length config.maxLagBins k) (hvaries : Varies (wire.length - k) real)
    (hthreshold : exceeds config.volumeCorrThreshold (1 : K) = true) :
    ∃ report a, runAdversary F A records events config = some report ∧
      report.adversaryWon = true ∧ report.volumeAttack = some a ∧ a.peakCrossCorr = 1 := by
  obtain ⟨hbase, -⟩ := List.forall_mem_cons.mp hspan
  obtain ⟨report, hruns, hvolume, -⟩ := exists_runAdversary (A := A) hspan
  obtain ⟨found, hfound, hpeak⟩ :=
    flowAttack_of_repeats hA hbase hrepeats hseries hbins hlag hvaries
  have hid : id ∈ distinctConnIds records events := by
    obtain ⟨t0, -, h0, -⟩ := alignedSeries_eq hseries
    obtain ⟨r, hr, -⟩ := List.mem_map.mp (List.min?_mem h0)
    obtain ⟨hr, hevent, hconn⟩ := mem_relevantRecords.mp hr
    exact mem_distinctConnIds.mpr ⟨r, hr, hevent, hconn⟩
  have hcand : ∀ id ∈ distinctConnIds records events, flowAttack F (pearson A) records events
      config.toAttackConfig id = some ((flowAttack F (pearson A) records events
        config.toAttackConfig id).getD none) := by
    intro id _
    obtain ⟨cand, hcand⟩ := Option.isSome_iff_exists.mp
      ((flowAttack_isSome_iff (pearson A)).mpr (hbase.seriesFits id))
    rw [hcand, Option.getD_some]
  rw [volumeAttack_eq, RunningMax.foldlM_eq_best hcand] at hvolume
  have hworst := Option.some.inj hvolume
  have hle := RunningMax.le_best peakKey none (List.mem_map_of_mem
    (f := fun id => (flowAttack F (pearson A) records events config.toAttackConfig id).getD none)
    hid)
  rw [hworst, hfound] at hle
  -- the worst result is that of one of the flows, so its peak is at most 1
  rcases RunningMax.best_eq_or_mem peakKey none ((distinctConnIds records events).map fun id =>
    (flowAttack F (pearson A) records events config.toAttackConfig id).getD none) with hbest | hbest
  · rw [← hworst, hbest] at hle
    exact absurd hle (not_le.mpr (WithBot.bot_lt_coe _))
  · obtain ⟨id', hid', heq⟩ := List.mem_map.mp hbest
    rw [hworst] at heq
    cases hreport : report.volumeAttack with
    | none =>
        rw [hreport] at hle
        exact absurd hle (not_le.mpr (WithBot.bot_lt_coe _))
    | some a =>
        have hflow := hcand id' hid'
        rw [hreport] at heq hle
        rw [heq] at hflow
        have hone : a.peakCrossCorr = 1 := le_antisymm (flowAttack_peak_le_one hA hflow)
          (hpeak ▸ WithBot.coe_le_coe.mp hle)
        have hleaks : a.leaks = true := (flowAttack_leaks hflow).1.mpr (hone ▸ hthreshold)
        refine ⟨report, a, hruns, ?_, hreport, hone⟩
        rw [AdversaryReport.adversaryWon, hreport, Option.any_some, hleaks]
        simp only [Bool.or_true, Bool.true_or]

-- ============================================================================
-- All flows repeated on the wire
-- ============================================================================

/-- The series `a` is an affine image of `b` at this lag, wherever they overlap. -/
def AffineAt (K : Type) [Field K] (lag : Int) (a b : List Rat) : Prop :=
  ∃ c d : K, ∀ i j : ℕ, i < a.length → j < b.length → (i : Int) - j = lag →
    ((a.getD i 0 : Rat) : K) = c * ((b.getD j 0 : Rat) : K) + d

/-- Only an affine image is fully correlated. -/
theorem affineAt_of_shiftedPearson (hA : A.Exact) {a b : List Rat} (hlen : a.length = b.length)
    {lag : Int} (h : |shiftedPearson (pearson A) a b lag| = 1) : AffineAt K lag a b := by
  unfold shiftedPearson at h
  dsimp only at h
  generalize hpairs : (List.range (min a.length b.length)).filterMap _ = pairs at h
  rw [pearson_exact hA] at h
  obtain ⟨c, d, haffine⟩ := Correlation.exists_affine_of_abs_coefficient hA.isSqrt h
  refine ⟨c, d, fun i j hi hj hij => ?_⟩
  have hmem : (a.getD i 0, b.getD j 0) ∈ pairs := by
    rw [← hpairs, List.mem_filterMap]
    refine ⟨i, List.mem_range.mpr (by omega), ?_⟩
    rw [if_pos (by omega)]
    congr 2
    congr 1
    omega
  obtain ⟨m, hm, heq⟩ := List.getElem_of_mem hmem
  have hpair := haffine ⟨m, by simpa using hm⟩
  simpa [measure, List.getD_eq_getElem?_getD, hm, heq] using hpair

/-- The wire series of a flow on the grid from `t0` to `tEnd`. -/
def linkedWire (F : F64) (records : List LogRecord) (events : EventNames) (ns t0 tEnd id : Nat) :
    List Rat :=
  series F (binIndex t0 ns tEnd + 1)
    (gridded (isWireOf events t0 id) t0 ns (binIndex t0 ns tEnd + 1) records)

/-- The real series of a flow on the same grid. -/
def linkedReal (F : F64) (records : List LogRecord) (events : EventNames) (ns t0 tEnd id : Nat) :
    List Rat :=
  series F (binIndex t0 ns tEnd + 1)
    (gridded (isRealOf events t0 id) t0 ns (binIndex t0 ns tEnd + 1) records)

/-- The times of the log that count. -/
def relevantTimes (records : List LogRecord) (events : EventNames) : List Nat :=
  (records.filter fun r => r.event = events.wire ∨ r.event = events.real).map LogRecord.unixNanos

omit [IsStrictOrderedRing K] [Field K] [LinearOrder K] in
/-- On the shared grid too a repeated flow follows its real traffic. -/
theorem linkedWire_follows {ns t0 tEnd id k : Nat} (hns : 0 < ns)
    (h0 : (relevantTimes records events).min? = some t0)
    (hEnd : (relevantTimes records events).max? = some tEnd)
    (hspan : (tEnd - t0) / ns + 1 < 2 ^ 60)
    (hrepeats : Repeats records events (k * ns) id) :
    ∀ i, i + k < binIndex t0 ns tEnd + 1 →
      (linkedWire F records events ns t0 tEnd id).getD (i + k) 0
        = (linkedReal F records events ns t0 tEnd id).getD i 0 := by
  have htime : ∀ r ∈ records, (r.event = events.wire ∨ r.event = events.real) →
      t0 ≤ r.unixNanos ∧ r.unixNanos ≤ tEnd := by
    intro r hr hevent
    have hmem : r.unixNanos ∈ relevantTimes records events :=
      List.mem_map_of_mem (List.mem_filter.mpr ⟨hr, by simpa using hevent⟩)
    exact ⟨(List.min?_eq_some_iff.mp h0).2 _ hmem, (List.max?_eq_some_iff.mp hEnd).2 _ hmem⟩
  have hwire : gridded (isWireOf events t0 id) t0 ns (binIndex t0 ns tEnd + 1) records
      = (wireFrames records events id).map fun t => (min (binIndex t0 ns t.1)
        (binIndex t0 ns tEnd), t.2) := by
    rw [gridded, wireFrames, List.map_map]
    refine congrArg _ (List.filter_congr fun r hr => ?_)
    rw [isWireOf, decide_eq_decide]
    exact and_iff_right_of_imp fun h => (htime r hr (.inl h.1)).1
  have hreal : gridded (isRealOf events t0 id) t0 ns (binIndex t0 ns tEnd + 1) records
      = (realFrames records events id).map fun t => (min (binIndex t0 ns t.1)
        (binIndex t0 ns tEnd), t.2) := by
    rw [gridded, realFrames, List.map_map]
    refine congrArg _ (List.filter_congr fun r hr => ?_)
    rw [isRealOf, decide_eq_decide]
    exact and_iff_right_of_imp fun h => (htime r hr (.inr h.2.1)).1
  have hshift : gridded (isWireOf events t0 id) t0 ns (binIndex t0 ns tEnd + 1) records
      = Histogram.shift k (gridded (isRealOf events t0 id) t0 ns (binIndex t0 ns tEnd + 1)
        records) := by
    rw [hwire, hreal, hrepeats, Histogram.shift, List.map_map, List.map_map]
    refine List.map_congr_left fun t ht => ?_
    have hcopy : (t.1 + k * ns, t.2) ∈ wireFrames records events id :=
      hrepeats ▸ List.mem_map_of_mem (f := fun t => (t.1 + k * ns, t.2)) ht
    obtain ⟨copy, hcopyMem, hcopyEq⟩ := List.mem_map.mp hcopy
    simp only [List.mem_filter, decide_eq_true_eq] at hcopyMem
    have hlast := (htime copy hcopyMem.1 (.inl hcopyMem.2.1)).2
    rw [(Prod.mk.inj hcopyEq).1] at hlast
    obtain ⟨r, hr, rfl⟩ := List.mem_map.mp ht
    simp only [List.mem_filter, decide_eq_true_eq] at hr
    have hge := (htime r hr.1 (.inr hr.2.2.1)).1
    dsimp only at hlast
    have hle : (r.unixNanos + k * ns - t0) / ns ≤ (tEnd - t0) / ns :=
      Nat.div_le_div_right (by omega)
    have hadd := binIndex_add (k := k) hns hge (by omega)
    have hend : binIndex t0 ns tEnd = (tEnd - t0) / ns := Nat.mod_eq_of_lt (by omega)
    have hmoved : binIndex t0 ns (r.unixNanos + k * ns) ≤ binIndex t0 ns tEnd :=
      hend ▸ (Nat.mod_le _ _).trans hle
    simp only [Function.comp_apply, Prod.mk.injEq, and_true]
    omega
  intro i hi
  rw [linkedWire, linkedReal, hshift, getD_series hi, getD_series (by omega),
    Histogram.weights_shift]

omit [IsStrictOrderedRing K] in
/-- A flow is recognised if its own real traffic has the only peak of 1. -/
theorem guessFlow_eq {p : List Rat → List Rat → K} {s : FlowSeries} {config : AttackConfig}
    {connIds : List Nat} {id : Nat} (hid : id ∈ connIds)
    (hself : (peakCrossCorrelation p ((s.wire id).getD []) ((s.real id).getD [])
      config.maxLagBins).2 = 1)
    (hother : ∀ id' ∈ connIds, id' ≠ id → (peakCrossCorrelation p ((s.wire id).getD [])
      ((s.real id').getD []) config.maxLagBins).2 < 1) :
    guessFlow p s config connIds id = id := by
  unfold guessFlow
  dsimp only
  have hle := RunningMax.le_best Prod.snd (connIds.headD 0, (⊥ : WithBot K))
    (List.mem_map_of_mem (f := fun realId => (realId, ((peakCrossCorrelation p
      ((s.wire id).getD []) ((s.real realId).getD []) config.maxLagBins).2 : WithBot K))) hid)
  rw [hself] at hle
  rcases RunningMax.best_eq_or_mem Prod.snd (connIds.headD 0, (⊥ : WithBot K))
    (connIds.map fun realId => (realId, ((peakCrossCorrelation p ((s.wire id).getD [])
      ((s.real realId).getD []) config.maxLagBins).2 : WithBot K))) with hbest | hbest
  · rw [hbest] at hle
    exact absurd hle (not_le.mpr (WithBot.bot_lt_coe _))
  · obtain ⟨realId, hreal, heq⟩ := List.mem_map.mp hbest
    rw [← heq] at hle ⊢
    by_contra hne
    exact absurd (WithBot.coe_le_coe.mp hle) (not_le.mpr (hother realId hreal hne))

/-- Right guesses beat chance, for two flows or more. -/
theorem scoreLinks_all (hA : A.Exact) {guess : Nat → Nat} {connIds : List Nat}
    (hlen : 2 ≤ connIds.length) (h : ∀ id ∈ connIds, guess id = id) :
    (scoreLinks A guess connIds).linkingAccuracy = 1 ∧
      (scoreLinks A guess connIds).beatsChance = true := by
  have hcorrect : (connIds.map fun wireId => (wireId, guess wireId, guess wireId == wireId)).countP
      (·.2.2) = connIds.length := by
    rw [List.countP_map, List.countP_eq_length]
    intro id hid
    rw [Function.comp_apply, h id hid, beq_self_eq_true]
  have htwo : (2 : K) ≤ (connIds.length : ℕ) := by exact_mod_cast hlen
  have hhalf : (1 : K) / (connIds.length : ℕ) ≤ 1 / 2 := one_div_le_one_div_of_le two_pos htwo
  have hone : ((connIds.length : ℕ) : K) / (connIds.length : ℕ) = 1 :=
    div_self (by linarith)
  unfold scoreLinks
  simp only [hcorrect, Arith.div, Arith.add, hA.round_eq, hone, Bool.and_eq_true,
    decide_eq_true_eq, true_and]
  constructor
  · calc (1 : K) / (connIds.length : ℕ) + 1 / 1000000000
        ≤ 1 / 2 + 1 / 1000000000 := by gcongr
      _ < 1 := by norm_num
  · norm_num

/-- All flows put their real traffic on the wire, each some whole bins later for a lag of
    the window, and none is an affine image of another one's real traffic at any such
    lag. -/
structure AllCopied (K : Type) [Field K] (F : F64) (records : List LogRecord)
    (events : EventNames) (config : AttackConfig) (t0 tEnd : Nat) (delay : Nat → Nat) :
    Prop where
  first : (relevantTimes records events).min? = some t0
  last : (relevantTimes records events).max? = some tEnd
  bins : 0 < binNs F config.binMs
  flows : 2 ≤ (distinctConnIds records events).length
  repeats : ∀ id ∈ distinctConnIds records events,
    Repeats records events (delay id * binNs F config.binMs) id
  lag : ∀ id ∈ distinctConnIds records events,
    InWindow (binIndex t0 (binNs F config.binMs) tEnd + 1) config.maxLagBins (delay id)
  varies : ∀ id ∈ distinctConnIds records events,
    Varies (binIndex t0 (binNs F config.binMs) tEnd + 1 - delay id)
      (linkedReal F records events (binNs F config.binMs) t0 tEnd id)
  apart : ∀ id ∈ distinctConnIds records events, ∀ id' ∈ distinctConnIds records events,
    id' ≠ id → ∀ lag,
      InWindow (binIndex t0 (binNs F config.binMs) tEnd + 1) config.maxLagBins lag →
      ¬ AffineAt K lag (linkedWire F records events (binNs F config.binMs) t0 tEnd id)
        (linkedReal F records events (binNs F config.binMs) t0 tEnd id')

/-- Then every flow is recognised. -/
theorem AllCopied.guessFlow_eq (hA : A.Exact) {config : AttackConfig} {t0 tEnd : Nat}
    {delay : Nat → Nat} (h : AllCopied K F records events config t0 tEnd delay)
    (hgrid : (tEnd - t0) / binNs F config.binMs + 1 < 2 ^ 60) {s : FlowSeries}
    (hs : linkingSeries F records events (binNs F config.binMs) t0 tEnd
      (distinctConnIds records events) = some s) {id : Nat}
    (hid : id ∈ distinctConnIds records events) :
    guessFlow (pearson A) s config (distinctConnIds records events) id = id := by
  have hwireLen : (linkedWire F records events (binNs F config.binMs) t0 tEnd id).length
      = binIndex t0 (binNs F config.binMs) tEnd + 1 := length_series _ _
  have hrealLen : ∀ id', (linkedReal F records events (binNs F config.binMs) t0 tEnd id').length
      = binIndex t0 (binNs F config.binMs) tEnd + 1 := fun _ => length_series _ _
  have hwire : (s.wire id).getD []
      = linkedWire F records events (binNs F config.binMs) t0 tEnd id := by
    rw [(linkingSeries_eq hs hid).1]
    rfl
  have hreal : ∀ id' ∈ distinctConnIds records events, (s.real id').getD []
      = linkedReal F records events (binNs F config.binMs) t0 tEnd id' := by
    intro id' hid'
    rw [(linkingSeries_eq hs hid').2]
    rfl
  refine MixTor.guessFlow_eq hid ?_ fun id' hid' hne => ?_
  · have hcopy := linkedWire_follows (F := F) h.bins h.first h.last hgrid (h.repeats id hid)
    have hfollows : Follows (delay id)
        (linkedWire F records events (binNs F config.binMs) t0 tEnd id)
        (linkedReal F records events (binNs F config.binMs) t0 tEnd id) :=
      ⟨1, 0, one_ne_zero, fun i hi => by rw [hcopy i (hwireLen ▸ hi), one_mul, add_zero]⟩
    rw [hwire, hreal id hid]
    exact peak_of_follows hA hwireLen (hrealLen id) (h.lag id hid) hfollows (h.varies id hid)
  · rw [hwire, hreal id' hid']
    refine lt_of_le_of_ne (peak_le_one hA _ _ _) fun hpeak => ?_
    rcases (peak_spec (pearson A) (linkedWire F records events (binNs F config.binMs) t0 tEnd id)
      (linkedReal F records events (binNs F config.binMs) t0 tEnd id') config.maxLagBins).1 with
      hzero | ⟨lag, hwindow, hlagPeak⟩
    · rw [hzero] at hpeak
      exact zero_ne_one hpeak
    · rw [hlagPeak] at hpeak
      rw [hwireLen, hrealLen, min_self] at hwindow
      exact h.apart id hid id' hid' hne lag hwindow
        (affineAt_of_shiftedPearson hA (hwireLen.trans (hrealLen id').symm) hpeak)

/-- **Flows that are not shaped are all linked.**  For every log that spans less than
    `2 ^ 60` bins at every scale, of two flows or more that each put their real traffic on
    the wire some whole bins later, for a lag of the window and bins of a width above
    zero, in exact arithmetic: if the real traffic of each differs among the bins but the
    last ones that its delay cuts off, and no flow's wire is an affine image of another
    flow's real traffic at any lag of the window, the adversary takes every wire flow for
    the right real one, and wins. -/
theorem runAdversary_links_copies (hA : A.Exact) {config : AdversaryConfig} {t0 tEnd : Nat}
    {delay : Nat → Nat}
    (hspan : ∀ scale ∈ config.binMs :: coarseScales F config.binMs,
      SpanFits F records events scale)
    (h : AllCopied K F records events config.toAttackConfig t0 tEnd delay) :
    ∃ report a, runAdversary F A records events config = some report ∧
      report.adversaryWon = true ∧ report.linkingAttack = some a ∧ a.linkingAccuracy = 1 := by
  obtain ⟨report, hruns, -, hlink⟩ := exists_runAdversary (A := A) hspan
  obtain ⟨hbase, -⟩ := List.forall_mem_cons.mp hspan
  obtain ⟨first, hfirst, hfirstTime⟩ := List.mem_map.mp (List.min?_mem h.first)
  obtain ⟨last, hlast, hlastTime⟩ := List.mem_map.mp (List.max?_mem h.last)
  simp only [List.mem_filter, decide_eq_true_eq] at hfirst hlast
  have hgrid : (tEnd - t0) / binNs F config.binMs + 1 < 2 ^ 60 := by
    have hfar := hbase first hfirst.1 hfirst.2 last hlast.1 hlast.2
    rwa [hfirstTime, hlastTime] at hfar
  have hend : binIndex t0 (binNs F config.binMs) tEnd + 1 < 2 ^ 60 := by
    rw [binIndex, Nat.mod_eq_of_lt (by omega)]
    exact hgrid
  obtain ⟨s, hs⟩ :=
    exists_linkingSeries F events records (distinctConnIds records events) hend
  obtain ⟨haccuracy, hbeats⟩ := scoreLinks_all hA h.flows fun id hid =>
    h.guessFlow_eq hA hgrid hs hid
  have hresult : report.linkingAttack = some (scoreLinks A (guessFlow (pearson A) s
      config.toAttackConfig (distinctConnIds records events)) (distinctConnIds records events)) := by
    have hfirst := h.first
    have hlast := h.last
    rw [relevantTimes] at hfirst hlast
    rw [linkingAttack, if_neg (not_lt.mpr h.flows), if_neg h.bins.ne'] at hlink
    simp only [hfirst, hlast, hs] at hlink
    exact (Option.some.inj hlink).symm
  refine ⟨report, _, hruns, ?_, hresult, haccuracy⟩
  rw [AdversaryReport.adversaryWon, hresult, Option.any_some, hbeats, Bool.or_true]

end Exact

/-- A flow that sends so many bytes a bin, and has them on the wire a bin later. -/
def copyRecords (conn : Nat) (bytes : List Nat) : List LogRecord :=
  bytes.zipIdx.flatMap fun b =>
    [coverRecord .serverRealOutput (b.2 * 100000000) conn b.1,
      coverRecord .serverWireInput ((b.2 + 1) * 100000000) conn b.1]

theorem copyRecords_varies : Varies 3 [1, 2, 4, 0] ∧ Varies 3 [1, 3, 2, 0] := by
  constructor
  all_goals
    rintro ⟨c, hc⟩
    have h0 := hc 0 (by decide)
    have h1 := hc 1 (by decide)
    exact absurd (h0.trans h1.symm) (by decide)

theorem runAdversary_delayed_copy_sample : ∃ report a,
    runAdversary .steep realArith (copyRecords 1 [1, 2, 4]) .server (.default .steep)
      = some report ∧
    report.adversaryWon = true ∧ report.volumeAttack = some a ∧ a.peakCrossCorr = 1 :=
  have hseries : alignedSeries .steep (copyRecords 1 [1, 2, 4]) .server
      (AdversaryConfig.default .steep).binMs (some 1) = some (some ([0, 1, 2, 4], [1, 2, 4, 0])) :=
    by decide +kernel
  have hrepeats : Repeats (copyRecords 1 [1, 2, 4]) .server
      (1 * binNs .steep (AdversaryConfig.default .steep).binMs) 1 := by decide +kernel
  runAdversary_delayed_copy realArith_exact (by decide +kernel) hrepeats hseries (by decide)
    ⟨by decide, by decide⟩ copyRecords_varies.1
    (decide_eq_true (by norm_num [AdversaryConfig.default, AttackConfig.default]))

/-- Two flows, a bin behind their real traffic. -/
def copyLog : List LogRecord := copyRecords 1 [1, 2, 4] ++ copyRecords 2 [1, 3, 2]

theorem copyLog_series :
    linkedWire .steep copyLog .server 100000000 0 300000000 1 = [0, 1, 2, 4] ∧
      linkedReal .steep copyLog .server 100000000 0 300000000 1 = [1, 2, 4, 0] ∧
      linkedWire .steep copyLog .server 100000000 0 300000000 2 = [0, 1, 3, 2] ∧
      linkedReal .steep copyLog .server 100000000 0 300000000 2 = [1, 3, 2, 0] := by
  decide +kernel

/-- Neither flow's wire is an affine image of the other's real traffic. -/
theorem copyLog_apart {lag : Int} (h : InWindow 4 20 lag) :
    ¬ AffineAt ℝ lag [0, 1, 2, 4] [1, 3, 2, 0] ∧ ¬ AffineAt ℝ lag [0, 1, 3, 2] [1, 2, 4, 0] := by
  obtain ⟨hle, hover⟩ := h
  have hcases : lag = -1 ∨ lag = 0 ∨ lag = 1 := by omega
  constructor
  all_goals
    rintro ⟨c, d, haffine⟩
    rcases hcases with rfl | rfl | rfl
  · have h0 := haffine 0 1 (by decide) (by decide) (by decide)
    have h1 := haffine 1 2 (by decide) (by decide) (by decide)
    have h2 := haffine 2 3 (by decide) (by decide) (by decide)
    norm_num at h0 h1 h2
    linarith
  · have h0 := haffine 0 0 (by decide) (by decide) (by decide)
    have h1 := haffine 1 1 (by decide) (by decide) (by decide)
    have h2 := haffine 2 2 (by decide) (by decide) (by decide)
    norm_num at h0 h1 h2
    linarith
  · have h0 := haffine 1 0 (by decide) (by decide) (by decide)
    have h1 := haffine 2 1 (by decide) (by decide) (by decide)
    have h2 := haffine 3 2 (by decide) (by decide) (by decide)
    norm_num at h0 h1 h2
    linarith
  · have h0 := haffine 0 1 (by decide) (by decide) (by decide)
    have h1 := haffine 1 2 (by decide) (by decide) (by decide)
    have h2 := haffine 2 3 (by decide) (by decide) (by decide)
    norm_num at h0 h1 h2
    linarith
  · have h0 := haffine 0 0 (by decide) (by decide) (by decide)
    have h1 := haffine 1 1 (by decide) (by decide) (by decide)
    have h3 := haffine 3 3 (by decide) (by decide) (by decide)
    norm_num at h0 h1 h3
    linarith
  · have h0 := haffine 1 0 (by decide) (by decide) (by decide)
    have h1 := haffine 2 1 (by decide) (by decide) (by decide)
    have h2 := haffine 3 2 (by decide) (by decide) (by decide)
    norm_num at h0 h1 h2
    linarith

theorem copyLog_connIds : distinctConnIds copyLog .server = [1, 2] := by decide +kernel

theorem copyLog_allCopied :
    AllCopied ℝ .steep copyLog .server .default 0 300000000 (fun _ => 1) := by
  have hns : binNs .steep AttackConfig.default.binMs = 100000000 := by decide +kernel
  have hn : binIndex 0 100000000 300000000 + 1 = 4 := by decide
  obtain ⟨hwire1, hreal1, hwire2, hreal2⟩ := copyLog_series
  constructor
  · decide +kernel
  · decide +kernel
  · decide +kernel
  · decide +kernel
  · decide +kernel
  · intro id _
    rw [hns, hn]
    exact ⟨by decide, by decide⟩
  · rw [hns, hn, copyLog_connIds]
    simp only [List.forall_mem_cons, hreal1, hreal2]
    exact ⟨copyRecords_varies.1, copyRecords_varies.2, nofun⟩
  · rw [hns, hn, copyLog_connIds]
    simp only [List.forall_mem_cons, hwire1, hreal1, hwire2, hreal2]
    refine ⟨⟨fun h => absurd rfl h, fun _ lag h => (copyLog_apart h).1, nofun⟩,
      ⟨fun _ lag h => (copyLog_apart h).2, fun h => absurd rfl h, nofun⟩, nofun⟩

theorem runAdversary_links_copies_sample : ∃ report a,
    runAdversary .steep realArith copyLog .server (.default .steep) = some report ∧
      report.adversaryWon = true ∧ report.linkingAttack = some a ∧ a.linkingAccuracy = 1 :=
  runAdversary_links_copies realArith_exact (by decide +kernel) copyLog_allCopied

end MixTor
