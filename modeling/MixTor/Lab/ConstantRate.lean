/-
  MixTor.Lab.ConstantRate

  What the lab's adversary makes of a perfect cover (correlation_attack.rs): every flow
  sends frames of one size at one rate for as long as the others.

  Whatever the real traffic behind it is, as long as none lies outside the time of the
  frames, the wire series are constant and alike, so no attack wins.
-/

import MixTor.Lab.LogSeries
import Mathlib.Data.List.ReduceOption

namespace MixTor

open Histogram (weights)

variable {F : F64} {records : List LogRecord} {events : EventNames}

-- ============================================================================
-- The connections of a log
-- ============================================================================

theorem mem_distinctConnIds {id : Nat} : id ∈ distinctConnIds records events ↔
    ∃ r ∈ records, (r.event = events.wire ∨ r.event = events.real) ∧ r.connId = id := by
  rw [distinctConnIds, mem_dedupSizes, mem_sortSizes, List.mem_map]
  simp only [List.mem_filter, decide_eq_true_eq, and_assoc]

/-- Of a sorted list `dedup` leaves no repeats. -/
theorem nodup_dedupSizes {α : Type*} [LinearOrder α] {xs : List α} (h : xs.Pairwise (· ≤ ·)) :
    (dedupSizes xs).Nodup := by
  fun_induction dedupSizes xs with
  | case1 => exact List.nodup_nil
  | case2 x => exact List.nodup_singleton x
  | case3 x rest ih => exact ih h.of_cons
  | case4 x y rest hne ih =>
      refine List.nodup_cons.mpr ⟨fun hx => ?_, ih h.of_cons⟩
      have hxy := List.rel_of_pairwise_cons h List.mem_cons_self
      rcases List.mem_cons.mp (mem_dedupSizes.mp hx) with rfl | hrest
      · exact hne rfl
      · exact hne (le_antisymm hxy (List.rel_of_pairwise_cons h.of_cons hrest))

theorem nodup_distinctConnIds (records : List LogRecord) (events : EventNames) :
    (distinctConnIds records events).Nodup :=
  nodup_dedupSizes (pairwise_sortSizes _)

-- ============================================================================
-- Frames at an even pace
-- ============================================================================

/-- Equal bytes are added up exactly, up to 2^53. -/
theorem binSum_replicate (hF : F.Lawful) {k cell : Nat} (h : k * cell ≤ 2 ^ 53) :
    binSum F (List.replicate k cell) = (k * cell : ℕ) := by
  have hfold : ∀ k s : ℕ, s + k * cell ≤ 2 ^ 53 →
      (List.replicate k cell).foldl (fun x b => F.add x (F.round (b : ℕ))) (s : Rat)
        = ((s + k * cell : ℕ) : Rat) := by
    intro k
    induction k with
    | zero => intro s _; rw [Nat.zero_mul, Nat.add_zero]; rfl
    | succ k ih =>
        intro s hs
        rw [Nat.succ_mul] at hs ⊢
        have hadd : F.add (s : Rat) (F.round (cell : ℕ)) = ((s + cell : ℕ) : Rat) := by
          rw [hF.round_natCast cell (by omega), F64.add, ← Nat.cast_add]
          exact hF.round_natCast _ (by omega)
        rw [List.replicate_succ, List.foldl_cons, hadd, ih (s + cell) (by omega)]
        congr 1
        omega
  have hsum := hfold k 0 (by omega)
  rwa [Nat.cast_zero, Nat.zero_add] at hsum

/-- Frames of `cell` bytes, `gap` apart and `k` to a bin, fill all bins alike, whatever
    their order in the log. -/
theorem series_even (hF : F.Lawful) {start gap cell k q : Nat} (hk : 0 < k)
    (hsmall : k * cell ≤ 2 ^ 53) {idx : Nat → Nat}
    (hidx : ∀ i < q * k, idx (start + i * gap) = i / k) {ts : List (Nat × Nat)}
    (h : ts.Perm ((List.range (q * k)).map fun i => (start + i * gap, cell))) :
    series F q (ts.map fun t => (idx t.1, t.2)) = List.replicate q ((k * cell : ℕ) : Rat) := by
  rw [series, List.eq_replicate_iff, List.length_map, List.length_range]
  refine ⟨rfl, fun x hx => ?_⟩
  obtain ⟨j, hj, rfl⟩ := List.mem_map.mp hx
  have hmap : ((List.range (q * k)).map fun i => (start + i * gap, cell)).map
      (fun t => (idx t.1, t.2)) = (List.range (q * k)).map fun i => (i / k, cell) := by
    rw [List.map_map]
    exact List.map_congr_left fun i hi => by
      rw [Function.comp_apply, hidx i (List.mem_range.mp hi)]
  have hweights : weights j (ts.map fun t => (idx t.1, t.2)) = List.replicate k cell := by
    have hperm := Histogram.weights_perm (j := j) (h.map fun t => (idx t.1, t.2))
    rw [hmap, Histogram.weights_even hk (List.mem_range.mp hj)] at hperm
    exact List.perm_replicate.mp hperm
  rw [hweights, binSum_replicate hF hsmall]

-- ============================================================================
-- Statistics of flows that are alike
-- ============================================================================

section Alike

variable {K : Type} [Field K] [LinearOrder K] [IsStrictOrderedRing K] {A : Arith K}

omit [LinearOrder K] [IsStrictOrderedRing K] in
theorem exists_spearman (F : F64) (p : List Rat → List Rat → K) (a b : List Rat) :
    ∃ rho, spearman F p a b = some rho := by
  unfold spearman
  dsimp only
  split
  · exact ⟨0, rfl⟩
  · rw [ranks_eq, ranks_eq]
    exact ⟨_, rfl⟩

theorem coefficientOfVariation_replicate (hA : A.Lawful) {c n : ℕ} (hlen : n ≤ 2 ^ 53)
    (h : n * c ≤ 2 ^ 53) : coefficientOfVariation A (List.replicate n (c : K)) = 0 := by
  rw [coefficientOfVariation, variance_replicate hA hlen h, hA.sqrt_zero, Arith.div, zero_div,
    hA.round_zero, ite_self]

omit [IsStrictOrderedRing K] in
/-- A guess is one of the flows. -/
theorem guessFlow_mem (p : List Rat → List Rat → K) (s : FlowSeries) (config : AttackConfig)
    {connIds : List Nat} (h : connIds ≠ []) (wireId : Nat) :
    guessFlow p s config connIds wireId ∈ connIds := by
  unfold guessFlow
  dsimp only
  rcases RunningMax.best_eq_or_mem Prod.snd (connIds.headD 0, (⊥ : WithBot K))
    (connIds.map fun realId => (realId, ((peakCrossCorrelation p ((s.wire wireId).getD [])
      ((s.real realId).getD []) config.maxLagBins).2 : WithBot K))) with hbest | hbest
  · rw [hbest, List.headD_eq_head?_getD, List.head?_eq_some_head h]
    exact List.head_mem h
  · obtain ⟨realId, hid, heq⟩ := List.mem_map.mp hbest
    rwa [← heq]

/-- One guess for all flows is right once. -/
theorem scoreLinks_const (hA : A.Lawful) {guess : Nat → Nat} {connIds : List Nat} {g : Nat}
    (hg : g ∈ connIds) (hnodup : connIds.Nodup) (hconst : ∀ id ∈ connIds, guess id = g) :
    (scoreLinks A guess connIds).beatsChance = false := by
  have hcorrect : (connIds.map fun wireId => (wireId, guess wireId, guess wireId == wireId)).countP
      (·.2.2) = 1 := by
    rw [List.countP_map, ← List.count_eq_one_of_mem hnodup hg, List.count]
    refine List.countP_congr fun id hid => ?_
    rw [Function.comp_apply, hconst id hid, beq_iff_eq, beq_iff_eq]
    exact eq_comm
  have hone : A.round (1 : ℕ) = 1 := by
    rw [hA.round_natCast 1 (by norm_num), Nat.cast_one]
  unfold scoreLinks
  dsimp only
  rw [hcorrect, hone, Bool.and_eq_false_iff]
  refine .inl (decide_eq_false (not_lt.mpr ?_))
  have hmargin : 0 ≤ A.round (1 / 1000000000 : K) := by
    rw [← hA.round_zero]
    exact hA.round_mono (by positivity)
  rw [Arith.add]
  refine le_trans ?_ (hA.round_mono (le_add_of_nonneg_right hmargin))
  rw [Arith.div, hA.round_round]

end Alike

-- ============================================================================
-- A perfect cover
-- ============================================================================

/-- The wire frames of a flow, with their times and sizes. -/
def wireFrames (records : List LogRecord) (events : EventNames) (id : Nat) : List (Nat × Nat) :=
  (records.filter fun r => r.event = events.wire ∧ r.connId = id).map fun r =>
    (r.unixNanos, r.bytes)

/-- Every flow of the log has `frames` wire frames of `cell` bytes, `gap` nanoseconds apart
    from `start` on, and no real traffic outside of that time. -/
structure ConstantRate (records : List LogRecord) (events : EventNames)
    (start gap frames cell : Nat) : Prop where
  gap_pos : 0 < gap
  frames_pos : 0 < frames
  cell_pos : 0 < cell
  wire : ∀ id ∈ distinctConnIds records events, (wireFrames records events id).Perm
    ((List.range frames).map fun i => (start + i * gap, cell))
  real : ∀ r ∈ records, r.event = events.real →
    start ≤ r.unixNanos ∧ r.unixNanos < start + frames * gap

/-- The bins hold whole numbers of frames, and the log a whole number of bins. -/
def Whole (gap frames ns : Nat) : Prop := gap ∣ ns ∧ ns ∣ frames * gap

instance (gap frames ns : Nat) : Decidable (Whole gap frames ns) :=
  inferInstanceAs (Decidable (gap ∣ ns ∧ ns ∣ frames * gap))

namespace ConstantRate

variable {start gap frames cell : Nat} (hrate : ConstantRate records events start gap frames cell)
include hrate

theorem mem_wireFrames {id : Nat} (hid : id ∈ distinctConnIds records events) {t : Nat × Nat} :
    t ∈ wireFrames records events id ↔ ∃ i < frames, t = (start + i * gap, cell) := by
  rw [(hrate.wire id hid).mem_iff, List.mem_map]
  simp only [List.mem_range, eq_comm]

/-- All traffic is within the time of the cover. -/
theorem time_mem {r : LogRecord} (hr : r ∈ records)
    (hevent : r.event = events.wire ∨ r.event = events.real) :
    start ≤ r.unixNanos ∧ r.unixNanos < start + frames * gap := by
  by_cases hwire : r.event = events.wire
  · have hid := mem_distinctConnIds.mpr ⟨r, hr, hevent, rfl⟩
    have hmem : (r.unixNanos, r.bytes) ∈ wireFrames records events r.connId :=
      List.mem_map.mpr ⟨r, List.mem_filter.mpr ⟨hr, by simpa using hwire⟩, rfl⟩
    obtain ⟨i, hi, heq⟩ := (hrate.mem_wireFrames hid).mp hmem
    rw [(Prod.mk.inj heq).1]
    refine ⟨Nat.le_add_right _ _, Nat.add_lt_add_left ?_ start⟩
    exact Nat.mul_lt_mul_of_pos_right hi hrate.gap_pos
  · exact hrate.real r hr (hevent.resolve_left hwire)

/-- The frame number `i` of a flow. -/
theorem exists_frame {id i : Nat} (hid : id ∈ distinctConnIds records events) (hi : i < frames) :
    ∃ r ∈ records, r.event = events.wire ∧ r.connId = id ∧ r.unixNanos = start + i * gap := by
  have hmem := (hrate.mem_wireFrames hid).mpr ⟨i, hi, rfl⟩
  obtain ⟨r, hr, heq⟩ := List.mem_map.mp hmem
  obtain ⟨hr, hwire, hconn⟩ : r ∈ records ∧ r.event = events.wire ∧ r.connId = id := by
    simpa using hr
  exact ⟨r, hr, hwire, hconn, (Prod.mk.inj heq).1⟩

/-- A part of the log with all frames of one flow starts and ends with the cover. -/
theorem min_max {rs : List LogRecord} {id : Nat} (hid : id ∈ distinctConnIds records events)
    (hrs : ∀ r ∈ rs, r ∈ records ∧ (r.event = events.wire ∨ r.event = events.real))
    (hall : ∀ r ∈ records, r.event = events.wire → r.connId = id → r ∈ rs) :
    (rs.map LogRecord.unixNanos).min? = some start ∧
      ∃ tEnd, (rs.map LogRecord.unixNanos).max? = some tEnd ∧
        (frames - 1) * gap ≤ tEnd - start ∧ tEnd < start + frames * gap := by
  obtain ⟨first, hfirst, hwire, hconn, htime⟩ := hrate.exists_frame hid hrate.frames_pos
  obtain ⟨last, hlast, hwire', hconn', htime'⟩ := hrate.exists_frame hid
    (Nat.sub_lt hrate.frames_pos Nat.one_pos)
  have hmemFirst := List.mem_map_of_mem (f := LogRecord.unixNanos) (hall first hfirst hwire hconn)
  have hmemLast := List.mem_map_of_mem (f := LogRecord.unixNanos) (hall last hlast hwire' hconn')
  rw [htime, Nat.zero_mul, Nat.add_zero] at hmemFirst
  rw [htime'] at hmemLast
  have hbounds : ∀ t ∈ rs.map LogRecord.unixNanos, start ≤ t ∧ t < start + frames * gap := by
    intro t ht
    obtain ⟨r, hr, rfl⟩ := List.mem_map.mp ht
    exact hrate.time_mem (hrs r hr).1 (hrs r hr).2
  refine ⟨List.min?_eq_some_iff.mpr ⟨hmemFirst, fun t ht => (hbounds t ht).1⟩, ?_⟩
  obtain ⟨tEnd, hmax⟩ : ∃ tEnd, (rs.map LogRecord.unixNanos).max? = some tEnd :=
    Option.isSome_iff_exists.mp (List.isSome_max?_of_mem hmemFirst)
  have hle := (List.max?_eq_some_iff.mp hmax).2 _ hmemLast
  exact ⟨tEnd, hmax, by omega, (hbounds tEnd (List.max?_mem hmax)).2⟩

/-- Whole bins hold `k` frames each, and there are `q` of them. -/
theorem exists_bins {ns : Nat} (hns : 0 < ns) (h : Whole gap frames ns) :
    ∃ k q, 0 < k ∧ 0 < q ∧ ns = k * gap ∧ frames = q * k := by
  obtain ⟨⟨k, rfl⟩, q, hq⟩ := h
  have hframes : frames = q * k := by
    refine Nat.eq_of_mul_eq_mul_right hrate.gap_pos (hq.trans ?_)
    ring
  have hpos : 0 < q * k := hframes ▸ hrate.frames_pos
  exact ⟨k, q, Nat.pos_of_mul_pos_left hpos, Nat.pos_of_mul_pos_right hpos, Nat.mul_comm _ _,
    hframes⟩

/-- The bin of a frame, and the last bin. -/
theorem binIndex_eq {k q : Nat} (hk : 0 < k) (hq : 0 < q) (hframes : frames = q * k)
    (hsmall : frames ≤ 2 ^ 53) :
    (∀ i < q * k, binIndex start (k * gap) (start + i * gap) = i / k) ∧
      ∀ t, start ≤ t → t < start + frames * gap → binIndex start (k * gap) t < q ∧
        ((frames - 1) * gap ≤ t - start → binIndex start (k * gap) t + 1 = q) := by
  have hgap := hrate.gap_pos
  have hqle : q ≤ 2 ^ 53 := (Nat.le_mul_of_pos_right q hk).trans (hframes ▸ hsmall)
  constructor
  · intro i hi
    have hlt : i / k < q := Nat.div_lt_of_lt_mul (by rwa [Nat.mul_comm k])
    rw [binIndex, Nat.add_sub_cancel_left, Nat.mul_div_mul_right i k hgap]
    exact Nat.mod_eq_of_lt (by omega)
  · intro t hlo hhi
    have hlt : (t - start) / (k * gap) < q := by
      refine Nat.div_lt_of_lt_mul ?_
      rw [Nat.mul_comm, ← Nat.mul_assoc, ← hframes]
      omega
    rw [binIndex, Nat.mod_eq_of_lt (by omega)]
    refine ⟨hlt, fun hlast => ?_⟩
    have hge : q - 1 ≤ (t - start) / (k * gap) := by
      rw [Nat.le_div_iff_mul_le (Nat.mul_pos hk hgap), ← Nat.mul_assoc]
      refine le_trans (Nat.mul_le_mul_right gap ?_) hlast
      rw [Nat.sub_mul, Nat.one_mul, ← hframes]
      omega
    omega

/-- The wire series of a flow by itself is constant. -/
theorem alignedSeries_cases (hF : F.Lawful) (hsmall : frames * cell ≤ 2 ^ 53) {binMs : Double}
    (hwhole : 0 < binNs F binMs → Whole gap frames (binNs F binMs)) {id : Nat}
    (hid : id ∈ distinctConnIds records events) :
    alignedSeries F records events binMs (some id) = some none ∨
      ∃ q c real, q ≤ 2 ^ 53 ∧ q * c ≤ 2 ^ 53 ∧ alignedSeries F records events binMs (some id)
        = some (some (List.replicate q ((c : ℕ) : Rat), real)) := by
  rcases Nat.eq_zero_or_pos (binNs F binMs) with hzero | hpos
  · left
    rw [alignedSeries, if_pos hzero]
  right
  obtain ⟨k, q, hk, hq, hns, hframes⟩ := hrate.exists_bins hpos (hwhole hpos)
  have hframesLe : frames ≤ 2 ^ 53 := (Nat.le_mul_of_pos_right frames hrate.cell_pos).trans hsmall
  have hqle : q ≤ frames := hframes ▸ Nat.le_mul_of_pos_right q hk
  obtain ⟨hbin, hlast⟩ := hrate.binIndex_eq hk hq hframes hframesLe
  rw [← hns] at hbin hlast
  have hrelevant : ∀ r, r ∈ relevantRecords records events (some id) ↔
      r ∈ records ∧ (r.event = events.wire ∨ r.event = events.real) ∧ r.connId = id := fun r => by
    simp only [relevantRecords, List.mem_filter, Option.all_some, decide_eq_true_eq, and_assoc]
  obtain ⟨hmin, tEnd, hmax, hlo, hhi⟩ := hrate.min_max hid
    (fun r hr => ⟨((hrelevant r).mp hr).1, ((hrelevant r).mp hr).2.1⟩)
    (fun r hr hwire hconn => (hrelevant r).mpr ⟨hr, .inl hwire, hconn⟩)
  have hstart : start ≤ tEnd := (List.min?_eq_some_iff.mp hmin).2 _ (List.max?_mem hmax)
  have hn : binIndex start (binNs F binMs) tEnd + 1 = q := (hlast tEnd hstart hhi).2 hlo
  have hfits : SeriesFits F records events binMs id := by
    refine .inr fun t0 t1 h0 h1 => ?_
    obtain rfl := Option.some.inj (hmin.symm.trans h0)
    obtain rfl := Option.some.inj (hmax.symm.trans h1)
    refine ⟨by omega, fun r hr => ?_⟩
    obtain ⟨hr, hevent, -⟩ := (hrelevant r).mp hr
    obtain ⟨hrlo, hrhi⟩ := hrate.time_mem hr hevent
    have := (hlast r.unixNanos hrlo hrhi).1
    omega
  obtain ⟨series?, hsome⟩ := Option.isSome_iff_exists.mp
    ((alignedSeries_spec records binMs id).1.mpr hfits)
  cases series? with
  | none =>
      rw [alignedSeries, if_neg hpos.ne'] at hsome
      simp [hmin, hmax] at hsome
  | some pair =>
      obtain ⟨wire, real⟩ := pair
      obtain ⟨t0, t1, h0, h1, hwire, -⟩ := alignedSeries_eq hsome
      obtain rfl := Option.some.inj (hmin.symm.trans h0)
      obtain rfl := Option.some.inj (hmax.symm.trans h1)
      have hbinned : binned (fun r => r.event = events.wire) start (binNs F binMs)
          (relevantRecords records events (some id)) = (wireFrames records events id).map
            fun t => (binIndex start (binNs F binMs) t.1, t.2) := by
        rw [binned, wireFrames, List.map_map, relevantRecords, List.filter_filter,
          List.filter_filter]
        refine congrArg _ (List.filter_congr fun r _ => ?_)
        by_cases hw : r.event = events.wire <;> simp [hw]
      have hsum : k * cell ≤ 2 ^ 53 :=
        (Nat.mul_le_mul_right cell (hframes ▸ Nat.le_mul_of_pos_left k hq)).trans hsmall
      rw [hbinned, hn, series_even hF hk hsum hbin (hframes ▸ hrate.wire id hid)] at hwire
      refine ⟨q, k * cell, real, hqle.trans hframesLe, ?_, by rw [hsome, hwire]⟩
      rwa [← Nat.mul_assoc, ← hframes]

-- ============================================================================
-- Each attack
-- ============================================================================

variable {K : Type} [Field K] [LinearOrder K] [IsStrictOrderedRing K] {A : Arith K}

/-- A flow does not leak through its envelope. -/
theorem flowAttack_not_leaks (hF : F.Lawful) (hA : A.Lawful) (hsmall : frames * cell ≤ 2 ^ 53)
    {config : AttackConfig} (hthreshold : exceeds config.volumeCorrThreshold (0 : K) = false)
    (hwhole : 0 < binNs F config.binMs → Whole gap frames (binNs F config.binMs)) {id : Nat}
    (hid : id ∈ distinctConnIds records events) :
    ∃ cand, flowAttack F (pearson A) records events config id = some cand ∧
      cand.any (·.leaks) = false := by
  rcases hrate.alignedSeries_cases hF hsmall hwhole hid with hnone | ⟨q, c, real, hq, hqc, hsome⟩
  · exact ⟨none, by rw [flowAttack, hnone]; rfl, rfl⟩
  · rw [flowAttack, hsome, Option.map_some]
    refine ⟨_, rfl, ?_⟩
    dsimp only
    split
    · rfl
    · simp only [Option.any_some, pearson_replicate hA hq hqc, peak_replicate hA hq hqc, abs_zero,
        hthreshold, Bool.or_self]

/-- The volume attack returns and finds no leak. -/
theorem volumeAttack_not_leaks (hF : F.Lawful) (hA : A.Lawful)
    (hsmall : ∀ id ∈ distinctConnIds records events, frames * cell ≤ 2 ^ 53)
    (config : AttackConfig) (hthreshold : exceeds config.volumeCorrThreshold (0 : K) = false)
    (hwhole : 0 < binNs F config.binMs → Whole gap frames (binNs F config.binMs)) :
    ∃ worst, volumeAttack F (pearson A) records events config (distinctConnIds records events)
      = some worst ∧ worst.any (·.leaks) = false := by
  have hcand : ∀ id ∈ distinctConnIds records events, flowAttack F (pearson A) records events
      config id = some ((flowAttack F (pearson A) records events config id).getD none) ∧
      ((flowAttack F (pearson A) records events config id).getD none).any (·.leaks) = false := by
    intro id hid
    obtain ⟨cand, hcand, hleaks⟩ :=
      hrate.flowAttack_not_leaks hF hA (hsmall id hid) hthreshold hwhole hid
    rw [hcand]
    exact ⟨rfl, hleaks⟩
  rw [volumeAttack_eq, RunningMax.foldlM_eq_best fun id hid => (hcand id hid).1]
  refine ⟨_, rfl, ?_⟩
  rcases RunningMax.best_eq_or_mem peakKey none ((distinctConnIds records events).map fun id =>
    (flowAttack F (pearson A) records events config id).getD none) with hbest | hbest
  · rw [hbest]
    rfl
  · obtain ⟨id, hid, heq⟩ := List.mem_map.mp hbest
    rw [← heq]
    exact (hcand id hid).2

omit [Field K] [LinearOrder K] [IsStrictOrderedRing K] in
/-- All frames on the wire have one size. -/
theorem bytes_eq : ∀ r ∈ records, r.event = events.wire → r.bytes = cell := by
  intro r hr hwire
  have hid := mem_distinctConnIds.mpr ⟨r, hr, .inl hwire, rfl⟩
  have hmem : (r.unixNanos, r.bytes) ∈ wireFrames records events r.connId :=
    List.mem_map.mpr ⟨r, List.mem_filter.mpr ⟨hr, by simpa using hwire⟩, rfl⟩
  obtain ⟨i, -, heq⟩ := (hrate.mem_wireFrames hid).mp hmem
  exact (Prod.mk.inj heq).2

omit [Field K] [LinearOrder K] [IsStrictOrderedRing K] in
/-- A flow puts all its frames on the wire. -/
theorem flowTotals_eq (hF : F.Lawful) (hsmall : frames * cell ≤ 2 ^ 53) {id : Nat}
    (hid : id ∈ distinctConnIds records events) :
    (flowTotals F records events id).1 = (frames * cell : ℕ) := by
  have hfold : ∀ (rs : List LogRecord) (t : Rat × Rat), (rs.foldl (fun t r =>
      if r.event = events.wire then (F.add t.1 (F.round (r.bytes : ℕ)), t.2)
      else if r.event = events.real then (t.1, F.add t.2 (F.round (r.bytes : ℕ)))
      else t) t).1 = ((rs.filter fun r => r.event = events.wire).map LogRecord.bytes).foldl
        (fun x b => F.add x (F.round (b : ℕ))) t.1 := by
    intro rs
    induction rs with
    | nil => exact fun _ => rfl
    | cons r rs ih =>
        intro t
        rw [List.foldl_cons, ih, List.filter_cons]
        by_cases hw : r.event = events.wire
        · rw [if_pos hw, if_pos (decide_eq_true hw)]
          rfl
        · have hskip : ¬ decide (r.event = events.wire) = true := by simpa using hw
          rw [if_neg hw, if_neg hskip]
          split <;> rfl
  have hbytes : (((records.filter fun r => r.connId = id).filter fun r =>
      r.event = events.wire).map LogRecord.bytes) = List.replicate frames cell := by
    have hframes : ((records.filter fun r => r.connId = id).filter fun r =>
        r.event = events.wire).map LogRecord.bytes
        = (wireFrames records events id).map Prod.snd := by
      rw [wireFrames, List.map_map, List.filter_filter]
      simp only [Bool.decide_and]
      rfl
    have hperm := (hrate.wire id hid).map Prod.snd
    rw [List.map_map] at hperm
    rw [hframes]
    refine List.perm_replicate.mp (hperm.trans ?_)
    rw [show Prod.snd ∘ (fun i => (start + i * gap, cell)) = fun _ : ℕ => cell from rfl,
      List.map_const', List.length_range]
  rw [flowTotals, hfold, hbytes]
  exact binSum_replicate hF hsmall

/-- The totals are not spread. -/
theorem totalVolumeAttack_not_leaks (hF : F.Lawful) (hA : A.Lawful)
    (hsmall : (distinctConnIds records events).length * (frames * cell) ≤ 2 ^ 53)
    (config : AttackConfig) :
    ∃ result, totalVolumeAttack F A records events config (distinctConnIds records events)
      = some result ∧ result.any (·.leaks) = false := by
  unfold totalVolumeAttack
  split
  · exact ⟨none, rfl, rfl⟩
  · next h3 =>
    dsimp only
    generalize htotals : (((distinctConnIds records events).map fun id =>
      (id, flowTotals F records events id)).filter fun t => 0 < t.2.2) = totals
    split
    · exact ⟨none, rfl, rfl⟩
    · next hlen3 =>
      have hlen : totals.length ≤ (distinctConnIds records events).length := by
        rw [← htotals]
        refine (List.length_filter_le _ _).trans ?_
        rw [List.length_map]
      have hflow : frames * cell ≤ 2 ^ 53 :=
        (Nat.le_mul_of_pos_left _ (by omega)).trans hsmall
      have hwire :
          totals.map (·.2.1) = List.replicate totals.length ((frames * cell : ℕ) : Rat) := by
        rw [List.eq_replicate_iff, List.length_map]
        refine ⟨rfl, fun x hx => ?_⟩
        obtain ⟨t, ht, rfl⟩ := List.mem_map.mp hx
        rw [← htotals] at ht
        obtain ⟨id, hid, rfl⟩ := List.mem_map.mp (List.mem_of_mem_filter ht)
        exact hrate.flowTotals_eq hF hflow hid
      obtain ⟨rho, hrho⟩ :=
        exists_spearman F (pearson A) (totals.map (·.2.1)) (totals.map (·.2.2))
      have hcv := coefficientOfVariation_replicate hA (n := totals.length) (c := frames * cell)
        ((hlen.trans (Nat.le_mul_of_pos_right _ (Nat.mul_pos hrate.frames_pos hrate.cell_pos))).trans
          hsmall) ((Nat.mul_le_mul_right _ hlen).trans hsmall)
      rw [hrho, hwire, List.map_replicate, Rat.cast_natCast, hcv]
      refine ⟨_, rfl, ?_⟩
      have hpos : ¬ ((minDistinguishableCv : Rat) : K) ≤ 0 := by
        rw [← Rat.cast_zero, Rat.cast_le]
        norm_num [minDistinguishableCv]
      simp only [Option.any_some, decide_eq_false hpos, Bool.false_and]

/-- All flows look alike, so no guess beats chance. -/
theorem linkingAttack_not_beats (hF : F.Lawful) (hA : A.Lawful)
    (hsmall : ∀ id ∈ distinctConnIds records events, frames * cell ≤ 2 ^ 53)
    (config : AttackConfig)
    (hwhole : 0 < binNs F config.binMs → Whole gap frames (binNs F config.binMs)) :
    ∃ result, linkingAttack F A records events config (distinctConnIds records events)
      = some result ∧ result.any (·.beatsChance) = false := by
  unfold linkingAttack
  split
  · exact ⟨none, rfl, rfl⟩
  · next h2 =>
    split
    · exact ⟨none, rfl, rfl⟩
    · next hns =>
      have hpos := Nat.pos_of_ne_zero hns
      obtain ⟨id, hid⟩ : ∃ id, id ∈ distinctConnIds records events :=
        List.exists_mem_of_length_pos (by omega)
      have hflow := hsmall id hid
      obtain ⟨k, q, hk, hq, hbins, hframes⟩ := hrate.exists_bins hpos (hwhole hpos)
      have hframesLe : frames ≤ 2 ^ 53 :=
        (Nat.le_mul_of_pos_right frames hrate.cell_pos).trans hflow
      have hqle : q ≤ frames := hframes ▸ Nat.le_mul_of_pos_right q hk
      obtain ⟨hbin, hlast⟩ := hrate.binIndex_eq hk hq hframes hframesLe
      rw [← hbins] at hbin hlast
      have hrelevant : ∀ r, r ∈ (records.filter fun r => r.event = events.wire ∨
          r.event = events.real) ↔ r ∈ records ∧ (r.event = events.wire ∨ r.event = events.real) :=
        fun r => by simp only [List.mem_filter, decide_eq_true_eq]
      obtain ⟨hmin, tEnd, hmax, hlo, hhi⟩ := hrate.min_max hid
        (fun r hr => (hrelevant r).mp hr) (fun r hr hwire _ => (hrelevant r).mpr ⟨hr, .inl hwire⟩)
      have hstart : start ≤ tEnd := (List.min?_eq_some_iff.mp hmin).2 _ (List.max?_mem hmax)
      have hn : binIndex start (binNs F config.binMs) tEnd + 1 = q := (hlast tEnd hstart hhi).2 hlo
      have hgrid : binIndex start (binNs F config.binMs) tEnd + 1 < 2 ^ 60 := by omega
      obtain ⟨s, hs⟩ :=
        exists_linkingSeries F events records (distinctConnIds records events) hgrid
      simp only [hmin, hmax, hs]
      refine ⟨_, rfl, ?_⟩
      have hsum : k * cell ≤ 2 ^ 53 :=
        (Nat.mul_le_mul_right cell (hframes ▸ Nat.le_mul_of_pos_left k hq)).trans hflow
      have hwire : ∀ id ∈ distinctConnIds records events,
          s.wire id = some (List.replicate q ((k * cell : ℕ) : Rat)) := by
        intro id hid
        have hgridded : gridded (isWireOf events start id) start (binNs F config.binMs) q records
            = (wireFrames records events id).map fun t =>
              (min (binIndex start (binNs F config.binMs) t.1) (q - 1), t.2) := by
          rw [gridded, wireFrames, List.map_map]
          refine congrArg _ (List.filter_congr fun r hr => ?_)
          rw [isWireOf, decide_eq_decide]
          exact and_iff_right_of_imp fun h => (hrate.time_mem hr (.inl h.1)).1
        rw [(linkingSeries_eq hs hid).1, hn, hgridded]
        let idx := fun t => min (binIndex start (binNs F config.binMs) t) (q - 1)
        have hidx : ∀ i < q * k, idx (start + i * gap) = i / k := by
          intro i hi
          have hlt : i / k < q := Nat.div_lt_of_lt_mul (by rwa [Nat.mul_comm k])
          dsimp only [idx]
          rw [hbin i hi]
          omega
        have hseries := series_even hF hk hsum hidx (hframes ▸ hrate.wire id hid)
        exact congrArg some hseries
      refine scoreLinks_const hA (g := guessFlow (pearson A) s config
        (distinctConnIds records events) id) ?_ (nodup_distinctConnIds records events)
          fun id' hid' => ?_
      · exact guessFlow_mem _ _ _ (List.ne_nil_of_mem hid) _
      · rw [guessFlow, guessFlow, hwire id hid, hwire id' hid']

end ConstantRate

/-- **A perfect cover is never broken.**  For every log in which all flows send frames of one
    size at one rate over the same time, with whatever real traffic behind them but none
    before the first frame or a gap after the last, and for every configuration whose
    thresholds are not negative and whose bins are whole: the adversary finishes, and
    none of its attacks wins.  So it is in the arithmetic of f64, for up to 2^53 bytes. -/
theorem runAdversary_constant_rate {K : Type} [Field K] [LinearOrder K] [IsStrictOrderedRing K]
    {A : Arith K} (hF : F.Lawful) (hA : A.Lawful) {start gap frames cell : Nat}
    (hrate : ConstantRate records events start gap frames cell)
    (hsmall : (distinctConnIds records events).length * (frames * cell) ≤ 2 ^ 53)
    {config : AdversaryConfig} (hvolume : exceeds config.volumeCorrThreshold (0 : K) = false)
    (hsize : exceeds config.sizeKsThreshold (0 : ℚ) = false)
    (hwhole : ∀ scale ∈ config.binMs :: coarseScales F config.binMs, 0 < binNs F scale →
      Whole gap frames (binNs F scale)) :
    ∃ report, runAdversary F A records events config = some report ∧
      report.adversaryWon = false := by
  have hflow : ∀ id ∈ distinctConnIds records events, frames * cell ≤ 2 ^ 53 := fun id hid =>
    (Nat.le_mul_of_pos_left _ (List.length_pos_of_mem hid)).trans hsmall
  obtain ⟨hbase, hcoarse⟩ := List.forall_mem_cons.mp hwhole
  obtain ⟨coarse, hmap, -, hquiet⟩ := Slices.exists_mapM (f := fun scale =>
    (volumeAttack F (pearson A) records events (coarseConfig config.toAttackConfig scale)
      (distinctConnIds records events)).map fun a => a.map fun a => (scale, a))
    (P := fun a => a.any (·.2.leaks) = false) fun scale hscale => by
      obtain ⟨worst, hworst, hleaks⟩ := hrate.volumeAttack_not_leaks hF hA hflow
        (coarseConfig config.toAttackConfig scale) hvolume (hcoarse scale hscale)
      refine ⟨worst.map fun a => (scale, a), by rw [hworst]; rfl, ?_⟩
      rwa [Option.any_map]
  obtain ⟨size, hsizeRuns, hsizeQuiet⟩ := sizeAttack_of_one_size F hrate.bytes_eq hsize
  obtain ⟨volume, hvolumeRuns, hvolumeQuiet⟩ :=
    hrate.volumeAttack_not_leaks hF hA hflow config.toAttackConfig hvolume hbase
  obtain ⟨total, htotalRuns, htotalQuiet⟩ :=
    hrate.totalVolumeAttack_not_leaks hF hA hsmall config.toAttackConfig
  obtain ⟨link, hlinkRuns, hlinkQuiet⟩ :=
    hrate.linkingAttack_not_beats hF hA hflow config.toAttackConfig hbase
  rw [runAdversary]
  simp only [hmap, hsizeRuns, hvolumeRuns, htotalRuns, hlinkRuns, Option.bind_eq_bind,
    Option.bind_some, Option.pure_def]
  refine ⟨_, rfl, ?_⟩
  have hcoarseQuiet : coarse.reduceOption.any (·.2.leaks) = false := by
    rw [List.any_eq_false]
    intro a ha
    have hmem := hquiet (some a) (List.reduceOption_mem_iff.mp ha)
    simpa using hmem
  simp only [AdversaryReport.adversaryWon, hsizeQuiet, hvolumeQuiet, hcoarseQuiet, htotalQuiet,
    hlinkQuiet, Bool.or_self]

/-- A frame on the wire, or real bytes. -/
def coverRecord (event : LabEvent) (nanos conn bytes : Nat) : LogRecord :=
  ⟨nanos, LabRole.name .server, event.name, conn, 0, bytes, LabKind.name .real⟩

/-- Three flows that send a frame every 2.5 s, with one request each behind them. -/
def coverLog : List LogRecord :=
  ((List.range 6).flatMap fun i => [1, 2, 3].map fun conn =>
    coverRecord .serverWireInput (7 + i * 2500000000) conn 514) ++
  [1, 2, 3].map fun conn => coverRecord .serverRealOutput (7 + conn * 2500000000) conn (100 * conn)

theorem coverLog_constantRate : ConstantRate coverLog .server 7 2500000000 6 514 where
  gap_pos := by norm_num
  frames_pos := by norm_num
  cell_pos := by norm_num
  wire := by decide +kernel
  real := by decide +kernel

/-- The configuration with bins of 5 s, for which no scale is coarser. -/
def coverConfig : AdversaryConfig :=
  { AdversaryConfig.default .steep with binMs := .finite 5000 }

/-- All three flows are taken for the first. -/
theorem runAdversary_constant_rate_three_flows :
    (runAdversary .steep (.ofF64 .steep id) coverLog .server coverConfig).map (fun r =>
        (r.connIds, r.volumeAttack.map (·.bins), r.totalVolumeAttack.map (·.flows),
          r.linkingAttack.map fun a => a.matched.map (·.2.1)))
      = some ([1, 2, 3], some 3, some 3, some [1, 1, 1]) ∧
    ∃ report, runAdversary .steep (.ofF64 .steep id) coverLog .server coverConfig = some report ∧
      report.adversaryWon = false :=
  ⟨by decide +kernel, runAdversary_constant_rate F64.steep_lawful
    (Arith.lawful_ofF64 F64.steep_nearest rfl) coverLog_constantRate (by decide +kernel)
    (by decide +kernel) (by decide +kernel) (by decide +kernel)⟩

end MixTor
