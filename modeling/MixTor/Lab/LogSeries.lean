/-
  MixTor.Lab.LogSeries

  What the series of the lab's adversary hold (correlation_attack.rs): each bin is the
  sum of the bytes of its own records, in the order of the log, whether the flows are
  counted one by one or all in one pass.
-/

import MixTor.Lab.Adversary

namespace MixTor

open Histogram (fill put weights)

variable {F : F64} {events : EventNames}

/-- `series[idx] += bytes as f64` for all bytes of one bin. -/
def binSum (F : F64) (bytes : List Nat) : Rat :=
  bytes.foldl (fun x b => F.add x (F.round (b : ℕ))) 0

/-- A series of `n` bins with the weights `ws`. -/
def series (F : F64) (n : Nat) (ws : List (Nat × Nat)) : List Rat :=
  (List.range n).map fun j => binSum F (weights j ws)

/-- The bytes of the records that satisfy `p`, with their bins. -/
def binned (p : LogRecord → Bool) (t0 ns : Nat) (rs : List LogRecord) : List (Nat × Nat) :=
  (rs.filter p).map fun r => (binIndex t0 ns r.unixNanos, r.bytes)

theorem length_series (n : Nat) (ws : List (Nat × Nat)) : (series F n ws).length = n := by
  rw [series, List.length_map, List.length_range]

theorem getD_series {n j : Nat} (h : j < n) (ws : List (Nat × Nat)) :
    (series F n ws).getD j 0 = binSum F (weights j ws) := by
  rw [series, List.getD_eq_getElem?_getD, List.getElem?_map, List.getElem?_range h]
  rfl

theorem addAt_eq_put (F : F64) (s : List Rat) (idx bytes : Nat) :
    addAt F s idx bytes = put (fun x b => F.add x (F.round (b : ℕ))) s (idx, bytes) := by
  rw [addAt, put]
  split
  · next h => rw [h]; rfl
  · next x h => rw [h]; rfl

theorem binned_cons (p : LogRecord → Bool) (t0 ns : Nat) (r : LogRecord) (rs : List LogRecord) :
    binned p t0 ns (r :: rs) = if p r then (binIndex t0 ns r.unixNanos, r.bytes) :: binned p t0 ns rs
      else binned p t0 ns rs := by
  rw [binned, List.filter_cons]
  split <;> rfl

-- ============================================================================
-- One flow by itself
-- ============================================================================

/-- The wire records and the others are counted apart from each other; by induction on
    the records. -/
theorem foldlM_addRecord_eq {t0 ns : Nat} {rs : List LogRecord} {s s' : List Rat × List Rat}
    (h : rs.foldlM (addRecord F events t0 ns) s = some s') :
    fill (fun x b => F.add x (F.round (b : ℕ))) s.1
        (binned (fun r => r.event = events.wire) t0 ns rs) = some s'.1 ∧
      fill (fun x b => F.add x (F.round (b : ℕ))) s.2
        (binned (fun r => r.event ≠ events.wire) t0 ns rs) = some s'.2 := by
  induction rs generalizing s with
  | nil =>
      obtain rfl := Option.some.inj h
      exact ⟨rfl, rfl⟩
  | cons r rs ih =>
      rw [List.foldlM_cons] at h
      obtain ⟨mid, hmid, hrest⟩ := Option.bind_eq_some_iff.mp h
      obtain ⟨hwire, hreal⟩ := ih hrest
      rw [binned_cons, binned_cons]
      by_cases hw : r.event = events.wire
      · rw [addRecord, if_pos hw, addAt_eq_put] at hmid
        obtain ⟨wire, hput, rfl⟩ := Option.map_eq_some_iff.mp hmid
        rw [if_pos (by simpa using hw), if_neg (by simpa using hw), fill, List.foldlM_cons, hput]
        exact ⟨hwire, hreal⟩
      · rw [addRecord, if_neg hw, addAt_eq_put] at hmid
        obtain ⟨real, hput, rfl⟩ := Option.map_eq_some_iff.mp hmid
        rw [if_neg (by simpa using hw), if_pos (by simpa using hw)]
        refine ⟨hwire, ?_⟩
        rw [fill, List.foldlM_cons, hput]
        exact hreal

/-- What `fill` makes of empty bins. -/
theorem fill_empty {n : Nat} {ws : List (Nat × Nat)} {s : List Rat}
    (h : fill (fun x b => F.add x (F.round (b : ℕ))) (List.replicate n 0) ws = some s) :
    s = series F n ws := by
  by_cases hin : ∀ w ∈ ws, w.1 < n
  · rw [Histogram.fill_replicate hin] at h
    exact (Option.some.inj h).symm
  · rw [Histogram.fill_eq, List.length_replicate, if_neg hin] at h
    cases h

/-- The series of a flow are those of its wire records and of its other records. -/
theorem alignedSeries_eq {records : List LogRecord} {binMs : Double} {id : Nat}
    {wire real : List Rat}
    (h : alignedSeries F records events binMs (some id) = some (some (wire, real))) :
    ∃ t0 tEnd, ((relevantRecords records events (some id)).map LogRecord.unixNanos).min? = some t0 ∧
      ((relevantRecords records events (some id)).map LogRecord.unixNanos).max? = some tEnd ∧
      wire = series F (binIndex t0 (binNs F binMs) tEnd + 1)
        (binned (fun r => r.event = events.wire) t0 (binNs F binMs)
          (relevantRecords records events (some id))) ∧
      real = series F (binIndex t0 (binNs F binMs) tEnd + 1)
        (binned (fun r => r.event ≠ events.wire) t0 (binNs F binMs)
          (relevantRecords records events (some id))) := by
  unfold alignedSeries at h
  split at h
  · cases h
  · dsimp only at h
    split at h
    · next t0 tEnd h0 hEnd =>
      obtain ⟨pair, hcount, hpair⟩ := Option.map_eq_some_iff.mp h
      obtain rfl := Option.some.inj hpair
      refine ⟨t0, tEnd, h0, hEnd, ?_⟩
      unfold countBins at hcount
      dsimp only at hcount
      split at hcount
      · cases hcount
      · obtain ⟨hwire, hreal⟩ := foldlM_addRecord_eq hcount
        exact ⟨fill_empty hwire, fill_empty hreal⟩
    · cases h

-- ============================================================================
-- All flows in one pass
-- ============================================================================

/-- Counting for one flow leaves the others alone. -/
theorem addToFlow_of_ne {flows flows' : Nat → Option (List Rat)} {id id' idx bytes : Nat}
    (h : addToFlow F flows id idx bytes = some flows') (hne : id' ≠ id) :
    flows' id' = flows id' := by
  unfold addToFlow at h
  split at h
  · obtain rfl := Option.some.inj h
    rfl
  · obtain ⟨v, -, rfl⟩ := Option.map_eq_some_iff.mp h
    exact Function.update_of_ne hne _ _

theorem addToFlow_self {flows flows' : Nat → Option (List Rat)} {id idx bytes : Nat}
    {v : List Rat} (h : addToFlow F flows id idx bytes = some flows') (hv : flows id = some v) :
    ∃ v', put (fun x b => F.add x (F.round (b : ℕ))) v (idx, bytes) = some v' ∧
      flows' id = some v' := by
  rw [addToFlow, hv] at h
  obtain ⟨v', hv', rfl⟩ := Option.map_eq_some_iff.mp h
  rw [addAt_eq_put] at hv'
  exact ⟨v', hv', Function.update_self _ _ _⟩

/-- The bytes of the records that satisfy `p`, with their bins on the shared grid. -/
def gridded (p : LogRecord → Bool) (t0 ns nBins : Nat) (rs : List LogRecord) : List (Nat × Nat) :=
  (rs.filter p).map fun r => (min (binIndex t0 ns r.unixNanos) (nBins - 1), r.bytes)

theorem gridded_cons (p : LogRecord → Bool) (t0 ns n : Nat) (r : LogRecord)
    (rs : List LogRecord) : gridded p t0 ns n (r :: rs) = if p r then
      (min (binIndex t0 ns r.unixNanos) (n - 1), r.bytes) :: gridded p t0 ns n rs
      else gridded p t0 ns n rs := by
  rw [gridded, List.filter_cons]
  split <;> rfl

/-- A wire record of the flow `id` from `t0` on. -/
def isWireOf (events : EventNames) (t0 id : Nat) (r : LogRecord) : Bool :=
  decide (t0 ≤ r.unixNanos ∧ r.event = events.wire ∧ r.connId = id)

/-- A real record of the flow `id` from `t0` on. -/
def isRealOf (events : EventNames) (t0 id : Nat) (r : LogRecord) : Bool :=
  decide (t0 ≤ r.unixNanos ∧ r.event ≠ events.wire ∧ r.event = events.real ∧ r.connId = id)

/-- One record, seen by one flow. -/
theorem linkRecord_spec {t0 ns n id : Nat} {r : LogRecord} {s s' : FlowSeries}
    {wire real : List Rat} (h : linkRecord F events t0 ns n s r = some s')
    (hwire : s.wire id = some wire) (hreal : s.real id = some real) :
    ∃ wire' real', s'.wire id = some wire' ∧ s'.real id = some real' ∧
      fill (fun x b => F.add x (F.round (b : ℕ))) wire
        (gridded (isWireOf events t0 id) t0 ns n [r]) = some wire' ∧
      fill (fun x b => F.add x (F.round (b : ℕ))) real
        (gridded (isRealOf events t0 id) t0 ns n [r]) = some real' := by
  have hnone : ∀ v : List Rat, fill (fun x b => F.add x (F.round (b : ℕ))) v
      ([] : List (Nat × Nat)) = some v := fun _ => rfl
  rw [gridded_cons, gridded_cons]
  unfold linkRecord at h
  split at h
  · next hearly =>
    obtain rfl := Option.some.inj h
    rw [if_neg (by simp [isWireOf, hearly]), if_neg (by simp [isRealOf, hearly])]
    exact ⟨wire, real, hwire, hreal, hnone _, hnone _⟩
  · next hlate =>
    dsimp only at h
    split at h
    · next hw =>
      obtain ⟨flows, hadd, rfl⟩ := Option.map_eq_some_iff.mp h
      rw [if_neg (show ¬ isRealOf events t0 id r = true by simp [isRealOf, hw])]
      by_cases hid : r.connId = id
      · rw [hid] at hadd
        obtain ⟨wire', hput, hself⟩ := addToFlow_self hadd hwire
        have hmine : isWireOf events t0 id r = true := decide_eq_true ⟨not_lt.mp hlate, hw, hid⟩
        rw [if_pos hmine]
        refine ⟨wire', real, hself, hreal, ?_, hnone _⟩
        rw [fill, List.foldlM_cons, hput]
        rfl
      · rw [if_neg (by simp [isWireOf, hid])]
        exact ⟨wire, real, (addToFlow_of_ne hadd (Ne.symm hid)).trans hwire, hreal, hnone _, hnone _⟩
    · next hw =>
      rw [if_neg (show ¬ isWireOf events t0 id r = true by simp [isWireOf, hw])]
      split at h
      · next hr =>
        obtain ⟨flows, hadd, rfl⟩ := Option.map_eq_some_iff.mp h
        by_cases hid : r.connId = id
        · rw [hid] at hadd
          obtain ⟨real', hput, hself⟩ := addToFlow_self hadd hreal
          have hmine : isRealOf events t0 id r = true :=
            decide_eq_true ⟨not_lt.mp hlate, hw, hr, hid⟩
          rw [if_pos hmine]
          refine ⟨wire, real', hwire, hself, hnone _, ?_⟩
          rw [fill, List.foldlM_cons, hput]
          rfl
        · rw [if_neg (by simp [isRealOf, hid])]
          exact ⟨wire, real, hwire, (addToFlow_of_ne hadd (Ne.symm hid)).trans hreal, hnone _,
            hnone _⟩
      · next hr =>
        obtain rfl := Option.some.inj h
        rw [if_neg (by simp [isRealOf, hr])]
        exact ⟨wire, real, hwire, hreal, hnone _, hnone _⟩

theorem fill_append {f : Rat → Nat → Rat} {v v' : List Rat} {ws ws' : List (Nat × Nat)}
    (h : fill f v ws = some v') : fill f v (ws ++ ws') = fill f v' ws' := by
  rw [fill, List.foldlM_append, ← fill, h]
  rfl

/-- All records, seen by one flow. -/
theorem foldlM_linkRecord {t0 ns n id : Nat} {rs : List LogRecord} {s s' : FlowSeries}
    {wire real : List Rat} (h : rs.foldlM (linkRecord F events t0 ns n) s = some s')
    (hwire : s.wire id = some wire) (hreal : s.real id = some real) :
    ∃ wire' real', s'.wire id = some wire' ∧ s'.real id = some real' ∧
      fill (fun x b => F.add x (F.round (b : ℕ))) wire
        (gridded (isWireOf events t0 id) t0 ns n rs) = some wire' ∧
      fill (fun x b => F.add x (F.round (b : ℕ))) real
        (gridded (isRealOf events t0 id) t0 ns n rs) = some real' := by
  induction rs generalizing s wire real with
  | nil =>
      obtain rfl := Option.some.inj h
      exact ⟨wire, real, hwire, hreal, rfl, rfl⟩
  | cons r rs ih =>
      rw [List.foldlM_cons] at h
      obtain ⟨mid, hmid, hrest⟩ := Option.bind_eq_some_iff.mp h
      obtain ⟨wire₁, real₁, hwire₁, hreal₁, hfw, hfr⟩ := linkRecord_spec hmid hwire hreal
      obtain ⟨wire', real', hwire', hreal', hfw', hfr'⟩ := ih hrest hwire₁ hreal₁
      have hsplit : ∀ p, gridded p t0 ns n (r :: rs)
          = gridded p t0 ns n [r] ++ gridded p t0 ns n rs := fun p => by
        rw [gridded_cons, gridded_cons]
        split <;> rfl
      refine ⟨wire', real', hwire', hreal', ?_, ?_⟩
      · rw [hsplit, fill_append hfw, hfw']
      · rw [hsplit, fill_append hfr, hfr']

/-- **The series of a flow on the shared grid.**  They are those of its own records, as if
    the other flows were not there. -/
theorem linkingSeries_eq {records : List LogRecord} {ns t0 tEnd id : Nat} {connIds : List Nat}
    {s : FlowSeries} (h : linkingSeries F records events ns t0 tEnd connIds = some s)
    (hid : id ∈ connIds) :
    s.wire id = some (series F (binIndex t0 ns tEnd + 1)
        (gridded (isWireOf events t0 id) t0 ns (binIndex t0 ns tEnd + 1) records)) ∧
      s.real id = some (series F (binIndex t0 ns tEnd + 1)
        (gridded (isRealOf events t0 id) t0 ns (binIndex t0 ns tEnd + 1) records)) := by
  unfold linkingSeries at h
  dsimp only at h
  split at h
  · cases h
  · obtain ⟨wire, real, hwire, hreal, hfw, hfr⟩ := foldlM_linkRecord h
      (if_pos hid : (if id ∈ connIds then some (List.replicate _ (0 : Rat)) else none) = _)
      (if_pos hid)
    rw [hwire, hreal, fill_empty hfw, fill_empty hfr]
    exact ⟨rfl, rfl⟩

/-- The series of all flows have `n` bins. -/
def FlowSeries.HasBins (n : Nat) (s : FlowSeries) : Prop :=
  (∀ id v, s.wire id = some v → v.length = n) ∧ ∀ id v, s.real id = some v → v.length = n

theorem exists_addToFlow {flows : Nat → Option (List Rat)} {n idx : Nat}
    (h : ∀ id v, flows id = some v → v.length = n) (hidx : idx < n) (id bytes : Nat) :
    ∃ flows', addToFlow F flows id idx bytes = some flows' ∧
      ∀ id v, flows' id = some v → v.length = n := by
  rw [addToFlow]
  split
  · exact ⟨flows, rfl, h⟩
  · next v hv =>
    have hin : idx < v.length := by rwa [h id v hv]
    obtain ⟨v', hv'⟩ := exists_addAt (F := F) hin bytes
    refine ⟨Function.update flows id (some v'), by rw [hv']; rfl, fun id' w hw => ?_⟩
    rcases eq_or_ne id' id with rfl | hne
    · rw [Function.update_self] at hw
      obtain rfl := Option.some.inj hw
      exact (addAt_eq_some hv').2.trans (h _ v hv)
    · rw [Function.update_of_ne hne] at hw
      exact h id' w hw

variable (F events) in
/-- The pass goes through for every log whose grid can be stored. -/
theorem exists_linkingSeries (records : List LogRecord) {ns t0 tEnd : Nat} (connIds : List Nat)
    (h : binIndex t0 ns tEnd + 1 < 2 ^ 60) :
    ∃ s, linkingSeries F records events ns t0 tEnd connIds = some s := by
  have hrun : ∀ (rs : List LogRecord) (s : FlowSeries), s.HasBins (binIndex t0 ns tEnd + 1) →
      ∃ s', rs.foldlM (linkRecord F events t0 ns (binIndex t0 ns tEnd + 1)) s = some s' := by
    intro rs
    induction rs with
    | nil => exact fun s _ => ⟨s, rfl⟩
    | cons r rs ih =>
        intro s hs
        have hidx : min (binIndex t0 ns r.unixNanos) (binIndex t0 ns tEnd + 1 - 1)
            < binIndex t0 ns tEnd + 1 := by omega
        obtain ⟨s₁, hstep, hs₁⟩ : ∃ s₁,
            linkRecord F events t0 ns (binIndex t0 ns tEnd + 1) s r = some s₁ ∧
              s₁.HasBins (binIndex t0 ns tEnd + 1) := by
          rw [linkRecord]
          dsimp only
          split
          · exact ⟨s, rfl, hs⟩
          · split
            · obtain ⟨wire, hadd, hlen⟩ := exists_addToFlow (F := F) hs.1 hidx r.connId r.bytes
              exact ⟨{ s with wire }, by rw [hadd]; rfl, hlen, hs.2⟩
            · split
              · obtain ⟨real, hadd, hlen⟩ := exists_addToFlow (F := F) hs.2 hidx r.connId r.bytes
                exact ⟨{ s with real }, by rw [hadd]; rfl, hs.1, hlen⟩
              · exact ⟨s, rfl, hs⟩
        obtain ⟨s', hs'⟩ := ih s₁ hs₁
        exact ⟨s', by rw [List.foldlM_cons, hstep]; exact hs'⟩
  rw [linkingSeries]
  dsimp only
  rw [if_neg (not_le.mpr h)]
  refine hrun records _ ⟨fun id v hv => ?_, fun id v hv => ?_⟩
  all_goals
    dsimp only at hv
    split at hv
    · obtain rfl := Option.some.inj hv
      exact List.length_replicate
    · cases hv

end MixTor
