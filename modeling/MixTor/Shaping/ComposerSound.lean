/-
  MixTor.Shaping.ComposerSound

  When the composer panics and when it does not.

  A sound composer never panics on its own account: its delays have an ordered range
  and its padder pads within a vector.  What can panic is the draw of the number of
  dummies (from an empty range, or with an epsilon that is NaN), and a vector that
  the configuration makes too large.
-/

import MixTor.Shaping.Composer

namespace MixTor

open Crypto (Bytes Blake3)

variable {ρ : Type} [Rng ρ] {F : F64}

/-- `isize::MAX`, the largest size of a vector in bytes. -/
def isizeMax : Nat := 2 ^ 63 - 1

theorem allocate_of_le {n size : Nat} (h : n * size ≤ isizeMax) : allocate n size = some () := by
  rw [allocate, if_pos]
  rw [isizeMax] at h
  omega

theorem allocateCell_of_le {cell len : Nat} (h : len < cell → cell ≤ isizeMax) :
    allocateCell cell len = some () := by
  unfold allocateCell
  split
  · next hlt =>
    apply allocate_of_le
    have := h hlt
    omega
  · rfl

/-- A cell fits into a vector. -/
def BurstConfig.CellFits (config : BurstConfig) : Prop :=
  ∀ cell, config.cellBytes = some cell → cell ≤ isizeMax

/-- A burst of at most this many packets fits into a vector of frames with any number of
    dummies. -/
def BurstConfig.FramesFit (config : BurstConfig) (packets : Nat) : Prop :=
  (packets + config.maxDummyPacketsPerBurst) * frameSize ≤ isizeMax

theorem exists_drawSwitchAfter {config : BurstConfig} (hv : config.Valid) (rng : ρ) :
    ∃ t rng', drawSwitchAfter config rng = some (t, rng') := by
  obtain ⟨bursts, rng₁, hbursts⟩ := exists_genRange hv.switchBursts_le rng
  obtain ⟨bytes, rng₂, hbytes⟩ := exists_genRange hv.switchRealBytes_le rng₁
  obtain ⟨packets, rng₃, hpackets⟩ := exists_genRange hv.switchRealPackets_le rng₂
  refine ⟨⟨bursts, bytes, packets⟩, rng₃, ?_⟩
  simp only [drawSwitchAfter, hbursts, hbytes, hpackets, Option.bind_eq_bind, Option.bind_some]
  rfl

theorem exists_drawKind (rng : ρ) : ∃ kind rng', drawKind rng = some (kind, rng') := by
  obtain ⟨n, rng', hn⟩ := exists_genRange (show 0 ≤ 19 by decide) rng
  exact ⟨_, rng', by rw [drawKind, hn]; rfl⟩

/-- A valid configuration always finds a next regime; the top of its range is cut. -/
theorem exists_nextRegime {config : BurstConfig} (hv : config.Valid) (rng : ρ) :
    ∃ r rng', nextRegime config rng = some (r, rng') := by
  obtain ⟨kind, rng₁, hkind⟩ := exists_drawKind rng
  obtain ⟨t, rng₂, ht⟩ := exists_drawSwitchAfter hv rng₁
  rw [nextRegime, hkind]
  show ∃ _ _, (drawSwitchAfter config rng₁).bind _ = _
  rw [ht]
  exact ⟨_, rng₂, rfl⟩

/-- The ranges are ordered, and none starts above twelve. -/
theorem RatioDistributionKind.dummyCountRange_le (kind : RatioDistributionKind) :
    kind.dummyCountRange.1 ≤ kind.dummyCountRange.2 ∧ kind.dummyCountRange.1 ≤ 12 := by
  cases kind <;> decide

/-- Twelve dummies are enough for every regime to have a range. -/
theorem nextRegime_range {config : BurstConfig} (hmax : 12 ≤ config.maxDummyPacketsPerBurst)
    {rng rng' : ρ} {r : RatioRegime} (h : nextRegime config rng = some (r, rng')) :
    r.dummyLo ≤ r.dummyHi := by
  rw [nextRegime, Option.bind_eq_bind, Option.bind_eq_some_iff] at h
  obtain ⟨⟨kind, rng₁⟩, -, h⟩ := h
  obtain ⟨⟨switchAfter, rng₂⟩, -, h⟩ := Option.bind_eq_some_iff.mp h
  obtain ⟨rfl, -⟩ := Prod.mk.inj (Option.some.inj h)
  exact le_min kind.dummyCountRange_le.1 (kind.dummyCountRange_le.2.trans hmax)

namespace BurstComposer

/-- A composer that keeps to its configuration and does not panic on its own account. -/
structure Sound (config : BurstConfig) (c : BurstComposer ρ) : Prop where
  config_eq : c.config = config
  spectral : c.spectralIat.Ordered
  padder : c.optimalPadder.Bounded isizeMax
  dpShaper : c.dpShaper.map DpShaper.config = config.dpShaper

variable {config : BurstConfig} {c : BurstComposer ρ}

-- ============================================================================
-- Lengths
-- ============================================================================

omit [Rng ρ] in
/-- Ingesting packets touches the two length pools and nothing else. -/
theorem ingestPackets_eq (c : BurstComposer ρ) (packets : List Packet) :
    c.ingestPackets packets = { c with
      lengthPool := packets.foldl
        (fun pool p => ((pool.ingest p.len).ingest p.len).ingest p.len) c.lengthPool
      optimalPadder := packets.foldl (fun padder p => padder.observeLength p.len)
        c.optimalPadder } := by
  induction packets generalizing c with
  | nil => rfl
  | cons p packets ih => exact ih (c.ingestPacket p)

omit [Rng ρ] in
theorem Sound.ingestPackets (hs : c.Sound config) {packets : List Packet}
    (hlen : ∀ p ∈ packets, p.len ≤ isizeMax) : (c.ingestPackets packets).Sound config := by
  induction packets generalizing c with
  | nil => exact hs
  | cons p packets ih =>
      obtain ⟨hp, hlen⟩ := List.forall_mem_cons.mp hlen
      exact ih ⟨hs.config_eq, hs.spectral, hs.padder.observeLength hp, hs.dpShaper⟩ hlen

-- ============================================================================
-- The number of dummies
-- ============================================================================

/-- The regime has a number of dummies to draw. -/
def RangeDrawable (c : BurstComposer ρ) : Prop :=
  c.regime.dummyLo ≤ c.regime.dummyHi ∨
    c.regime.spiky = true ∧ (Rng.genBool (37 / 50) c.rng).1 = true

/-- The budget can be drawn: the regime has a range, and the epsilon to be charged is not
    NaN. -/
def BudgetDrawable (c : BurstComposer ρ) : Prop :=
  c.RangeDrawable ∧ ∀ dp, c.dpShaper = some dp → Double.le (.finite 0) dp.config.epsilon = true

/-- The draw of `dummyCountAbsolute`. -/
def drawCount (c : BurstComposer ρ) : Option (Nat × ρ) :=
  if c.regime.spiky then
    let (low, rng) := Rng.genBool (37 / 50) c.rng
    if low then genRange 0 1 rng else genRange c.regime.dummyLo c.regime.dummyHi rng
  else genRange c.regime.dummyLo c.regime.dummyHi c.rng

theorem drawCount_eq_none : c.drawCount = none ↔ ¬ c.RangeDrawable := by
  unfold drawCount RangeDrawable
  cases hspiky : c.regime.spiky with
  | false => simp [genRange_eq_none]
  | true =>
      cases hlow : (Rng.genBool (37 / 50) c.rng).1 with
      | false => simp [hlow, genRange_eq_none]
      | true => simp [hlow, genRange_eq_none]

theorem dummyCountAbsolute_eq (c : BurstComposer ρ) :
    c.dummyCountAbsolute = c.drawCount.map fun (raw, rng) =>
      (min raw c.config.maxDummyPacketsPerBurst, { c with rng }) := by
  unfold dummyCountAbsolute drawCount
  cases c.regime.spiky with
  | false => exact Option.map_eq_bind.symm
  | true =>
      show (if (Rng.genBool (37 / 50) c.rng).1 = true then _ else _)
        = Option.map _ (if (Rng.genBool (37 / 50) c.rng).1 = true then _ else _)
      split <;> exact Option.map_eq_bind.symm

/-- The draw panics exactly when the budget cannot be drawn. -/
theorem dummyCountForBurst_eq_none {realBytes : Nat} :
    c.dummyCountForBurst F realBytes = none ↔ ¬ c.BudgetDrawable := by
  rw [dummyCountForBurst, dummyCountAbsolute_eq, BudgetDrawable, not_and_or, ← drawCount_eq_none]
  cases hdraw : c.drawCount with
  | none => simp
  | some r =>
      obtain ⟨raw, rng⟩ := r
      cases hdp : c.dpShaper with
      | none => simp
      | some dp =>
          simp only [Option.map_some, Option.bind_eq_bind, Option.bind_some,
            Option.bind_eq_none_iff, reduceCtorEq, imp_false, ← Option.eq_none_iff_forall_ne_some,
            PrivacyAccountant.recordQuery_eq_none, false_or, Option.some.injEq, forall_eq']
          simp

theorem exists_dummyCountForBurst (h : c.BudgetDrawable) (realBytes : Nat) :
    ∃ count c', c.dummyCountForBurst F realBytes = some (count, c') := by
  cases hc : c.dummyCountForBurst F realBytes with
  | none => exact absurd h (dummyCountForBurst_eq_none.mp hc)
  | some r => exact ⟨r.1, r.2, rfl⟩

/-- The draw respects the maximum, and moves the generators and the accountant. -/
theorem dummyCountForBurst_eq_some {realBytes count : Nat} {c' : BurstComposer ρ}
    (h : c.dummyCountForBurst F realBytes = some (count, c')) :
    count ≤ c.config.maxDummyPacketsPerBurst ∧
      ∃ rng dpShaper accountant, c' = { c with rng, dpShaper, accountant } ∧
        dpShaper.map DpShaper.config = c.dpShaper.map DpShaper.config := by
  rw [dummyCountForBurst, dummyCountAbsolute_eq] at h
  obtain ⟨⟨regimeCount, c₁⟩, hdraw, h⟩ := Option.bind_eq_some_iff.mp h
  obtain ⟨⟨raw, rng⟩, -, hraw⟩ := Option.map_eq_some_iff.mp hdraw
  obtain ⟨rfl, rfl⟩ := Prod.mk.inj hraw
  cases hdp : c.dpShaper with
  | none =>
      simp only [hdp] at h
      obtain ⟨rfl, rfl⟩ := Prod.mk.inj (Option.some.inj h)
      exact ⟨Nat.min_le_right _ _, rng, none, c.accountant, by rw [← hdp], rfl⟩
  | some dp =>
      simp only [hdp] at h
      obtain ⟨⟨_, accountant⟩, -, h⟩ := Option.bind_eq_some_iff.mp h
      obtain ⟨rfl, rfl⟩ := Prod.mk.inj (Option.some.inj h)
      exact ⟨Nat.min_le_right _ _, rng, some _, accountant, rfl, rfl⟩

theorem Sound.dummyCountForBurst (hs : c.Sound config) {realBytes count : Nat}
    {c' : BurstComposer ρ} (h : c.dummyCountForBurst F realBytes = some (count, c')) :
    c'.Sound config := by
  obtain ⟨-, rng, dpShaper, accountant, rfl, hdp⟩ := dummyCountForBurst_eq_some h
  exact ⟨hs.config_eq, hs.spectral, hs.padder, hdp.trans hs.dpShaper⟩

-- ============================================================================
-- Payloads and padding
-- ============================================================================

/-- Only the generator and the padder's table have moved. -/
def Redrawn (c c' : BurstComposer ρ) : Prop :=
  ∃ rng optimalPadder, c' = { c with rng, optimalPadder }

omit [Rng ρ] in
theorem Redrawn.refl (c : BurstComposer ρ) : Redrawn c c := ⟨c.rng, c.optimalPadder, rfl⟩

omit [Rng ρ] in
theorem Redrawn.trans {c c' c'' : BurstComposer ρ} (h : Redrawn c c') (h' : Redrawn c' c'') :
    Redrawn c c'' := by
  obtain ⟨rng, padder, rfl⟩ := h
  obtain ⟨rng', padder', rfl⟩ := h'
  exact ⟨rng', padder', rfl⟩

omit [Rng ρ] in
theorem Redrawn.config_eq {c c' : BurstComposer ρ} (h : Redrawn c c') : c'.config = c.config := by
  obtain ⟨_, _, rfl⟩ := h
  rfl

theorem exists_trueLen (c : BurstComposer ρ) : ∃ len rng, c.trueLen = some (len, rng) := by
  unfold trueLen
  split
  · exact exists_genRange c.config_valid.keepaliveBytes_le c.rng
  · next hne =>
    have hpos : 0 < c.lengthPool.lens.length := List.length_pos_iff.mpr hne
    obtain ⟨idx, rng, hidx⟩ := exists_genRange (Nat.zero_le (c.lengthPool.lens.length - 1)) c.rng
    have hlt : idx < c.lengthPool.lens.length := by
      have := (genRange_mem hidx).2
      omega
    refine ⟨c.lengthPool.lens[idx], rng, ?_⟩
    rw [hidx]
    show (c.lengthPool.lens[idx]?).bind _ = _
    rw [List.getElem?_eq_getElem hlt]
    rfl

/-- A dummy of a sound composer fits into a vector. -/
theorem Sound.exists_dummyLen (hs : c.Sound config) (hcell : config.CellFits) :
    ∃ len c', c.dummyLen = some (len, c') ∧ len ≤ isizeMax ∧ c'.Sound config := by
  unfold dummyLen
  split
  · next cell hc => exact ⟨cell, c, rfl, hcell cell (hs.config_eq ▸ hc), hs⟩
  · obtain ⟨trueLen, rng, htrue⟩ := c.exists_trueLen
    obtain ⟨len, padder, hlen, hle, hb⟩ := hs.padder.exists_padLength trueLen
    refine ⟨len, { c with rng, optimalPadder := padder }, ?_, hle,
      ⟨hs.config_eq, hs.spectral, hb, hs.dpShaper⟩⟩
    rw [htrue]
    show (c.optimalPadder.padLength trueLen).bind _ = _
    rw [hlen]
    rfl

theorem dummyLen_eq_some {len : Nat} {c' : BurstComposer ρ} (h : c.dummyLen = some (len, c')) :
    Redrawn c c' ∧ ∀ cell, c.config.cellBytes = some cell → len = cell := by
  unfold dummyLen at h
  split at h
  · next cell hc =>
    obtain ⟨rfl, rfl⟩ := Prod.mk.inj (Option.some.inj h)
    exact ⟨.refl c, fun cell' hc' => Option.some.inj (hc.symm.trans hc')⟩
  · next hc =>
    obtain ⟨⟨trueLen, rng⟩, -, h⟩ := Option.bind_eq_some_iff.mp h
    obtain ⟨⟨len', padder⟩, -, h⟩ := Option.bind_eq_some_iff.mp h
    obtain ⟨rfl, rfl⟩ := Prod.mk.inj (Option.some.inj h)
    refine ⟨⟨rng, padder, rfl⟩, fun cell' hc' => ?_⟩
    rw [hc] at hc'
    cases hc'

theorem Sound.exists_dummyPayload (hs : c.Sound config) (hcell : config.CellFits) :
    ∃ bytes c', c.dummyPayload = some (bytes, c') ∧ c'.Sound config := by
  obtain ⟨len, c', hlen, hle, hs'⟩ := hs.exists_dummyLen hcell
  refine ⟨(RngCore.fillBytes len c'.rng).1.toList,
    { c' with rng := (RngCore.fillBytes len c'.rng).2 }, ?_,
    ⟨hs'.config_eq, hs'.spectral, hs'.padder, hs'.dpShaper⟩⟩
  rw [dummyPayload, hlen]
  show (allocate len 1).bind _ = _
  rw [allocate_of_le (by omega)]
  rfl

/-- A payload has the cell size, if there is one. -/
theorem dummyPayload_eq_some {bytes : Bytes} {c' : BurstComposer ρ}
    (h : c.dummyPayload = some (bytes, c')) :
    Redrawn c c' ∧ ∀ cell, c.config.cellBytes = some cell → bytes.length = cell := by
  obtain ⟨⟨len, c₁⟩, hlen, h⟩ := Option.bind_eq_some_iff.mp h
  obtain ⟨_, -, h⟩ := Option.bind_eq_some_iff.mp h
  obtain ⟨rfl, rfl⟩ := Prod.mk.inj (Option.some.inj h)
  obtain ⟨hc, hcell⟩ := dummyLen_eq_some hlen
  refine ⟨hc.trans ⟨_, c₁.optimalPadder, rfl⟩, fun cell h => ?_⟩
  rw [Vector.length_toList]
  exact hcell cell h

theorem Sound.exists_dummyFrames (hcell : config.CellFits) (n : Nat) (hs : c.Sound config) :
    ∃ frames c', dummyFrames n c = some (frames, c') ∧ c'.Sound config := by
  induction n generalizing c with
  | zero => exact ⟨[], c, rfl, hs⟩
  | succ n ih =>
      obtain ⟨bytes, c₁, hbytes, hs₁⟩ := hs.exists_dummyPayload hcell
      obtain ⟨frames, c₂, hframes, hs₂⟩ := ih hs₁
      refine ⟨.dummy bytes :: frames, c₂, ?_, hs₂⟩
      rw [dummyFrames, hbytes]
      show (dummyFrames n c₁).bind _ = _
      rw [hframes]
      rfl

/-- Padding to a cell that fits: the padded bytes are those of `padToCell`. -/
theorem padRealPacket_eq {cell : Nat} (hc : c.config.cellBytes = some cell) (packet : Packet)
    (hcell : packet.len < cell → cell ≤ isizeMax) :
    ∃ p, p.bytes = (padToCell cell c.rng packet.bytes).1 ∧
      c.padRealPacket packet
        = some (p, { c with rng := (padToCell cell c.rng packet.bytes).2 }) := by
  have hne : (padToCell cell c.rng packet.bytes).1 ≠ [] := by
    apply List.ne_nil_of_length_pos
    rw [padToCell_length]
    exact Nat.pos_of_ne_zero fun h => c.config_valid.cellBytes_ne (h ▸ hc)
  refine ⟨⟨_, hne⟩, rfl, ?_⟩
  unfold padRealPacket
  rw [hc]
  show (allocateCell cell packet.len).bind _ = _
  rw [allocateCell_of_le hcell, Option.bind_some]
  simp only [Packet.new_of_ne_nil hne]
  rfl

/-- Padding panics exactly when a short packet has to grow to a cell that no vector holds. -/
theorem padRealPacket_eq_none {packet : Packet} :
    c.padRealPacket packet = none ↔
      ∃ cell, c.config.cellBytes = some cell ∧ packet.len < cell ∧ isizeMax < cell := by
  cases hc : c.config.cellBytes with
  | none => simp [padRealPacket, hc]
  | some cell =>
      constructor
      · intro h
        by_contra hn
        obtain ⟨p, -, hp⟩ := padRealPacket_eq hc packet fun hlt =>
          not_lt.mp fun hgt => hn ⟨cell, rfl, hlt, hgt⟩
        rw [h] at hp
        cases hp
      · rintro ⟨cell', heq, hlt, hgt⟩
        obtain rfl := Option.some.inj heq
        unfold padRealPacket
        rw [hc]
        show (allocateCell cell packet.len).bind _ = none
        rw [allocateCell, if_pos hlt, allocate, if_neg]
        · rfl
        · rw [isizeMax] at hgt
          omega

theorem padRealPacket_eq_some {packet p : Packet} {c' : BurstComposer ρ}
    (h : c.padRealPacket packet = some (p, c')) : ∃ rng, c' = { c with rng } := by
  unfold padRealPacket at h
  split at h
  · obtain ⟨-, rfl⟩ := Prod.mk.inj (Option.some.inj h)
    exact ⟨c.rng, rfl⟩
  · next cell hc =>
    obtain ⟨_, -, h⟩ := Option.bind_eq_some_iff.mp h
    cases hnew : Packet.new (padToCell cell c.rng packet.bytes).1 with
    | error e =>
        simp only [hnew] at h
        cases h
    | ok q =>
        simp only [hnew] at h
        obtain ⟨-, rfl⟩ := Prod.mk.inj (Option.some.inj h)
        exact ⟨_, rfl⟩

theorem Sound.exists_padRealPacket (hs : c.Sound config) (hcell : config.CellFits)
    (packet : Packet) : ∃ p c', c.padRealPacket packet = some (p, c') ∧ c'.Sound config := by
  cases hp : c.padRealPacket packet with
  | none =>
      obtain ⟨cell, hc, -, hgt⟩ := padRealPacket_eq_none.mp hp
      have := hcell cell (hs.config_eq ▸ hc)
      omega
  | some r =>
      obtain ⟨rng, hr⟩ := padRealPacket_eq_some hp
      refine ⟨r.1, r.2, rfl, ?_⟩
      rw [hr]
      exact ⟨hs.config_eq, hs.spectral, hs.padder, hs.dpShaper⟩

-- ============================================================================
-- Interleaving
-- ============================================================================

theorem exists_scatter (left : Nat) (gaps : List Nat) (rng : ρ) :
    ∃ gaps' rng', scatter left gaps rng = some (gaps', rng') ∧ gaps'.length = gaps.length := by
  induction left generalizing gaps rng with
  | zero => exact ⟨gaps, rng, rfl, rfl⟩
  | succ left ih =>
      obtain ⟨gap, rng₁, hgap⟩ := exists_genRange (Nat.zero_le (gaps.length - 1)) rng
      obtain ⟨gaps', rng', hrest, hlen⟩ := ih (gaps.modify gap (· + 1)) rng₁
      refine ⟨gaps', rng', ?_, hlen.trans (List.length_modify _ _ _)⟩
      rw [scatter, hgap]
      exact hrest

theorem exists_placeDummies (packets dummies : Nat) (rng : ρ) :
    ∃ first rest rng', placeDummies packets dummies rng = some (first :: rest, rng') ∧
      rest.length = packets := by
  unfold placeDummies
  split
  · next h1 =>
    obtain ⟨leading, rng', hlead⟩ := exists_genRange (Nat.zero_le dummies) rng
    exact ⟨leading, [dummies - leading], rng', by rw [hlead]; rfl, h1.symm⟩
  · obtain ⟨gaps, rng', hgaps, hlen⟩ := exists_scatter dummies (List.replicate (packets + 1) 0) rng
    rw [List.length_replicate] at hlen
    obtain ⟨first, rest, rfl⟩ := List.exists_cons_of_length_eq_add_one hlen
    exact ⟨first, rest, rng', hgaps, Nat.succ.inj hlen⟩

theorem Sound.exists_gapFrames (hcell : config.CellFits) (packets : List Packet) (gaps : List Nat)
    (hlen : gaps.length = packets.length) (hs : c.Sound config) :
    ∃ frames c', gapFrames packets gaps c = some (frames, c') ∧ c'.Sound config := by
  induction packets generalizing gaps c with
  | nil => exact ⟨[], c, by unfold gapFrames; rfl, hs⟩
  | cons packet packets ih =>
      obtain ⟨gap, gaps, rfl⟩ := List.exists_cons_of_length_eq_add_one hlen
      obtain ⟨p, c₁, hp, hs₁⟩ := hs.exists_padRealPacket hcell packet
      obtain ⟨dummies, c₂, hdummies, hs₂⟩ := hs₁.exists_dummyFrames hcell gap
      obtain ⟨frames, c₃, hframes, hs₃⟩ := ih gaps (Nat.succ.inj hlen) hs₂
      refine ⟨.real p :: (dummies ++ frames), c₃, ?_, hs₃⟩
      rw [gapFrames, hp]
      show (dummyFrames gap c₁).bind _ = _
      rw [hdummies]
      show (gapFrames packets gaps c₂).bind _ = _
      rw [hframes]
      rfl

theorem Sound.exists_interleave (hs : c.Sound config) (hcell : config.CellFits)
    {packets : List Packet} {dummies : Nat} (hfit : config.FramesFit packets.length)
    (hmax : dummies ≤ config.maxDummyPacketsPerBurst) :
    ∃ frames c', c.interleavePreservingRealOrder packets dummies = some (frames, c') ∧
      c'.Sound config := by
  obtain ⟨first, rest, rng, hgaps, hlen⟩ := exists_placeDummies packets.length dummies c.rng
  have hs₁ : ({ c with rng } : BurstComposer ρ).Sound config :=
    ⟨hs.config_eq, hs.spectral, hs.padder, hs.dpShaper⟩
  obtain ⟨leading, c₂, hleading, hs₂⟩ := hs₁.exists_dummyFrames hcell first
  obtain ⟨frames, c₃, hframes, hs₃⟩ := hs₂.exists_gapFrames hcell packets rest hlen
  have halloc : allocate ((packets.length + dummies) % 2 ^ 64) frameSize = some () := by
    apply allocate_of_le
    refine le_trans (Nat.mul_le_mul_right _ ?_) hfit
    exact (Nat.mod_le _ _).trans (Nat.add_le_add_left hmax _)
  refine ⟨leading ++ frames, c₃, ?_, hs₃⟩
  rw [interleavePreservingRealOrder, hgaps]
  show (allocate _ frameSize).bind _ = _
  rw [halloc]
  show (dummyFrames first _).bind _ = _
  rw [hleading]
  show (gapFrames packets rest c₂).bind _ = _
  rw [hframes]
  rfl

-- ============================================================================
-- Booking
-- ============================================================================

omit [Rng ρ] in
/-- Booking frames touches the self-tester and two counters. -/
theorem recordFrames_eq (c : BurstComposer ρ) (frames : List MixedFrame) :
    ∃ selfTester dummyBytesEmitted frameClockMs,
      c.recordFrames frames = { c with selfTester, dummyBytesEmitted, frameClockMs } := by
  unfold recordFrames
  generalize min (c.dummyBytesEmitted + dummyBytes frames) (2 ^ 64 - 1) = emitted
  generalize hc' : ({ c with dummyBytesEmitted := emitted } : BurstComposer ρ) = c'
  have hbase : c' = { c with
      selfTester := c'.selfTester
      dummyBytesEmitted := c'.dummyBytesEmitted
      frameClockMs := c'.frameClockMs } := by
    rw [← hc']
  clear hc'
  induction frames generalizing c' with
  | nil => exact ⟨_, _, _, hbase⟩
  | cons frame frames ih =>
      apply ih
      rw [hbase]

omit [Rng ρ] in
@[simp] theorem recordFrames_config (c : BurstComposer ρ) (frames : List MixedFrame) :
    (c.recordFrames frames).config = c.config := by
  obtain ⟨_, _, _, heq⟩ := c.recordFrames_eq frames
  rw [heq]

omit [Rng ρ] in
@[simp] theorem recordFrames_regime (c : BurstComposer ρ) (frames : List MixedFrame) :
    (c.recordFrames frames).regime = c.regime := by
  obtain ⟨_, _, _, heq⟩ := c.recordFrames_eq frames
  rw [heq]

omit [Rng ρ] in
theorem Sound.recordFrames (hs : c.Sound config) (frames : List MixedFrame) :
    (c.recordFrames frames).Sound config := by
  obtain ⟨_, _, _, heq⟩ := c.recordFrames_eq frames
  rw [heq]
  exact ⟨hs.config_eq, hs.spectral, hs.padder, hs.dpShaper⟩

omit [Rng ρ] in
theorem Sound.exists_observeIat (hs : c.Sound config) (clk : Clock) :
    ∃ c' clk', c.observeIat F clk = some (c', clk') ∧ c'.Sound config := by
  unfold observeIat
  split
  · exact ⟨_, _, rfl, hs.config_eq, hs.spectral, hs.padder, hs.dpShaper⟩
  · next last _ =>
    have hle : Double.le (.finite 10) (.finite 10000) = true := by decide
    obtain ⟨z, hz⟩ := Double.exists_clamp hle (c.averageIatMs F (clk.later.now - last))
    rw [hz]
    exact ⟨_, _, rfl, hs.config_eq, hs.spectral, hs.padder, hs.dpShaper⟩

theorem Sound.exists_switchRegime (hs : c.Sound config) :
    ∃ c', c.switchRegime = some c' ∧ c'.Sound config := by
  unfold switchRegime
  split
  · obtain ⟨r, rng, hr⟩ := exists_nextRegime c.config_valid c.rng
    rw [hr]
    exact ⟨_, rfl, hs.config_eq, hs.spectral, hs.padder, hs.dpShaper⟩
  · exact ⟨c, rfl, hs⟩

theorem Sound.exists_observe (hs : c.Sound config) (clk : Clock) (realBytes realPackets : Nat) :
    ∃ c' clk', c.observe F clk realBytes realPackets = some (c', clk') ∧ c'.Sound config := by
  have hs₁ : (c.countBurst realBytes realPackets).Sound config :=
    ⟨hs.config_eq, hs.spectral, hs.padder, hs.dpShaper⟩
  obtain ⟨c₂, clk', hiat, hs₂⟩ := hs₁.exists_observeIat (F := F) clk
  obtain ⟨c₃, hswitch, hs₃⟩ := hs₂.exists_switchRegime
  refine ⟨c₃, clk', ?_, hs₃⟩
  unfold observe
  rw [hiat]
  show c₂.switchRegime.bind _ = _
  rw [hswitch]
  rfl

theorem Sound.exists_resetKeepaliveDeadline (hs : c.Sound config) (clk : Clock) :
    ∃ c' clk', resetKeepaliveDeadline F clk c = some (c', clk') ∧ c'.Sound config := by
  obtain ⟨g₁, hg₁, hord₁⟩ := hs.spectral.exists_setTargetIatMs c.observedRealIatMs
  obtain ⟨ms, g₂, hg₂, hord₂⟩ := hord₁.exists_nextDelayMs (F := F)
  rw [resetKeepaliveDeadline, hg₁]
  show ∃ _ _, (g₁.nextDelayMs F).bind _ = _ ∧ _
  rw [hg₂]
  exact ⟨_, _, rfl, hs.config_eq, hord₂, hs.padder, hs.dpShaper⟩

theorem Sound.exists_finishBurst (hs : c.Sound config) (clk : Clock) (burst : Burst) :
    ∃ c' clk', c.finishBurst F clk burst = some (c', clk') ∧ c'.Sound config := by
  obtain ⟨c₁, clk₁, hobs, hs₁⟩ :=
    hs.exists_observe (F := F) clk burst.totalBytes burst.packetCount
  have hs₂ : ({ c₁ with lastBurstAt := clk₁.now } : BurstComposer ρ).Sound config :=
    ⟨hs₁.config_eq, hs₁.spectral, hs₁.padder, hs₁.dpShaper⟩
  obtain ⟨c₃, clk₃, hreset, hs₃⟩ := hs₂.exists_resetKeepaliveDeadline (F := F) clk₁.later
  exact ⟨c₃, clk₃, by rw [finishBurst, hobs]; exact hreset, hs₃⟩

-- ============================================================================
-- Whole calls
-- ============================================================================

/-- The packets and the frames of a burst fit into vectors. -/
structure Fits (config : BurstConfig) (burst : Burst) : Prop where
  packets : ∀ p ∈ burst.packets, p.len ≤ isizeMax
  frames : config.FramesFit burst.packets.length

/-- Ingesting packets does not touch what the budget is drawn from. -/
theorem budgetDrawable_ingestPackets (packets : List Packet) :
    (c.ingestPackets packets).BudgetDrawable ↔ c.BudgetDrawable := by
  rw [ingestPackets_eq]
  rfl

/-- A sound composer whose budget can be drawn mixes every burst that fits. -/
theorem Sound.exists_compose (hs : c.Sound config) (hcell : config.CellFits) {burst : Burst}
    (hfit : Fits config burst) (hdraw : c.BudgetDrawable) (clk : Clock) :
    ∃ mixed c' clk', c.compose F clk burst = some (mixed, c', clk') ∧ c'.Sound config := by
  have hs₁ := hs.ingestPackets hfit.packets
  obtain ⟨count, c₂, hcount⟩ :=
    exists_dummyCountForBurst (F := F) ((budgetDrawable_ingestPackets _).mpr hdraw)
      burst.totalBytes
  have hs₂ := hs₁.dummyCountForBurst hcount
  have hle : count ≤ config.maxDummyPacketsPerBurst :=
    hs₁.config_eq ▸ (dummyCountForBurst_eq_some hcount).1
  obtain ⟨frames, c₃, hframes, hs₃⟩ := hs₂.exists_interleave hcell hfit.frames hle
  obtain ⟨c₄, clk₄, hfinish, hs₄⟩ := (hs₃.recordFrames frames).exists_finishBurst (F := F) clk burst
  refine ⟨⟨frames, c₃.regime, burst.packetCount, count⟩, c₄, clk₄, ?_, hs₄⟩
  rw [compose, hcount]
  show (c₂.interleavePreservingRealOrder burst.packets count).bind _ = _
  rw [hframes]
  show ((c₃.recordFrames frames).finishBurst F clk burst).bind _ = _
  rw [hfinish]
  rfl

/-- Without a budget to draw, mixing panics. -/
theorem compose_eq_none (hdraw : ¬ c.BudgetDrawable) (clk : Clock) (burst : Burst) :
    c.compose F clk burst = none := by
  rw [compose, dummyCountForBurst_eq_none.mpr]
  · rfl
  · rwa [budgetDrawable_ingestPackets]

omit [Rng ρ] in
theorem keepaliveCount_le (F : F64) (clk : Clock) (c : BurstComposer ρ) :
    (c.keepaliveCount F clk).1 ≤ c.config.maxDummyPacketsPerBurst :=
  Nat.min_le_right _ _

/-- A sound composer builds every keepalive that fits. -/
theorem Sound.exists_composeKeepalive (hs : c.Sound config) (hcell : config.CellFits)
    (hfit : config.FramesFit 0) (clk : Clock) :
    ∃ mixed c' clk', c.composeKeepalive F clk = some (mixed, c', clk') ∧ c'.Sound config := by
  obtain ⟨count, clk₁, hcount⟩ : ∃ count clk₁, c.keepaliveCount F clk = (count, clk₁) :=
    ⟨_, _, rfl⟩
  have hle : count ≤ config.maxDummyPacketsPerBurst := by
    have h := keepaliveCount_le F clk c
    rwa [hcount, hs.config_eq] at h
  have halloc : allocate count frameSize = some () := by
    apply allocate_of_le
    refine le_trans (Nat.mul_le_mul_right _ hle) ?_
    rwa [BurstConfig.FramesFit, Nat.zero_add] at hfit
  obtain ⟨frames, c₂, hframes, hs₂⟩ := hs.exists_dummyFrames hcell count
  have hs₃ := hs₂.recordFrames frames
  have hs₄ : ({ c₂.recordFrames frames with lastBurstAt := clk₁.now } : BurstComposer ρ).Sound
      config := ⟨hs₃.config_eq, hs₃.spectral, hs₃.padder, hs₃.dpShaper⟩
  obtain ⟨c₅, clk₅, hreset, hs₅⟩ := hs₄.exists_resetKeepaliveDeadline (F := F) clk₁.later
  refine ⟨⟨frames, c₂.regime, 0, count⟩, c₅, clk₅, ?_, hs₅⟩
  rw [composeKeepalive, hcount]
  show (allocate count frameSize).bind _ = _
  rw [halloc]
  show (dummyFrames count c).bind _ = _
  rw [hframes]
  show (resetKeepaliveDeadline F _ _).bind _ = _
  rw [hreset]
  rfl

-- ============================================================================
-- Construction
-- ============================================================================

omit [Rng ρ] in
/-- The delays of a new composer have an ordered range. -/
theorem spectralIat_ordered {g : SpectralIatGenerator ρ} {rng : ρ}
    (h : SpectralIatGenerator.new (spectralConfig F config) rng = .ok g) : g.Ordered :=
  SpectralIatGenerator.new_ordered h nofun
    (Double.mul_finite_ne_nan (Double.ofNat_ne_nan F _) (by decide))

/-- The shaper of a new composer was validated. -/
theorem newDpShaper_eq_ok {H : Blake3} {seed : RoleSeed} {dp : Option (DpShaper ρ)}
    (h : newDpShaper H seed config = .ok dp) :
    dp.map DpShaper.config = config.dpShaper ∧
      ∀ cfg, config.dpShaper = some cfg → ∃ cfg', cfg.validate = .ok cfg' := by
  unfold newDpShaper at h
  split at h
  · next hnone =>
    obtain rfl := Except.ok.inj h
    refine ⟨hnone.symm, fun cfg hcfg => ?_⟩
    rw [hnone] at hcfg
    cases hcfg
  · next cfg hcfg =>
    unfold DpShaper.new at h
    cases hval : cfg.validate with
    | error e =>
        rw [hval] at h
        cases h
    | ok cfg' =>
        rw [hval] at h
        obtain rfl := Except.ok.inj h
        obtain ⟨rfl, -⟩ := DpShaperConfig.validate_eq_ok hval
        refine ⟨hcfg.symm, fun cfg'' h'' => ⟨cfg', ?_⟩⟩
        rw [Option.some.inj (h''.symm.trans hcfg)]
        exact hval

theorem newDpShaper_of_validate {H : Blake3} {seed : RoleSeed} {cfg cfg' : DpShaperConfig}
    (h : config.dpShaper = some cfg) (hval : cfg.validate = .ok cfg') :
    newDpShaper H seed config
      = .ok (some ⟨cfg', (RngCore.fromSeed (seed.deriveRngSeed H "mixtor.dp.v1") : ρ)⟩) := by
  rw [newDpShaper, h]
  simp only [DpShaper.new, hval]
  rfl

theorem resetKeepaliveDeadline_eq_some {clk clk' : Clock} {c' : BurstComposer ρ}
    (h : resetKeepaliveDeadline F clk c = some (c', clk')) :
    ∃ spectralIat nextKeepaliveDue, c' = { c with spectralIat, nextKeepaliveDue } := by
  obtain ⟨g, -, h⟩ := Option.bind_eq_some_iff.mp h
  obtain ⟨⟨ms, g'⟩, -, h⟩ := Option.bind_eq_some_iff.mp h
  obtain ⟨rfl, -⟩ := Prod.mk.inj (Option.some.inj h)
  exact ⟨g', _, rfl⟩

omit [Rng ρ] in
/-- A composer that has seen no burst is sound if its parts are. -/
theorem fresh_sound {clk : Clock} (hv : config.Valid) {rng : ρ} {regime : RatioRegime}
    {g : SpectralIatGenerator ρ} (hg : g.Ordered) {dp : Option (DpShaper ρ)}
    (hdp : dp.map DpShaper.config = config.dpShaper) {sessionBounder : Option SessionBounder}
    {accountant : PrivacyAccountant} :
    (fresh F clk config hv rng regime g dp sessionBounder accountant).Sound config where
  config_eq := rfl
  spectral := hg
  padder := OptimalPadder.new_bounded _ _ (by decide)
  dpShaper := hdp

/-- A new composer is sound, its regime is the first draw of its generator, and its
    shaper was validated. -/
theorem withConfig_eq_ok {H : Blake3} {clk clk' : Clock} {seed : RoleSeed}
    (h : withConfig F H clk seed config = some (.ok (c, clk'))) :
    config.Valid ∧ c.Sound config ∧
      nextRegime config (RngCore.fromSeed (seed.deriveRngSeed H "mixtor.composition.v1"))
        = some (c.regime, c.rng) ∧
      ∀ cfg, config.dpShaper = some cfg → ∃ cfg', cfg.validate = .ok cfg' := by
  unfold withConfig at h
  split at h
  · cases h
  · split at h
    · cases h
    · next config' hval =>
      obtain ⟨hv, rfl⟩ := BurstConfig.validate_eq_ok.mp hval
      obtain ⟨⟨regime, rng⟩, hregime, h⟩ := Option.bind_eq_some_iff.mp h
      simp only [] at h
      split at h
      · cases h
      · next g hg =>
        split at h
        · cases h
        · next dp hdp =>
          obtain ⟨⟨accountant, clk₁⟩, -, h⟩ := Option.bind_eq_some_iff.mp h
          obtain ⟨⟨c', clk₂⟩, hreset, h⟩ := Option.bind_eq_some_iff.mp h
          obtain ⟨rfl, -⟩ := Prod.mk.inj (Except.ok.inj (Option.some.inj h))
          obtain ⟨hcfg, hdpv⟩ := newDpShaper_eq_ok hdp
          refine ⟨hv, ?_, ?_, hdpv⟩
          · have hs₀ : (fresh F clk₁ config' hv rng regime g dp
                (newSessionBounder clk config').1 accountant).Sound config' :=
              fresh_sound hv (spectralIat_ordered hg) hcfg
            obtain ⟨c'', _, hreset', hs⟩ :=
              hs₀.exists_resetKeepaliveDeadline (F := F) clk₁.later.later
            obtain ⟨rfl, -⟩ := Prod.mk.inj (Option.some.inj (hreset.symm.trans hreset'))
            exact hs
          · obtain ⟨_, _, rfl⟩ := resetKeepaliveDeadline_eq_some hreset
            exact hregime

/-- The constructor returns a composer for every accepted configuration. -/
theorem exists_withConfig {H : Blake3} {seed : RoleSeed} (hrole : seed.role = .burstComposition)
    (hv : config.Valid) {g : SpectralIatGenerator ρ}
    (hg : SpectralIatGenerator.new (spectralConfig F config)
      (RngCore.fromSeed (seed.deriveRngSeed H "mixtor.spectral.v1")) = .ok g)
    {dp : Option (DpShaper ρ)} (hdp : newDpShaper H seed config = .ok dp) (clk : Clock) :
    ∃ c clk', withConfig F H clk seed config = some (.ok ((c : BurstComposer ρ), clk')) := by
  obtain ⟨regime, rng, hregime⟩ := exists_nextRegime (ρ := ρ) hv
    (RngCore.fromSeed (seed.deriveRngSeed H "mixtor.composition.v1"))
  obtain ⟨hcfg, -⟩ := newDpShaper_eq_ok hdp
  unfold withConfig
  rw [if_neg (not_not.mpr hrole)]
  split
  · next e he =>
    rw [BurstConfig.validate_eq_ok.mpr ⟨hv, rfl⟩] at he
    cases he
  · next config' hval =>
    obtain ⟨-, rfl⟩ := BurstConfig.validate_eq_ok.mp hval
    obtain ⟨accountant, clk₁, haccountant⟩ : ∃ a clk₁, PrivacyAccountant.new
        (newSessionBounder clk config').2 (.finite 100) .basic = some (a, clk₁) :=
      ⟨_, _, by rw [PrivacyAccountant.new, if_pos (by decide)]⟩
    have hs₀ : (fresh F clk₁ config' hv rng regime g dp
        (newSessionBounder clk config').1 accountant).Sound config' :=
      fresh_sound hv (spectralIat_ordered hg) hcfg
    obtain ⟨c, clk₂, hreset, -⟩ := hs₀.exists_resetKeepaliveDeadline (F := F) clk₁.later.later
    refine ⟨c, clk₂, ?_⟩
    simp only [hregime, hg, hdp, Option.bind_eq_bind, Option.bind_some, haccountant, hreset]
    rfl

/-- A regime with a range. -/
def Ranged (r : RatioRegime) : Prop := r.dummyLo ≤ r.dummyHi

theorem Sound.budgetDrawable (hs : c.Sound config) (hr : Ranged c.regime)
    (heps : ∀ cfg, config.dpShaper = some cfg → Double.le (.finite 0) cfg.epsilon = true) :
    c.BudgetDrawable := by
  refine ⟨.inl hr, fun dp hdp => heps dp.config ?_⟩
  rw [← hs.dpShaper, hdp]
  rfl

-- ============================================================================
-- Composers for evaluating the model
-- ============================================================================

/-- The default with another maximum and another epsilon. -/
def sampleConfig (maxDummies : Nat) (epsilon : Double) : BurstConfig :=
  { BurstConfig.default with
    maxDummyPacketsPerBurst := maxDummies
    dpShaper := some { DpShaperConfig.default with epsilon } }

theorem default_valid : BurstConfig.default.Valid := by
  constructor <;> decide

theorem sampleConfig_valid {maxDummies : Nat} (h : 0 < maxDummies) (epsilon : Double) :
    (sampleConfig maxDummies epsilon).Valid := by
  obtain ⟨-, h2, h3, h4, h5, h6, h7, h8, h9, h10, h11, h12⟩ := default_valid
  exact ⟨h, h2, h3, h4, h5, h6, h7, h8, h9, h10, h11, h12⟩

theorem sampleConfig_cellFits (maxDummies : Nat) (epsilon : Double) :
    (sampleConfig maxDummies epsilon).CellFits := by
  intro cell hcell
  obtain rfl := Option.some.inj hcell
  decide

theorem half_pos : (Double.finite (1 / 2)).le (.finite 0) = false := by
  decide +kernel

/-- The constructor accepts the sample configurations whose epsilon is not zero or less. -/
theorem exists_sample {maxDummies : Nat} (hmax : 0 < maxDummies) {epsilon : Double}
    (heps : epsilon.le (.finite 0) = false) (H : Blake3) (key : Crypto.Key) (clk : Clock) :
    ∃ c clk', withConfig F64.steep H clk ⟨⟨key⟩, .burstComposition⟩
      (sampleConfig maxDummies epsilon) = some (.ok ((c : BurstComposer ρ), clk')) := by
  have hspectral : (spectralConfig F64.steep BurstConfig.default).validate
      = .ok (spectralConfig F64.steep BurstConfig.default) :=
    SpectralConfig.validate_of_le (by decide +kernel) (by decide +kernel) (by decide +kernel)
  have hdp : ({ DpShaperConfig.default with epsilon } : DpShaperConfig).validate
      = .ok { DpShaperConfig.default with epsilon } := by
    simp [DpShaperConfig.validate, DpShaperConfig.default, heps]
  exact exists_withConfig rfl (sampleConfig_valid hmax epsilon)
    (congrArg (Except.map _) hspectral) (newDpShaper_of_validate rfl hdp) clk

/-- With the default maximum and epsilon a new composer has a budget to draw. -/
theorem budgetDrawable_sample {H : Blake3} {clk clk' : Clock} {seed : RoleSeed}
    (h : withConfig F H clk seed (sampleConfig 32 (.finite (1 / 2))) = some (.ok (c, clk'))) :
    c.BudgetDrawable := by
  obtain ⟨-, hs, hregime, -⟩ := withConfig_eq_ok h
  refine hs.budgetDrawable (nextRegime_range (by decide) hregime) fun cfg hcfg => ?_
  obtain rfl := Option.some.inj hcfg
  decide +kernel

end BurstComposer

/-- A hash whose every byte is `b`. -/
def Crypto.Blake3.fill (b : UInt8) : Blake3 where
  keyedHash _ _ := Vector.replicate 32 b

/-- The seed of the runs below. -/
def sampleSeed : RoleSeed := ⟨⟨Vector.replicate 32 0⟩, .burstComposition⟩

def oneBytePacket : Packet := ⟨[7], List.cons_ne_nil _ _⟩

/-- A burst of two packets. -/
def sampleBurst : Burst :=
  ⟨[oneBytePacket, ⟨[8, 9], List.cons_ne_nil _ _⟩], ⟨2, 5⟩, .manual⟩

theorem sampleBurst_fits : BurstComposer.Fits
    (BurstComposer.sampleConfig 32 (.finite (1 / 2))) sampleBurst where
  packets := List.forall_mem_cons.mpr ⟨by decide, List.forall_mem_singleton.mpr (by decide)⟩
  frames := by
    show (2 + 32) * 32 ≤ isizeMax
    decide

/-- A sample composer with the default maximum mixes the sample burst. -/
theorem exists_compose_sample :
    ∃ (c c' : BurstComposer FixedRng) (clk' : Clock) (mixed : MixedBurst),
      c.config.cellBytes = some 514 ∧
        c.compose F64.steep (.const 1) sampleBurst = some (mixed, c', clk') := by
  have hmax : 0 < 32 := by decide
  obtain ⟨c, clk₀, h⟩ := BurstComposer.exists_sample (ρ := FixedRng) hmax BurstComposer.half_pos
    (.fill 2) sampleSeed.bytes (.const 0)
  obtain ⟨-, hs, -, -⟩ := BurstComposer.withConfig_eq_ok h
  obtain ⟨mixed, c', clk', hmixed, -⟩ := hs.exists_compose (F := F64.steep)
    (BurstComposer.sampleConfig_cellFits _ _) sampleBurst_fits
    (BurstComposer.budgetDrawable_sample h) (.const 1)
  exact ⟨c, c', clk', mixed, by rw [hs.config_eq]; rfl, hmixed⟩

end MixTor
