/-
  MixTor.Shaping.ComposerFrames

  What a mixed burst carries: the packets of the burst in their order, each fitted
  to the cell, and as many dummies as it says, wherever the gaps put them.
-/

import MixTor.Lib.Interleaved
import MixTor.Shaping.ComposerSound

namespace MixTor

open Crypto (Bytes Blake3)

/-- The packet of a real frame. -/
def MixedFrame.packet? : MixedFrame → Option Packet
  | real p => some p
  | dummy _ => none

/-- `q` is `p` fitted to the cell: unchanged without one; else cut to it, or extended to
    it behind its own bytes. -/
def Fitted : Option Nat → Packet → Packet → Prop
  | none, p, q => q = p
  | some n, p, q => q.len = n ∧ if n ≤ p.len then q.bytes = p.bytes.take n else p.bytes <+: q.bytes

/-- A real frame with the fitted packet. -/
def RealFrame (cell : Option Nat) (p : Packet) (f : MixedFrame) : Prop :=
  ∃ q, f = .real q ∧ Fitted cell p q

/-- A dummy of the cell size, if there is one. -/
def DummyFrame (cell : Option Nat) (f : MixedFrame) : Prop :=
  ∃ b, f = .dummy b ∧ ∀ n, cell = some n → b.length = n

theorem Fitted.len_eq {n : Nat} {p q : Packet} (h : Fitted (some n) p q) : q.len = n := h.1

/-- Padding to a cell cuts or extends. -/
theorem fitted_padToCell {ρ : Type} [RngCore ρ] {cell : Nat} {rng : ρ} {p q : Packet}
    (h : q.bytes = (padToCell cell rng p.bytes).1) : Fitted (some cell) p q := by
  refine ⟨by rw [Packet.len, h, padToCell_length], ?_⟩
  have hlen : p.len = p.bytes.length := rfl
  rw [h, padToCell, hlen]
  rcases lt_trichotomy p.bytes.length cell with hlt | heq | hgt
  · rw [if_neg (not_le.mpr hlt), if_neg hlt.ne, if_pos hlt]
    exact List.prefix_append _ _
  · rw [if_pos heq.ge, if_pos heq, ← heq, List.take_length]
  · rw [if_pos hgt.le, if_neg hgt.ne', if_neg (not_lt.mpr hgt.le)]

variable {ρ : Type} [Rng ρ] {F : F64}

namespace BurstComposer

variable {c c' : BurstComposer ρ}

theorem padRealPacket_fitted {packet p : Packet} (h : c.padRealPacket packet = some (p, c')) :
    Fitted c.config.cellBytes packet p := by
  cases hc : c.config.cellBytes with
  | none =>
      unfold padRealPacket at h
      rw [hc] at h
      exact (Prod.mk.inj (Option.some.inj h)).1.symm
  | some cell =>
      obtain ⟨q, hq, hpad⟩ := padRealPacket_eq hc packet fun hlt => by
        by_contra hgt
        rw [padRealPacket_eq_none.mpr ⟨cell, hc, hlt, not_le.mp hgt⟩] at h
        cases h
      obtain ⟨rfl, -⟩ := Prod.mk.inj (Option.some.inj (hpad.symm.trans h))
      exact fitted_padToCell hq

theorem dummyFrames_eq_some {n : Nat} {frames : List MixedFrame}
    (h : dummyFrames n c = some (frames, c')) :
    Redrawn c c' ∧ frames.length = n ∧ ∀ f ∈ frames, DummyFrame c.config.cellBytes f := by
  induction n generalizing c frames with
  | zero =>
      obtain ⟨rfl, rfl⟩ := Prod.mk.inj (Option.some.inj h)
      exact ⟨.refl c, rfl, List.forall_mem_nil _⟩
  | succ n ih =>
      obtain ⟨⟨bytes, c₁⟩, hbytes, h⟩ := Option.bind_eq_some_iff.mp h
      obtain ⟨⟨rest, c₂⟩, hrest, h⟩ := Option.bind_eq_some_iff.mp h
      obtain ⟨rfl, rfl⟩ := Prod.mk.inj (Option.some.inj h)
      obtain ⟨hc₁, hcell⟩ := dummyPayload_eq_some hbytes
      obtain ⟨hc₂, hlen, hall⟩ := ih hrest
      rw [hc₁.config_eq] at hall
      exact ⟨hc₁.trans hc₂, congrArg (· + 1) hlen,
        List.forall_mem_cons.mpr ⟨⟨bytes, rfl, hcell⟩, hall⟩⟩

/-- The packets with the dummies of their gaps. -/
theorem gapFrames_interleaved {packets : List Packet} {gaps : List Nat} {frames : List MixedFrame}
    (hlen : gaps.length = packets.length) (h : gapFrames packets gaps c = some (frames, c')) :
    Redrawn c c' ∧ Interleaved (RealFrame c.config.cellBytes) (DummyFrame c.config.cellBytes)
      packets gaps.sum frames := by
  induction packets generalizing gaps c frames with
  | nil =>
      obtain rfl := List.length_eq_zero_iff.mp hlen
      obtain ⟨rfl, rfl⟩ := Prod.mk.inj (Option.some.inj h)
      exact ⟨.refl c, .nil⟩
  | cons packet packets ih =>
      obtain ⟨gap, gaps, rfl⟩ := List.exists_cons_of_length_eq_add_one hlen
      obtain ⟨⟨p, c₁⟩, hp, h⟩ := Option.bind_eq_some_iff.mp h
      obtain ⟨⟨dummies, c₂⟩, hdummies, h⟩ := Option.bind_eq_some_iff.mp h
      obtain ⟨⟨rest, c₃⟩, hrest, h⟩ := Option.bind_eq_some_iff.mp h
      obtain ⟨rfl, rfl⟩ := Prod.mk.inj (Option.some.inj h)
      obtain ⟨rng, rfl⟩ := padRealPacket_eq_some hp
      obtain ⟨hc₂, hcount, hall⟩ := dummyFrames_eq_some hdummies
      obtain ⟨hc₃, hinter⟩ := ih (Nat.succ.inj hlen) hrest
      rw [hc₂.config_eq] at hinter
      have hc₁ : Redrawn c { c with rng } := ⟨rng, c.optimalPadder, rfl⟩
      refine ⟨(hc₁.trans hc₂).trans hc₃, .item ⟨p, rfl, padRealPacket_fitted hp⟩ ?_⟩
      rw [List.sum_cons, ← hcount]
      exact hinter.append_left hall

omit [Rng ρ] in
/-- One more in one of the gaps. -/
theorem sum_modify_succ {gaps : List Nat} {i : Nat} (h : i < gaps.length) :
    (gaps.modify i (· + 1)).sum = gaps.sum + 1 := by
  induction gaps generalizing i with
  | nil => cases h
  | cons gap gaps ih =>
      cases i with
      | zero =>
          rw [List.modify_zero_cons, List.sum_cons, List.sum_cons]
          omega
      | succ i =>
          rw [List.modify_succ_cons, List.sum_cons, List.sum_cons, ih (Nat.lt_of_succ_lt_succ h)]
          omega

/-- Scattering adds one dummy to one gap at a time.  The induction is on what is left. -/
theorem scatter_sum {left : Nat} {gaps gaps' : List Nat} {rng rng' : ρ} (hpos : 0 < gaps.length)
    (h : scatter left gaps rng = some (gaps', rng')) :
    gaps'.length = gaps.length ∧ gaps'.sum = gaps.sum + left := by
  induction left generalizing gaps rng with
  | zero =>
      obtain ⟨rfl, -⟩ := Prod.mk.inj (Option.some.inj h)
      exact ⟨rfl, rfl⟩
  | succ left ih =>
      rw [scatter, Option.bind_eq_bind, Option.bind_eq_some_iff] at h
      obtain ⟨⟨gap, rng₁⟩, hgap, h⟩ := h
      have hlt : gap < gaps.length := by
        have := (genRange_mem hgap).2
        omega
      obtain ⟨hlen, hsum⟩ := ih (by rwa [List.length_modify]) h
      rw [List.length_modify] at hlen
      refine ⟨hlen, ?_⟩
      rw [hsum, sum_modify_succ hlt]
      omega

/-- The gaps are one more than the packets, and hold all dummies. -/
theorem placeDummies_sum {packets dummies : Nat} {gaps : List Nat} {rng rng' : ρ}
    (h : placeDummies packets dummies rng = some (gaps, rng')) :
    gaps.length = packets + 1 ∧ gaps.sum = dummies := by
  unfold placeDummies at h
  split at h
  · next h1 =>
    obtain ⟨⟨leading, rng₁⟩, hlead, h⟩ := Option.bind_eq_some_iff.mp h
    obtain ⟨rfl, -⟩ := Prod.mk.inj (Option.some.inj h)
    have hle := (genRange_mem hlead).2
    refine ⟨by rw [h1]; rfl, ?_⟩
    rw [List.sum_cons, List.sum_singleton]
    exact Nat.add_sub_cancel' hle
  · obtain ⟨hlen, hsum⟩ := scatter_sum (by rw [List.length_replicate]; omega) h
    rw [List.length_replicate] at hlen
    rw [List.sum_replicate_nat, Nat.mul_zero, Nat.zero_add] at hsum
    exact ⟨hlen, hsum⟩

/-- **What interleaving returns.**  The packets in their order among the dummies. -/
theorem interleave_interleaved {packets : List Packet} {dummies : Nat} {frames : List MixedFrame}
    (h : c.interleavePreservingRealOrder packets dummies = some (frames, c')) :
    Redrawn c c' ∧ Interleaved (RealFrame c.config.cellBytes) (DummyFrame c.config.cellBytes)
      packets dummies frames := by
  obtain ⟨⟨gaps, rng⟩, hgaps, h⟩ := Option.bind_eq_some_iff.mp h
  obtain ⟨_, -, h⟩ := Option.bind_eq_some_iff.mp h
  obtain ⟨hlen, hsum⟩ := placeDummies_sum hgaps
  obtain ⟨first, rest, rfl⟩ := List.exists_cons_of_length_eq_add_one hlen
  obtain ⟨⟨leading, c₁⟩, hleading, h⟩ := Option.bind_eq_some_iff.mp h
  obtain ⟨⟨behind, c₂⟩, hbehind, h⟩ := Option.bind_eq_some_iff.mp h
  obtain ⟨rfl, rfl⟩ := Prod.mk.inj (Option.some.inj h)
  obtain ⟨hc₁, hcount, hall⟩ := dummyFrames_eq_some hleading
  obtain ⟨hc₂, hinter⟩ := gapFrames_interleaved (Nat.succ.inj hlen) hbehind
  rw [hc₁.config_eq] at hinter
  have hc₀ : Redrawn c { c with rng } := ⟨rng, c.optimalPadder, rfl⟩
  refine ⟨(hc₀.trans hc₁).trans hc₂, ?_⟩
  rw [← hsum, List.sum_cons, ← hcount]
  exact hinter.append_left hall

/-- The steps of a burst that was mixed. -/
theorem compose_eq_some {clk clk' : Clock} {burst : Burst} {mixed : MixedBurst}
    (h : c.compose F clk burst = some (mixed, c', clk')) :
    ∃ c₁ c₂, (c.ingestPackets burst.packets).dummyCountForBurst F burst.totalBytes
        = some (mixed.dummyPackets, c₁) ∧
      c₁.interleavePreservingRealOrder burst.packets mixed.dummyPackets
        = some (mixed.frames, c₂) ∧
      (c₂.recordFrames mixed.frames).finishBurst F clk burst = some (c', clk') ∧
      mixed.realPackets = burst.packets.length := by
  obtain ⟨⟨count, c₁⟩, hcount, h⟩ := Option.bind_eq_some_iff.mp h
  obtain ⟨⟨frames, c₂⟩, hframes, h⟩ := Option.bind_eq_some_iff.mp h
  obtain ⟨⟨c₃, clk₃⟩, hfinish, h⟩ := Option.bind_eq_some_iff.mp h
  obtain ⟨rfl, hrest⟩ := Prod.mk.inj (Option.some.inj h)
  obtain ⟨rfl, rfl⟩ := Prod.mk.inj hrest
  exact ⟨c₁, c₂, hcount, hframes, hfinish, rfl⟩

/-- The steps of a keepalive that was built. -/
theorem composeKeepalive_eq_some {clk clk' : Clock} {mixed : MixedBurst}
    (h : c.composeKeepalive F clk = some (mixed, c', clk')) :
    ∃ (c₁ : BurstComposer ρ) (clk₁ : Clock),
      dummyFrames mixed.dummyPackets c = some (mixed.frames, c₁) ∧
      resetKeepaliveDeadline F clk₁.later
          { c₁.recordFrames mixed.frames with lastBurstAt := clk₁.now } = some (c', clk') ∧
      mixed.dummyPackets ≤ c.config.maxDummyPacketsPerBurst ∧ mixed.realPackets = 0 := by
  obtain ⟨_, -, h⟩ := Option.bind_eq_some_iff.mp h
  obtain ⟨⟨frames, c₁⟩, hframes, h⟩ := Option.bind_eq_some_iff.mp h
  obtain ⟨⟨c₂, clk₂⟩, hreset, h⟩ := Option.bind_eq_some_iff.mp h
  obtain ⟨rfl, hrest⟩ := Prod.mk.inj (Option.some.inj h)
  obtain ⟨rfl, rfl⟩ := Prod.mk.inj hrest
  exact ⟨c₁, (c.keepaliveCount F clk).2, hframes, hreset, keepaliveCount_le F clk c, rfl⟩

/-- **What mixing returns**, in terms of its frames. -/
theorem compose_interleaved {clk clk' : Clock} {burst : Burst} {mixed : MixedBurst}
    (h : c.compose F clk burst = some (mixed, c', clk')) :
    mixed.realPackets = burst.packets.length ∧
      mixed.dummyPackets ≤ c.config.maxDummyPacketsPerBurst ∧
      Interleaved (RealFrame c.config.cellBytes) (DummyFrame c.config.cellBytes)
        burst.packets mixed.dummyPackets mixed.frames := by
  obtain ⟨c₁, c₂, hcount, hframes, -, hreal⟩ := compose_eq_some h
  obtain ⟨hle, _, _, _, rfl, -⟩ := dummyCountForBurst_eq_some hcount
  obtain ⟨-, hinter⟩ := interleave_interleaved hframes
  rw [ingestPackets_eq] at hle hinter
  exact ⟨hreal, hle, hinter⟩

/-- What a keepalive returns: dummies alone. -/
theorem composeKeepalive_interleaved {clk clk' : Clock} {mixed : MixedBurst}
    (h : c.composeKeepalive F clk = some (mixed, c', clk')) :
    mixed.dummyPackets ≤ c.config.maxDummyPacketsPerBurst ∧
      Interleaved (RealFrame c.config.cellBytes) (DummyFrame c.config.cellBytes)
        [] mixed.dummyPackets mixed.frames := by
  obtain ⟨c₁, clk₁, hframes, -, hle, -⟩ := composeKeepalive_eq_some h
  obtain ⟨-, hlen, hall⟩ := dummyFrames_eq_some hframes
  refine ⟨hle, ?_⟩
  have hinter : Interleaved (RealFrame c.config.cellBytes) (DummyFrame c.config.cellBytes)
      [] mixed.frames.length mixed.frames := .of_forall hall
  rwa [hlen] at hinter

end BurstComposer

-- ============================================================================
-- Reading a mixed burst
-- ============================================================================

section Reading

variable {cell : Option Nat} {packets : List Packet} {dummies : Nat} {frames : List MixedFrame}

/-- The real frames are the packets, fitted, in their order. -/
theorem forall₂_packets
    (h : Interleaved (RealFrame cell) (DummyFrame cell) packets dummies frames) :
    List.Forall₂ (Fitted cell) packets (frames.filterMap MixedFrame.packet?) := by
  apply h.forall₂_filterMap
  · rintro p _ ⟨q, rfl, hq⟩
    exact ⟨q, rfl, hq⟩
  · rintro _ ⟨b, rfl, -⟩
    rfl

theorem length_filter_isDummy
    (h : Interleaved (RealFrame cell) (DummyFrame cell) packets dummies frames) :
    (frames.filter MixedFrame.isDummy).length = dummies := by
  apply h.length_filter
  · rintro p _ ⟨q, rfl, -⟩
    rfl
  · rintro _ ⟨b, rfl, -⟩
    rfl

/-- With a cell size, every frame has it. -/
theorem forall_len_eq {n : Nat}
    (h : Interleaved (RealFrame (some n)) (DummyFrame (some n)) packets dummies frames) :
    ∀ f ∈ frames, f.len = n := by
  refine h.forall_mem ?_ ?_
  · rintro p _ ⟨q, rfl, hq⟩
    exact hq.len_eq
  · rintro _ ⟨b, rfl, hb⟩
    exact hb n rfl

end Reading

/-- **A mixed burst conserves its packets.**  Whatever the draws, the real frames are the
    packets of the burst in order, unchanged without a cell size and else cut or extended
    to it; there are as many dummies as the burst says, and with a cell size every frame
    has it. -/
theorem compose_conserves {c c' : BurstComposer ρ} {clk clk' : Clock} {burst : Burst}
    {mixed : MixedBurst} (h : c.compose F clk burst = some (mixed, c', clk')) :
    List.Forall₂ (Fitted c.config.cellBytes) burst.packets
        (mixed.frames.filterMap MixedFrame.packet?) ∧
      (mixed.frames.filter MixedFrame.isDummy).length = mixed.dummyPackets ∧
      mixed.totalPackets = mixed.realPackets + mixed.dummyPackets ∧
      ∀ n, c.config.cellBytes = some n → ∀ f ∈ mixed.frames, f.len = n := by
  obtain ⟨hreal, -, hinter⟩ := BurstComposer.compose_interleaved h
  refine ⟨forall₂_packets hinter, length_filter_isDummy hinter, ?_, fun n hn => ?_⟩
  · rw [hreal]
    exact hinter.length_eq
  · rw [hn] at hinter
    exact forall_len_eq hinter

/-- The sample burst in cells of 514 bytes. -/
theorem compose_conserves_sample :
    ∃ (c c' : BurstComposer FixedRng) (clk' : Clock) (mixed : MixedBurst),
      c.compose F64.steep (.const 1) sampleBurst = some (mixed, c', clk') ∧
        List.Forall₂ (Fitted (some 514)) sampleBurst.packets
          (mixed.frames.filterMap MixedFrame.packet?) ∧
        (mixed.frames.filter MixedFrame.isDummy).length = mixed.dummyPackets ∧
        mixed.totalPackets = mixed.realPackets + mixed.dummyPackets ∧
        ∀ f ∈ mixed.frames, f.len = 514 := by
  obtain ⟨c, c', clk', mixed, hcell, h⟩ := exists_compose_sample
  obtain ⟨hreal, hdummy, htotal, hlen⟩ := compose_conserves h
  rw [hcell] at hreal
  exact ⟨c, c', clk', mixed, h, hreal, hdummy, htotal, hlen 514 hcell⟩

end MixTor
