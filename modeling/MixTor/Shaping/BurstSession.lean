/-
  MixTor.Shaping.BurstSession

  Bursts into a session (composition.rs) and into its departure clock
  (timing_correlator.rs): what a burst leaves behind when the queue fills up.

  Both loops push one packet at a time and return at the first that finds no room.
  The packets before it stay in the queue, and the session has already booked the
  whole burst in its length pools and charged the budget.
-/

import MixTor.Shaping.ComposerSound

namespace MixTor

open Crypto (Bytes Key Blake3)

-- ============================================================================
-- The departure clock
-- ============================================================================

namespace TimingCorrelator

variable {ρ : Type} {F : F64}

/-- `inject_burst`, with the packets injected so far.  On an error the clock is left as
    the last packet that was injected left it. -/
def injectBurstFrom (F : F64) : Nat → Clock → TimingCorrelator ρ → List Packet →
    Except TimingCorrelatorError Nat × TimingCorrelator ρ × Clock
  | count, clk, tc, [] => (.ok count, tc, clk)
  | count, clk, tc, packet :: packets =>
      match tc.injectReal F clk packet with
      | (.ok tc, clk) => injectBurstFrom F (count + 1) clk tc packets
      | (.error e, clk) => (.error e, tc, clk)

/-- Inject the packets of a burst. -/
def injectBurst (F : F64) (clk : Clock) (tc : TimingCorrelator ρ) (packets : List Packet) :
    Except TimingCorrelatorError Nat × TimingCorrelator ρ × Clock :=
  injectBurstFrom F 0 clk tc packets

/-- A full queue takes nothing. -/
theorem injectReal_of_full {tc : TimingCorrelator ρ} (clk : Clock) (packet : Packet)
    (h : tc.config.maxQueueDepth ≤ tc.realQueue.length) :
    tc.injectReal F clk packet = (.error .queueFull, clk) := by
  rw [injectReal, dif_pos h]

/-- A queue with room takes the packet, at any rate of the clock. -/
theorem injectReal_of_room {tc : TimingCorrelator ρ} (clk : Clock) (packet : Packet)
    (h : tc.realQueue.length < tc.config.maxQueueDepth) :
    ∃ tc' clk', tc.injectReal F clk packet = (.ok tc', clk') ∧
      tc'.realQueue = tc.realQueue ++ [packet] ∧ tc'.config = tc.config := by
  rw [injectReal, dif_neg (not_le.mpr h)]
  simp only
  split
  · split
    · exact ⟨_, _, rfl, rfl, rfl⟩
    · exact ⟨_, _, rfl, rfl, rfl⟩
  · exact ⟨_, _, rfl, rfl, rfl⟩

/-- The places that are left. -/
def room (tc : TimingCorrelator ρ) : Nat := tc.config.maxQueueDepth - tc.realQueue.length

/-- **What a burst does to the queue.**  As many packets as there is room for are
    queued; the burst fails exactly if that is not all of them. -/
theorem injectBurstFrom_spec (count : Nat) (clk : Clock) (tc : TimingCorrelator ρ)
    (packets : List Packet) :
    ∃ tc' clk', injectBurstFrom F count clk tc packets
        = (if packets.length ≤ tc.room then .ok (count + packets.length) else .error .queueFull,
            tc', clk') ∧
      tc'.realQueue = tc.realQueue ++ packets.take tc.room := by
  induction packets generalizing count clk tc with
  | nil => exact ⟨tc, clk, rfl, by rw [List.take_nil, List.append_nil]⟩
  | cons packet packets ih =>
      unfold injectBurstFrom
      rcases Nat.lt_or_ge tc.realQueue.length tc.config.maxQueueDepth with hlt | hge
      · obtain ⟨tc₁, clk₁, hinj, hq, hcfg⟩ := injectReal_of_room (F := F) clk packet hlt
        obtain ⟨tc₂, clk₂, hrest, hq₂⟩ := ih (count + 1) clk₁ tc₁
        have hroom : tc.room = tc₁.room + 1 := by
          rw [room, room, hq, hcfg, List.length_append, List.length_singleton]
          omega
        rw [hinj]
        refine ⟨tc₂, clk₂, ?_, ?_⟩
        · show injectBurstFrom F (count + 1) clk₁ tc₁ packets = _
          rw [hrest, hroom, List.length_cons]
          simp only [Nat.add_le_add_iff_right, Nat.add_assoc, Nat.add_comm 1]
        · rw [hq₂, hq, hroom, List.take_succ_cons, List.append_assoc, List.singleton_append]
      · have hroom : tc.room = 0 := Nat.sub_eq_zero_of_le hge
        rw [injectReal_of_full clk packet hge, hroom]
        exact ⟨tc, clk, rfl, by rw [List.take_zero, List.append_nil]⟩

/-- All or nothing: a burst that fails leaves the queue as it was. -/
def BurstAtomic (F : F64) (clk : Clock) (tc : TimingCorrelator ρ) (packets : List Packet) : Prop :=
  ∀ tc' clk', tc.injectBurst F clk packets = (.error .queueFull, tc', clk') →
    tc'.realQueue = tc.realQueue

/-- A burst is all or nothing exactly if there is room for all of it, or for nothing. -/
theorem burstAtomic_iff {clk : Clock} {tc : TimingCorrelator ρ} {packets : List Packet} :
    tc.BurstAtomic F clk packets ↔ packets.length ≤ tc.room ∨ tc.room = 0 := by
  obtain ⟨tc', clk', hinj, hq⟩ := injectBurstFrom_spec (F := F) 0 clk tc packets
  constructor
  · intro h
    by_contra hn
    obtain ⟨hfit, hroom⟩ := not_or.mp hn
    rw [if_neg hfit] at hinj
    have hkeep := h tc' clk' hinj
    rw [hq, List.append_right_eq_self, List.take_eq_nil_iff] at hkeep
    rcases hkeep with h0 | hnil
    · exact hroom h0
    · exact hfit (by rw [hnil]; exact Nat.zero_le _)
  · rintro h tc'' clk'' hfail
    have heq := hinj.symm.trans hfail
    rcases h with hfit | hroom
    · rw [if_pos hfit] at heq
      cases heq
    · obtain ⟨rfl, -⟩ := Prod.mk.inj (Prod.mk.inj heq).2
      rw [hq, hroom, List.take_zero, List.append_nil]

end TimingCorrelator

-- ============================================================================
-- The session
-- ============================================================================

/-- `ShapedSession` with the composer's burst path. -/
structure BurstSession (ρ : Type) where
  composer : BurstComposer ρ
  correlator : TimingCorrelator ρ

/-- What the composer books of a burst: the two length pools, the privacy accountant and
    the counters of the regime. -/
structure Accounting where
  lengthPool : LengthPool
  padderPool : List Nat
  accountant : PrivacyAccountant
  regime : RatioRegime
  burstsInRegime : Nat
  realBytesInRegime : Nat
  realPacketsInRegime : Nat
  deriving DecidableEq

def BurstComposer.accounting {ρ : Type} (c : BurstComposer ρ) : Accounting where
  lengthPool := c.lengthPool
  padderPool := c.optimalPadder.lengthPool
  accountant := c.accountant
  regime := c.regime
  burstsInRegime := c.burstsInRegime
  realBytesInRegime := c.realBytesInRegime
  realPacketsInRegime := c.realPacketsInRegime

namespace BurstSession

variable {ρ : Type} [Rng ρ] {F : F64}

/-- Build a session from a seed. -/
def new (F : F64) (H : Blake3) (clk : Clock) (seed : RoleSeed) (config : BurstConfig) :
    Option (Except ComposerError (BurstSession ρ × Clock)) :=
  match config.cellBytes with
  | none => some (.error (.composition (.invalidConfig
      "ShapedSession requires cell_bytes to be set for size uniformity")))
  | some cell =>
      match TimingCorrelator.new F clk
          (ShapedSession.correlatorConfig F config.toCompositionConfig cell)
          (ShapedSession.correlatorRng H seed.toEphemeralSeed : ρ) with
      | none => none
      | some (.error (.invalidConfig msg)) => some (.error (.composition (.invalidConfig msg)))
      | some (.error .queueFull) =>
          some (.error (.composition (.invalidConfig "correlator queue full during init")))
      | some (.ok (correlator, clk)) => do
          match ← BurstComposer.withConfig F H clk seed config with
          | .error e => return .error e
          | .ok (composer, clk) => return .ok (⟨composer, correlator⟩, clk)

/-- Inject a real packet, padded to the cell size. -/
def injectReal (F : F64) (clk : Clock) (s : BurstSession ρ) (packet : Packet) :
    Option (Except CompositionError Unit × BurstSession ρ × Clock) := do
  let (padded, composer) ← s.composer.padRealPacket packet
  match s.correlator.injectReal F clk padded with
  | (.ok correlator, clk) => return (.ok (), ⟨composer, correlator⟩, clk)
  | (.error e, clk) => return (.error (ShapedSession.ofCorrelatorError e), { s with composer }, clk)

/-- The loop of `inject_burst`, with the packets injected so far. -/
def injectPackets (F : F64) : Nat → Clock → BurstSession ρ → List Packet →
    Option (Except CompositionError Nat × BurstSession ρ × Clock)
  | injected, clk, s, [] => some (.ok injected, s, clk)
  | injected, clk, s, packet :: packets => do
      let (r, s, clk) ← s.injectReal F clk packet
      match r with
      | .ok () => injectPackets F (injected + 1) clk s packets
      | .error e => return (.error e, s, clk)

/-- Inject all packets of a real burst.  The number of dummies is drawn and charged, and
    left to the idle slots of the clock. -/
def injectBurst (F : F64) (clk : Clock) (s : BurstSession ρ) (burst : Burst) :
    Option (Except CompositionError Nat × BurstSession ρ × Clock) := do
  let (_, composer) ←
    (s.composer.ingestPackets burst.packets).dummyCountForBurst F burst.totalBytes
  let (r, s, clk) ← injectPackets F 0 clk { s with composer } burst.packets
  match r with
  | .error e => return (.error e, s, clk)
  | .ok injected =>
      let (composer, clk) ← s.composer.finishBurst F clk burst
      return (.ok injected, { s with composer }, clk)

-- ============================================================================
-- Where a burst ends
-- ============================================================================

/-- The packet has to grow to a cell that no vector holds, and padding it panics. -/
def Unpaddable (config : BurstConfig) (packet : Packet) : Prop :=
  ∃ cell, config.cellBytes = some cell ∧ packet.len < cell ∧ isizeMax < cell

section OnePacket

variable {s : BurstSession ρ} {packet : Packet} (clk : Clock)

theorem injectReal_of_unpaddable (h : Unpaddable s.composer.config packet) :
    s.injectReal F clk packet = none := by
  rw [injectReal, BurstComposer.padRealPacket_eq_none.mpr h]
  rfl

theorem exists_padRealPacket (h : ¬ Unpaddable s.composer.config packet) :
    ∃ p rng, s.composer.padRealPacket packet = some (p, { s.composer with rng }) := by
  cases hpad : s.composer.padRealPacket packet with
  | none => exact absurd (BurstComposer.padRealPacket_eq_none.mp hpad) h
  | some r =>
      obtain ⟨rng, hr⟩ := BurstComposer.padRealPacket_eq_some hpad
      exact ⟨r.1, rng, by rw [← hr]⟩

/-- A packet that finds no room has moved the generator, if it was padded. -/
theorem injectReal_of_full (h : ¬ Unpaddable s.composer.config packet)
    (hroom : s.correlator.room = 0) :
    ∃ rng, s.injectReal F clk packet
      = some (.error .queueFull, ⟨{ s.composer with rng }, s.correlator⟩, clk) := by
  obtain ⟨p, rng, hpad⟩ := exists_padRealPacket h
  refine ⟨rng, ?_⟩
  rw [injectReal, hpad]
  show (match s.correlator.injectReal F clk p with | (.ok _, _) => _ | (.error _, _) => _) = _
  rw [TimingCorrelator.injectReal_of_full clk p (Nat.le_of_sub_eq_zero hroom)]
  rfl

theorem injectReal_of_room {k : Nat} (h : ¬ Unpaddable s.composer.config packet)
    (hroom : s.correlator.room = k + 1) :
    ∃ rng tc clk', s.injectReal F clk packet
      = some (.ok (), ⟨{ s.composer with rng }, tc⟩, clk') ∧ tc.room = k := by
  obtain ⟨p, rng, hpad⟩ := exists_padRealPacket h
  have hlt : s.correlator.realQueue.length < s.correlator.config.maxQueueDepth := by
    rw [TimingCorrelator.room] at hroom
    omega
  obtain ⟨tc, clk', hinj, hq, hcfg⟩ :=
    TimingCorrelator.injectReal_of_room (F := F) clk p hlt
  refine ⟨rng, tc, clk', ?_, ?_⟩
  · rw [injectReal, hpad]
    show (match s.correlator.injectReal F clk p with | (.ok _, _) => _ | (.error _, _) => _) = _
    rw [hinj]
    rfl
  · rw [TimingCorrelator.room] at hroom ⊢
    rw [hq, hcfg, List.length_append, List.length_singleton]
    omega

end OnePacket

/-- A packet up to the first without room cannot be padded: the loop panics. -/
theorem injectPackets_of_unpaddable {n : Nat} {clk : Clock} {s : BurstSession ρ}
    {packets : List Packet}
    (h : ∃ p ∈ packets.take (s.correlator.room + 1), Unpaddable s.composer.config p) :
    injectPackets F n clk s packets = none := by
  induction packets generalizing n clk s with
  | nil =>
      obtain ⟨p, hp, -⟩ := h
      rw [List.take_nil] at hp
      cases hp
  | cons packet packets ih =>
      rw [injectPackets]
      by_cases hpacket : Unpaddable s.composer.config packet
      · rw [injectReal_of_unpaddable clk hpacket]
        rfl
      · obtain ⟨p, hp, hunp⟩ := h
        rw [List.take_succ_cons, List.mem_cons] at hp
        obtain rfl | hp := hp
        · exact absurd hunp hpacket
        · cases hroom : s.correlator.room with
          | zero =>
              rw [hroom, List.take_zero] at hp
              cases hp
          | succ k =>
              obtain ⟨rng, tc, clk', hinj, hk⟩ := injectReal_of_room (F := F) clk hpacket hroom
              rw [hinj]
              refine ih ⟨p, ?_, hunp⟩
              rwa [hroom, ← hk] at hp

/-- A burst that does not fit fails at the first packet without room. -/
theorem injectPackets_of_full (n : Nat) (clk : Clock) {s : BurstSession ρ}
    {packets : List Packet}
    (hpad : ∀ p ∈ packets.take (s.correlator.room + 1), ¬ Unpaddable s.composer.config p)
    (hfull : s.correlator.room < packets.length) :
    ∃ rng tc clk', injectPackets F n clk s packets
      = some (.error .queueFull, ⟨{ s.composer with rng }, tc⟩, clk') := by
  induction packets generalizing n clk s with
  | nil => cases hfull
  | cons packet packets ih =>
      rw [List.take_succ_cons] at hpad
      obtain ⟨hpacket, hpad⟩ := List.forall_mem_cons.mp hpad
      rw [injectPackets]
      cases hroom : s.correlator.room with
      | zero =>
          obtain ⟨rng, hinj⟩ := injectReal_of_full (F := F) clk hpacket hroom
          rw [hinj]
          exact ⟨rng, s.correlator, clk, rfl⟩
      | succ k =>
          obtain ⟨rng, tc, clk', hinj, hk⟩ := injectReal_of_room (F := F) clk hpacket hroom
          rw [hinj]
          rw [hroom, ← hk] at hpad
          rw [hroom, List.length_cons, ← hk] at hfull
          exact ih _ _ hpad (Nat.lt_of_succ_lt_succ hfull)

/-- A burst that fits never fails. -/
theorem injectPackets_of_fits {n : Nat} {clk clk' : Clock} {s s' : BurstSession ρ}
    {packets : List Packet} {r : Except CompositionError Nat}
    (hfit : packets.length ≤ s.correlator.room)
    (h : injectPackets F n clk s packets = some (r, s', clk')) : ∃ m, r = .ok m := by
  induction packets generalizing n clk s with
  | nil => exact ⟨n, (Prod.mk.inj (Option.some.inj h)).1.symm⟩
  | cons packet packets ih =>
      rw [injectPackets] at h
      by_cases hpacket : Unpaddable s.composer.config packet
      · rw [injectReal_of_unpaddable clk hpacket] at h
        cases h
      · obtain ⟨k, hroom⟩ : ∃ k, s.correlator.room = k + 1 :=
          ⟨s.correlator.room - 1, by rw [List.length_cons] at hfit; omega⟩
        obtain ⟨rng, tc, clk₁, hinj, hk⟩ := injectReal_of_room (F := F) clk hpacket hroom
        rw [hinj] at h
        refine ih ?_ h
        rw [hroom, List.length_cons] at hfit
        rw [hk]
        exact Nat.le_of_succ_le_succ hfit

-- ============================================================================
-- All or nothing
-- ============================================================================

/-- All or nothing: a burst that finds the queue full leaves the queue and the books as
    they were. -/
def Atomic (F : F64) (clk : Clock) (s : BurstSession ρ) (burst : Burst) : Prop :=
  ∀ s' clk', s.injectBurst F clk burst = some (.error .queueFull, s', clk') →
    s'.correlator.realQueue = s.correlator.realQueue ∧
      s'.composer.accounting = s.composer.accounting

omit [Rng ρ] in
/-- Every packet of a burst is booked in the padder's pool, before any is queued. -/
theorem padderPool_ingestPackets (c : BurstComposer ρ) (packets : List Packet) :
    (c.ingestPackets packets).accounting.padderPool
      = c.accounting.padderPool ++ packets.map Packet.len := by
  induction packets generalizing c with
  | nil => exact (List.append_nil _).symm
  | cons p packets ih => exact (ih (c.ingestPacket p)).trans (List.append_assoc _ _ _)

/-- A burst that does not fit, and does not panic before it fails, has been booked. -/
theorem not_atomic_of_full {clk : Clock} {s : BurstSession ρ} {burst : Burst}
    (hfull : s.correlator.room < burst.packets.length) (hdraw : s.composer.BudgetDrawable)
    (hpad : ∀ p ∈ burst.packets.take (s.correlator.room + 1),
      ¬ Unpaddable s.composer.config p) : ¬ s.Atomic F clk burst := by
  obtain ⟨count, c, hcount⟩ := BurstComposer.exists_dummyCountForBurst (F := F)
    ((BurstComposer.budgetDrawable_ingestPackets burst.packets).mpr hdraw) burst.totalBytes
  obtain ⟨hcfg, hpadder⟩ : c.config = s.composer.config ∧
      c.accounting.padderPool = (s.composer.ingestPackets burst.packets).accounting.padderPool := by
    obtain ⟨-, _, _, _, rfl, -⟩ := BurstComposer.dummyCountForBurst_eq_some hcount
    refine ⟨?_, rfl⟩
    rw [BurstComposer.ingestPackets_eq]
  obtain ⟨rng, tc, clk', hinj⟩ := injectPackets_of_full (F := F) 0 clk
    (s := ⟨c, s.correlator⟩) (by rwa [hcfg]) hfull
  intro hatomic
  have hres : s.injectBurst F clk burst
      = some (.error .queueFull, ⟨{ c with rng }, tc⟩, clk') := by
    rw [injectBurst, hcount]
    show (injectPackets F 0 clk _ burst.packets).bind _ = _
    rw [hinj]
    rfl
  have hbooks : c.accounting.padderPool = s.composer.accounting.padderPool :=
    congrArg Accounting.padderPool (hatomic _ _ hres).2
  rw [hpadder, padderPool_ingestPackets, List.append_right_eq_self, List.map_eq_nil_iff] at hbooks
  rw [hbooks] at hfull
  cases hfull

/-- **When a burst is all or nothing.**  Exactly if there is room for all of it, or if the
    call panics before it can fail. -/
theorem atomic_iff {clk : Clock} {s : BurstSession ρ} {burst : Burst} :
    s.Atomic F clk burst ↔ burst.packets.length ≤ s.correlator.room ∨
      ¬ s.composer.BudgetDrawable ∨
      ∃ p ∈ burst.packets.take (s.correlator.room + 1), Unpaddable s.composer.config p := by
  constructor
  · intro hatomic
    by_contra hn
    obtain ⟨hfull, hn⟩ := not_or.mp hn
    obtain ⟨hdraw, hpad⟩ := not_or.mp hn
    exact not_atomic_of_full (not_le.mp hfull) (not_not.mp hdraw)
      (fun p hp hunp => hpad ⟨p, hp, hunp⟩) hatomic
  · intro h s' clk' hfail
    exfalso
    obtain ⟨⟨count, c⟩, hcount, hfail⟩ := Option.bind_eq_some_iff.mp hfail
    obtain ⟨⟨r, s₁, clk₁⟩, hinj, hfail⟩ := Option.bind_eq_some_iff.mp hfail
    rcases h with hfit | hdraw | hunp
    · obtain ⟨m, rfl⟩ := injectPackets_of_fits (s := ⟨c, s.correlator⟩) hfit hinj
      obtain ⟨⟨c', clk₂⟩, -, hfail⟩ := Option.bind_eq_some_iff.mp hfail
      cases hfail
    · rw [← BurstComposer.budgetDrawable_ingestPackets burst.packets] at hdraw
      rw [BurstComposer.dummyCountForBurst_eq_none.mpr hdraw] at hcount
      cases hcount
    · obtain ⟨-, _, _, _, rfl, -⟩ := BurstComposer.dummyCountForBurst_eq_some hcount
      rw [injectPackets_of_unpaddable] at hinj
      · cases hinj
      · rwa [BurstComposer.ingestPackets_eq]

/-- A new session has its composer and an empty queue of four times the maximum, as a
    usize. -/
theorem new_eq_ok {H : Blake3} {clk clk' : Clock} {seed : RoleSeed} {config : BurstConfig}
    {s : BurstSession ρ} (h : new F H clk seed config = some (.ok (s, clk'))) :
    (∃ clk₁ clk₂, BurstComposer.withConfig F H clk₁ seed config = some (.ok (s.composer, clk₂))) ∧
      s.correlator.realQueue = [] ∧
      s.correlator.config.maxQueueDepth = config.maxDummyPacketsPerBurst * 4 % 2 ^ 64 := by
  unfold new at h
  split at h
  · cases h
  · next cell hcell =>
    split at h
    · cases h
    · cases h
    · cases h
    · next correlator clk₁ hnew =>
      obtain ⟨r, hcomposer, h⟩ := Option.bind_eq_some_iff.mp h
      obtain ⟨hcfg, hq, -⟩ := TimingCorrelator.new_eq_ok hnew
      cases r with
      | error e => cases h
      | ok r =>
          obtain ⟨composer, clk₂⟩ := r
          obtain ⟨rfl, -⟩ := Prod.mk.inj (Except.ok.inj (Option.some.inj h))
          exact ⟨⟨clk₁, clk₂, hcomposer⟩, hq, by rw [hcfg]; rfl⟩

/-- The constructor accepts the sample configuration. -/
theorem exists_new_sample (clk : Clock) :
    ∃ s clk', new F64.steep (.fill 2) clk sampleSeed
        (BurstComposer.sampleConfig 32 (.finite (1 / 2)))
      = some (.ok ((s : BurstSession ρ), clk')) := by
  have hv : (ShapedSession.correlatorConfig F64.steep
      (BurstComposer.sampleConfig 32 (.finite (1 / 2))).toCompositionConfig 514).Valid := by
    constructor <;> decide +kernel
  have hord : (ShapedSession.correlatorConfig F64.steep
      (BurstComposer.sampleConfig 32 (.finite (1 / 2))).toCompositionConfig 514).minIatMs.le
      (ShapedSession.correlatorConfig F64.steep
        (BurstComposer.sampleConfig 32 (.finite (1 / 2))).toCompositionConfig 514).maxIatMs
      = true := by
    decide +kernel
  have hmax : 0 < 32 := by decide
  obtain ⟨c, clk', hc⟩ := BurstComposer.exists_sample (ρ := ρ) hmax BurstComposer.half_pos
    (.fill 2) sampleSeed.bytes (TimingCorrelator.start F64.steep clk _ hv hord
      (ShapedSession.correlatorRng (.fill 2) sampleSeed.toEphemeralSeed : ρ)).2
  refine ⟨⟨c, (TimingCorrelator.start F64.steep clk _ hv hord
    (ShapedSession.correlatorRng (.fill 2) sampleSeed.toEphemeralSeed)).1⟩, clk', ?_⟩
  have hcell : (BurstComposer.sampleConfig 32 (.finite (1 / 2))).cellBytes = some 514 := rfl
  rw [new, hcell]
  simp only [TimingCorrelator.new_of_valid hv hord]
  show (BurstComposer.withConfig _ _ _ ⟨⟨sampleSeed.bytes⟩, .burstComposition⟩ _).bind _ = _
  rw [hc]
  rfl

end BurstSession

/-- **When injecting a burst is all or nothing.**  For a session: exactly if the queue has
    room for the whole burst, or the call panics before it can fail (the budget cannot be
    drawn, or a packet up to the first without room cannot be padded).  For the departure
    clock alone: exactly if there is room for the whole burst, or for no packet. -/
theorem injectBurst_atomic_iff {ρ : Type} [Rng ρ] (F : F64) (clk : Clock) :
    (∀ (s : BurstSession ρ) (burst : Burst),
      s.Atomic F clk burst ↔ burst.packets.length ≤ s.correlator.room ∨
        ¬ s.composer.BudgetDrawable ∨
        ∃ p ∈ burst.packets.take (s.correlator.room + 1),
          BurstSession.Unpaddable s.composer.config p) ∧
      ∀ (tc : TimingCorrelator ρ) (packets : List Packet),
        tc.BurstAtomic F clk packets ↔ packets.length ≤ tc.room ∨ tc.room = 0 :=
  ⟨fun _ _ => BurstSession.atomic_iff, fun _ _ => TimingCorrelator.burstAtomic_iff⟩

/-- A burst of 129 packets, one more than the queue of the default session holds. -/
def overfullBurst : Burst :=
  ⟨List.replicate 129 oneBytePacket, ⟨129, 5⟩, .sizeThreshold⟩

/-- A new session refuses the burst, but has queued 128 of its packets and booked all. -/
theorem injectBurst_not_atomic :
    ∃ (s : BurstSession FixedRng) (clk' : Clock),
      BurstSession.new F64.steep (.fill 2) (.const 0) sampleSeed
          (BurstComposer.sampleConfig 32 (.finite (1 / 2))) = some (.ok (s, clk')) ∧
        ¬ s.Atomic F64.steep (.const 1) overfullBurst ∧
        ¬ s.correlator.BurstAtomic F64.steep (.const 1) overfullBurst.packets := by
  obtain ⟨s, clk', h⟩ := BurstSession.exists_new_sample (ρ := FixedRng) (.const 0)
  obtain ⟨⟨clk₁, clk₂, hcomposer⟩, hq, hdepth⟩ := BurstSession.new_eq_ok h
  obtain ⟨-, hs, -, -⟩ := BurstComposer.withConfig_eq_ok hcomposer
  have hroom : s.correlator.room = 128 := by
    rw [TimingCorrelator.room, hq, hdepth]
    rfl
  have hlen : overfullBurst.packets.length = 129 := List.length_replicate
  refine ⟨s, clk', h, ?_, ?_⟩
  · refine BurstSession.not_atomic_of_full (by rw [hroom, hlen]; decide)
      (BurstComposer.budgetDrawable_sample hcomposer) ?_
    rintro p - ⟨cell, hcell, -, hgt⟩
    rw [hs.config_eq] at hcell
    have := BurstComposer.sampleConfig_cellFits _ _ cell hcell
    omega
  · rw [TimingCorrelator.burstAtomic_iff, hroom, hlen]
    decide

end MixTor
