/-
  MixTor.Shaping.VerifySession

  The session that the verification binary simulates (`simulate_session` in bin/verify.rs):
  packets go into a pool, and every burst that leaves it gets a timing decision and is
  mixed by a composer.

  The pool, the scheduler and the composer are those of the other modules.  The session
  neither loses nor reorders a packet, and no engine panics.
-/

import MixTor.Shaping.ComposerRuns
import MixTor.Shaping.SessionSeeds
import MixTor.Shaping.TimingScheduler

namespace MixTor

open Crypto (Blake3)

-- ============================================================================
-- The session
-- ============================================================================

def sessionClumping : ClumpingConfig := ⟨2, 7, .fromMillis 12, .fromMillis 85⟩

def sessionTiming : TimingConfig where
  minDelay := .fromMillis 4
  maxDelay := .fromMillis 180
  minRegimeBytes := 4 * 1024
  maxRegimeBytes := 48 * 1024
  minRegimePackets := 16
  maxRegimePackets := 128
  clumping := sessionClumping

/-- A burst of the session: its decision, and what the composer has made of it. -/
structure SampledBurst where
  decision : TimingDecision
  mixed : MixedBurst

/-- The engines of a session, and the bursts so far. -/
structure Simulation (ρ : Type) where
  pool : ClumpingPool ρ
  timing : SeedATimingScheduler ρ
  composer : BurstComposer ρ
  clk : Clock
  bursts : List SampledBurst

/-- `Box<dyn Error>` of the constructors. -/
inductive SessionError where
  | clumping (e : ClumpingConfigError)
  | timing (e : TimingError)
  | composer (e : ComposerError)
  deriving DecidableEq, Repr

namespace Simulation

variable {ρ : Type} [DistrRng ρ]

/-- The body of the loop over the bursts that leave the pool. -/
def mix (F : F64) (s : Simulation ρ) (burst : Burst) : Option (Simulation ρ) := do
  let (decision, timing) ← s.timing.nextDecision F
  let timing ← timing.observeBurst burst.totalBytes burst.packetCount
  let (mixed, composer, clk) ← s.composer.compose F s.clk burst
  return { s with timing, composer, clk, bursts := s.bursts ++ [⟨decision, mixed⟩] }

/-- The body of the loop over the packets. -/
def push (F : F64) (now : Instant) (s : Simulation ρ) (packet : Packet) :
    Option (Simulation ρ) := do
  let (bursts, pool) ← s.pool.push packet now
  Machine.run (mix F) { s with pool } bursts

/-- What is left in the pool at the end. -/
def flush (F : F64) (now : Instant) (s : Simulation ρ) : Option (Simulation ρ) := do
  let (burst, pool) ← s.pool.flush now
  Machine.run (mix F) { s with pool } burst.toList

/-- Both loops; `none` is a panic. -/
def run (F : F64) (now : Instant) (s : Simulation ρ) (packets : List Packet) :
    Option (Simulation ρ) :=
  (Machine.run (push F now) s packets).bind (flush F now)

end Simulation

/-- `simulate_session` up to its samples, for any packets in the place of
    `syntheticPackets`. -/
def simulateSession (ρ : Type) [DistrRng ρ] (F : F64) (H : Blake3) (seeds : SessionSeeds)
    (clk : Clock) (packets : List Packet) : Option (Except SessionError (List SampledBurst)) :=
  match ClumpingPool.withConfig H seeds.timingAndPool sessionClumping with
  | .error e => some (.error (.clumping e))
  | .ok none => none
  | .ok (some pool) =>
      match SeedATimingScheduler.withConfig H seeds.timingAndPool sessionTiming with
      | .error e => some (.error (.timing e))
      | .ok none => none
      | .ok (some timing) =>
          match BurstComposer.withConfig F H clk seeds.burstComposition .default with
          | none => none
          | some (.error e) => some (.error (.composer e))
          | some (.ok (composer, clk)) =>
              ((⟨pool, timing, composer, clk.later, []⟩ : Simulation ρ).run F clk.now packets).map
                fun s => .ok s.bursts

def packetsPerSession : Nat := 6000

/-- The length of the synthetic packet of an index. -/
def syntheticLen (index : Nat) : Nat :=
  [72, 96, 128, 256, 384, 640, 900, 1180].getD (index % 8) 0 + index * 37 % 2 ^ 64 % 61

theorem syntheticLen_mem (index : Nat) : 72 ≤ syntheticLen index ∧ syntheticLen index ≤ 1240 := by
  have hpattern : ∀ i < 8, 72 ≤ [72, 96, 128, 256, 384, 640, 900, 1180].getD i 0 ∧
      [72, 96, 128, 256, 384, 640, 900, 1180].getD i 0 ≤ 1180 := by decide
  obtain ⟨hlo, hhi⟩ := hpattern (index % 8) (Nat.mod_lt _ (by decide))
  have hjitter : index * 37 % 2 ^ 64 % 61 < 61 := Nat.mod_lt _ (by decide)
  rw [syntheticLen]
  omega

def syntheticPacket (index : Nat) : Packet where
  bytes := List.replicate (syntheticLen index) (UInt8.ofNat (index % 251))
  nonempty := by
    have hpos := (syntheticLen_mem index).1
    exact List.ne_nil_of_length_pos (by rw [List.length_replicate]; omega)

def syntheticPackets : List Packet := (List.range packetsPerSession).map syntheticPacket

-- ============================================================================
-- One burst
-- ============================================================================

/-- The real packets among the frames. -/
def MixedBurst.packets (m : MixedBurst) : List Packet := m.frames.filterMap MixedFrame.packet?

/-- What holds of every burst of a session: whole cells, few packets, and a decision within
    the bounds. -/
structure SampledBurst.Sampled (b : SampledBurst) : Prop where
  decision : b.decision.InBounds sessionTiming
  real : b.mixed.packets.length = b.mixed.realPackets
  real_pos : 0 < b.mixed.realPackets
  real_le : b.mixed.realPackets ≤ 7
  dummy_le : b.mixed.dummyPackets ≤ 32
  total : b.mixed.totalPackets = b.mixed.realPackets + b.mixed.dummyPackets
  cells : ∀ f ∈ b.mixed.frames, f.len = 514

theorem sessionTiming_valid : sessionTiming.Valid where
  minDelay_pos := by decide
  minDelay_le := by decide
  minBytes_pos := by decide
  minPackets_pos := by decide
  minBytes_le := by decide
  minPackets_le := by decide
  clumping := by decide

theorem sessionTiming_representable {F : F64} (hF : F.Nearest) :
    sessionTiming.Representable F :=
  (TimingConfig.representable_iff hF.toLawful sessionTiming_valid (by decide) (by decide)).mpr
    ⟨by decide, by decide⟩

namespace Simulation

variable {ρ : Type} [DistrRng ρ] {F : F64}

/-- The engines keep to their configurations, and the packets `done` have left in cells. -/
structure Mixing (done : List Packet) (s : Simulation ρ) : Prop where
  timing : s.timing.config = sessionTiming
  composer : s.composer.Sound .default
  ranged : BurstComposer.Ranged s.composer.regime
  mixed : List.Forall₂ (Fitted (some 514)) done (s.bursts.flatMap fun b => b.mixed.packets)
  sampled : ∀ b ∈ s.bursts, b.Sampled

/-- A burst that the composer can take. -/
structure Small (burst : Burst) : Prop where
  nonempty : burst.packets ≠ []
  length_le : burst.packets.length ≤ 7
  fits : ∀ p ∈ burst.packets, p.len ≤ isizeMax

theorem default_fits {burst : Burst} (h : Small burst) :
    BurstComposer.Fits BurstConfig.default burst where
  packets := h.fits
  frames := by
    have hle := h.length_le
    show (burst.packets.length + 32) * 32 ≤ isizeMax
    rw [isizeMax]
    omega

/-- What the composer makes of a small burst. -/
theorem exists_compose {c : BurstComposer ρ} (hs : c.Sound .default)
    (hranged : BurstComposer.Ranged c.regime) {burst : Burst} (hsmall : Small burst)
    (clk : Clock) :
    ∃ mixed c' clk', c.compose F clk burst = some (mixed, c', clk') ∧ c'.Sound .default ∧
      BurstComposer.Ranged c'.regime ∧
      List.Forall₂ (Fitted (some 514)) burst.packets mixed.packets ∧
      mixed.realPackets = burst.packets.length ∧ mixed.dummyPackets ≤ 32 ∧
      mixed.totalPackets = mixed.realPackets + mixed.dummyPackets ∧
      ∀ f ∈ mixed.frames, f.len = 514 := by
  have hcell : BurstConfig.default.CellFits := by
    intro cell hcell
    obtain rfl := Option.some.inj hcell
    decide
  have hdraw : c.BudgetDrawable := by
    refine hs.budgetDrawable hranged fun cfg hcfg => ?_
    obtain rfl := Option.some.inj hcfg
    decide +kernel
  obtain ⟨mixed, c', clk', hmixed, hs'⟩ :=
    hs.exists_compose (F := F) hcell (default_fits hsmall) hdraw clk
  obtain ⟨hreal, hdummy, hinter⟩ := BurstComposer.compose_interleaved hmixed
  have hmax : 12 ≤ c.config.maxDummyPacketsPerBurst := by
    rw [hs.config_eq]
    decide
  have hcall : (ComposerCall.compose clk burst).run F c = some (mixed, c', clk') := hmixed
  have hranged' : BurstComposer.Ranged c'.regime := BurstComposer.run_ranged hmax hranged hcall
  rw [hs.config_eq] at hdummy hinter
  refine ⟨mixed, c', clk', hmixed, hs', hranged', forall₂_packets hinter, hreal, hdummy, ?_,
    forall_len_eq hinter⟩
  rw [hreal]
  exact hinter.length_eq

/-- **Step lemma.**  Every small burst is mixed. -/
theorem Mixing.mix (hF : F.Nearest) {done : List Packet} {s : Simulation ρ} {burst : Burst}
    (h : s.Mixing done) (hsmall : Small burst) :
    ∃ s', s.mix F burst = some s' ∧ s'.pool = s.pool ∧ s'.Mixing (done ++ burst.packets) := by
  have hrep : s.timing.config.Representable F := h.timing ▸ sessionTiming_representable hF
  obtain ⟨decision, timing, hdecision, hbounds, hconfig⟩ :=
    SeedATimingScheduler.exists_nextDecision hF s.timing hrep
  obtain ⟨timing', hobserve, hconfig'⟩ :=
    timing.exists_observeBurst burst.totalBytes burst.packetCount
  obtain ⟨mixed, c', clk', hmixed, hs', hranged', hfitted, hreal, hdummy, htotal, hcells⟩ :=
    exists_compose (F := F) h.composer h.ranged hsmall s.clk
  have hpos := List.length_pos_iff.mpr hsmall.nonempty
  refine ⟨⟨s.pool, timing', c', clk', s.bursts ++ [⟨decision, mixed⟩]⟩, ?_, rfl,
    (hconfig'.trans hconfig).trans h.timing, hs', hranged', ?_, ?_⟩
  · rw [Simulation.mix, hdecision]
    show (timing.observeBurst _ _).bind _ = _
    rw [hobserve]
    show (s.composer.compose F s.clk burst).bind _ = _
    rw [hmixed]
    rfl
  · rw [List.flatMap_append, List.flatMap_singleton]
    exact List.rel_append h.mixed hfitted
  · intro b hb
    rcases List.mem_append.mp hb with hold | hnew
    · exact h.sampled b hold
    · obtain rfl := List.mem_singleton.mp hnew
      have hlength : mixed.packets.length = mixed.realPackets := by
        rw [hreal, hfitted.length_eq]
      exact ⟨h.timing ▸ hbounds, hlength, hreal ▸ hpos, hreal ▸ hsmall.length_le, hdummy, htotal,
        hcells⟩

/-- The loop over the bursts of one call. -/
theorem Mixing.run_mix (hF : F.Nearest) {done : List Packet} {s : Simulation ρ}
    (h : s.Mixing done) {bursts : List Burst} (hsmall : ∀ b ∈ bursts, Small b) :
    ∃ s', Machine.run (Simulation.mix F) s bursts = some s' ∧ s'.pool = s.pool ∧
      s'.Mixing (done ++ bursts.flatMap Burst.packets) := by
  have hstart : s.pool = s.pool ∧ s.Mixing (done ++ ([] : List Burst).flatMap Burst.packets) :=
    ⟨rfl, by rwa [List.flatMap_nil, List.append_nil]⟩
  refine Machine.exists_run_history (E := Small) (J := fun bs (t : Simulation ρ) =>
    t.pool = s.pool ∧ t.Mixing (done ++ bs.flatMap Burst.packets)) ?_ hsmall hstart
  rintro bs t b hb ⟨hpool, ht⟩
  obtain ⟨t', hmix, hpool', ht'⟩ := ht.mix hF hb
  refine ⟨t', hmix, hpool'.trans hpool, ?_⟩
  rwa [List.flatMap_append, List.flatMap_singleton, ← List.append_assoc]

end Simulation

-- ============================================================================
-- The pool
-- ============================================================================

namespace ClumpingPool

variable {ρ : Type} [Rng ρ]

/-- The threshold of the cycle is one of the configuration. -/
def InRange (pool : ClumpingPool ρ) : Prop :=
  pool.thresholds.maxPackets ≤ pool.config.maxPacketsPerBurst

theorem flushReady_inRange {reason : FlushReason} {now : Instant} {pool pool' : ClumpingPool ρ}
    {burst : Burst} (h : pool.flushReady reason now = some (burst, pool')) : pool'.InRange := by
  unfold flushReady at h
  split at h
  · cases h
  · next thresholds rng hnext =>
    obtain ⟨-, rfl⟩ := Prod.mk.inj (Option.some.inj h)
    obtain ⟨⟨n, rng₁⟩, hn, hnext⟩ := Option.bind_eq_some_iff.mp hnext
    obtain ⟨⟨us, rng₂⟩, -, hnext⟩ := Option.bind_eq_some_iff.mp hnext
    obtain ⟨rfl, -⟩ := Prod.mk.inj (Option.some.inj hnext)
    exact (genRange_mem hn).2

/-- So is the threshold of every burst.  The induction is on the runs of the loop. -/
theorem flushFull_inRange {now : Instant} {pool pool' : ClumpingPool ρ} {bursts : List Burst}
    (hrange : pool.InRange) (h : pool.flushFull now = some (bursts, pool')) :
    pool'.InRange ∧ ∀ b ∈ bursts, b.threshold.maxPackets ≤ pool.config.maxPacketsPerBurst := by
  fun_induction flushFull now pool generalizing bursts with
  | case1 pool hfull hnone => cases h
  | case2 pool hfull burst pool₁ hflush ih =>
      obtain ⟨⟨rest, pool₂⟩, hrest, hcons⟩ := Option.map_eq_some_iff.mp h
      obtain ⟨rfl, rfl⟩ := Prod.mk.inj hcons
      have hflushed := flushReady_spec hflush
      have hconfig : (pool₁.rearm now).config = pool.config := by
        rw [rearm_config, hflushed.config]
      have harmed : (pool₁.rearm now).InRange := by
        rw [InRange, rearm_thresholds, rearm_config]
        exact flushReady_inRange hflush
      obtain ⟨hrange', hall⟩ := ih harmed hrest
      refine ⟨hrange', List.forall_mem_cons.mpr ⟨?_, hconfig ▸ hall⟩⟩
      rw [hflushed.threshold]
      exact hrange
  | case3 pool hfull =>
      obtain ⟨rfl, rfl⟩ := Prod.mk.inj (Option.some.inj h)
      exact ⟨hrange, List.forall_mem_nil _⟩

end ClumpingPool

-- ============================================================================
-- The whole session
-- ============================================================================

namespace Simulation

variable {ρ : Type} [DistrRng ρ] {F : F64}

/-- After the packets `packets`: those that are not mixed wait in the pool. -/
structure InSession (packets : List Packet) (s : Simulation ρ) : Prop where
  settled : PoolRun.Settled s.pool
  config : s.pool.config = sessionClumping
  inRange : s.pool.InRange
  fits : ∀ p ∈ s.pool.buffered, p.len ≤ isizeMax
  mixing : ∃ done, done ++ s.pool.buffered = packets ∧ s.Mixing done

omit [DistrRng ρ] in
/-- The bursts of an answer of the pool are small. -/
theorem small_of_answered {pool pool' : ClumpingPool ρ} {new : List Packet} {bursts : List Burst}
    (hconfig : pool.config = sessionClumping) (h : PoolRun.Answered pool new bursts pool')
    (hrange : ∀ b ∈ bursts, b.threshold.maxPackets ≤ pool.config.maxPacketsPerBurst)
    (hfits : ∀ p ∈ pool.buffered ++ new, p.len ≤ isizeMax) : ∀ b ∈ bursts, Small b := by
  intro b hb
  have hwithin := h.bursts b hb
  have hseven := hrange b hb
  rw [hconfig] at hseven
  refine ⟨hwithin.nonempty, hwithin.le.trans hseven, fun p hp => hfits p ?_⟩
  rw [← h.conserved]
  exact List.mem_append_left _ (List.mem_flatMap.mpr ⟨b, hb, hp⟩)

/-- **Step lemma.**  Every packet is taken, and the bursts that it lets go are mixed. -/
theorem InSession.push (hF : F.Nearest) (now : Instant) {packets : List Packet}
    {s : Simulation ρ} (h : s.InSession packets) {p : Packet} (hp : p.len ≤ isizeMax) :
    ∃ s', s.push F now p = some s' ∧ s'.InSession (packets ++ [p]) := by
  obtain ⟨done, hdone, hmixing⟩ := h.mixing
  have hfit : s.pool.config.TimeoutsFit := by
    rw [h.config]
    exact ⟨by decide, by decide⟩
  obtain ⟨bursts, pool, hanswer, hans⟩ := PoolRun.answer_answered hfit h.settled (.push p now)
  have hpushed : ClumpingPool.InRange { s.pool with
      buffered := s.pool.buffered ++ [p]
      deadline := if s.pool.buffered = [] then some (now + s.pool.thresholds.timeout)
        else s.pool.deadline } := h.inRange
  obtain ⟨hrange, hthresholds⟩ := ClumpingPool.flushFull_inRange hpushed hanswer
  have hfits : ∀ q ∈ s.pool.buffered ++ [p], q.len ≤ isizeMax := by
    intro q hq
    rcases List.mem_append.mp hq with hold | hnew
    · exact h.fits q hold
    · rw [List.mem_singleton.mp hnew]
      exact hp
  have hsmall := small_of_answered h.config hans hthresholds hfits
  obtain ⟨s', hrun, hpool, hmixing'⟩ := Mixing.run_mix hF (s := { s with pool })
    ⟨hmixing.timing, hmixing.composer, hmixing.ranged, hmixing.mixed, hmixing.sampled⟩ hsmall
  refine ⟨s', ?_, ?_⟩
  · rw [Simulation.push]
    show ((s.pool.push p now).bind _) = _
    rw [show s.pool.push p now = some (bursts, pool) from hanswer]
    exact hrun
  · rw [← hdone]
    refine ⟨hpool ▸ hans.settled, hpool ▸ hans.config.trans h.config, hpool ▸ hrange, ?_, _, ?_,
      hmixing'⟩
    · intro q hq
      rw [hpool] at hq
      refine hfits q ?_
      have hmem : q ∈ bursts.flatMap Burst.packets ++ pool.buffered := List.mem_append_right _ hq
      rwa [hans.conserved] at hmem
    · rw [hpool, List.append_assoc, hans.conserved, List.append_assoc]
      rfl

/-- The last flush empties the pool. -/
theorem InSession.flush (hF : F.Nearest) (now : Instant) {packets : List Packet}
    {s : Simulation ρ} (h : s.InSession packets) :
    ∃ s', s.flush F now = some s' ∧ s'.Mixing packets := by
  obtain ⟨done, hdone, hmixing⟩ := h.mixing
  by_cases hempty : s.pool.buffered = []
  · refine ⟨s, ?_, ?_⟩
    · rw [Simulation.flush, ClumpingPool.flush, if_pos hempty]
      rfl
    · rw [hempty, List.append_nil] at hdone
      rwa [← hdone]
  · have hfit : s.pool.config.TimeoutsFit := by
      rw [h.config]
      exact ⟨by decide, by decide⟩
    obtain ⟨burst, pool, hready⟩ := ClumpingPool.flushReady_isSome hfit .manual now
    have hall : burst.packets = s.pool.buffered := by
      rw [(ClumpingPool.flushReady_spec hready).packets]
      exact List.take_of_length_le (Nat.le_of_lt h.settled.short)
    have hseven : s.pool.thresholds.maxPackets ≤ 7 := by
      have hrange := h.inRange
      rwa [ClumpingPool.InRange, h.config] at hrange
    have hsmall : Small burst := by
      refine ⟨hall ▸ hempty, ?_, hall ▸ h.fits⟩
      rw [hall]
      exact (Nat.le_of_lt h.settled.short).trans hseven
    obtain ⟨s', hmix, -, hmixing'⟩ := Mixing.mix hF (s := { s with pool })
      ⟨hmixing.timing, hmixing.composer, hmixing.ranged, hmixing.mixed, hmixing.sampled⟩ hsmall
    refine ⟨s', ?_, ?_⟩
    · rw [Simulation.flush, ClumpingPool.flush, if_neg hempty, hready]
      exact Machine.run_cons_eq_some.mpr ⟨s', hmix, rfl⟩
    · rwa [hall, hdone] at hmixing'

/-- **Run lemma.**  A session that starts with an empty pool mixes all packets. -/
theorem InSession.run (hF : F.Nearest) (now : Instant) {s : Simulation ρ} (h : s.InSession [])
    {packets : List Packet} (hfits : ∀ p ∈ packets, p.len ≤ isizeMax) :
    ∃ s', s.run F now packets = some s' ∧ s'.Mixing packets := by
  obtain ⟨t, hrun, ht⟩ := Machine.exists_run_history (E := fun p : Packet => p.len ≤ isizeMax)
    (J := InSession) (fun es t p hp ht => ht.push hF now hp) hfits h
  obtain ⟨s', hflush, hs'⟩ := ht.flush hF now
  exact ⟨s', by rw [Simulation.run, hrun]; exact hflush, hs'⟩

end Simulation

-- ============================================================================
-- The constructors
-- ============================================================================

/-- A valid configuration and a seed in its role make a pool. -/
theorem ClumpingPool.withConfig_eq {ρ : Type} [Rng ρ] (H : Blake3) {seedA : RoleSeed}
    (hrole : seedA.role = .timingAndPool) {config : ClumpingConfig} (hv : config.Valid) :
    ClumpingPool.withConfig H seedA config = .ok (ClumpingPool.start (ρ := ρ) config hv
      (RngCore.fromSeed (seedA.deriveRngSeed H "mixtor.clumping.v1"))) := by
  have haccepted := ClumpingConfig.validate_eq_ok.mpr ⟨hv, rfl⟩
  rw [ClumpingPool.withConfig, if_neg (not_not.mpr hrole)]
  split
  · next herr =>
    cases haccepted.symm.trans herr
  · next hok =>
    obtain rfl := Except.ok.inj (haccepted.symm.trans hok)
    rfl

theorem ClumpingPool.start_inRange {ρ : Type} [Rng ρ] {config : ClumpingConfig}
    {hv : config.Valid} {rng : ρ} {pool : ClumpingPool ρ}
    (h : ClumpingPool.start config hv rng = some pool) : pool.InRange := by
  unfold ClumpingPool.start at h
  split at h
  · cases h
  · next thresholds rng' hnext =>
    obtain rfl := Option.some.inj h
    obtain ⟨⟨n, rng₁⟩, hn, hnext⟩ := Option.bind_eq_some_iff.mp hnext
    obtain ⟨⟨us, rng₂⟩, -, hnext⟩ := Option.bind_eq_some_iff.mp hnext
    obtain ⟨rfl, -⟩ := Prod.mk.inj (Option.some.inj hnext)
    exact (genRange_mem hn).2

/-- The scheduler of a session. -/
theorem exists_sessionScheduler {ρ : Type} [DistrRng ρ] (H : Blake3) (seeds : SessionSeeds) :
    ∃ timing : SeedATimingScheduler ρ,
      SeedATimingScheduler.withConfig H seeds.timingAndPool sessionTiming = .ok (some timing) ∧
        timing.config = sessionTiming := by
  have haccepted := TimingConfig.validate_eq_ok.mpr ⟨sessionTiming_valid, rfl⟩
  obtain ⟨regime, rng, hregime⟩ := SeedATimingScheduler.exists_nextRegime (ρ := ρ)
    sessionTiming_valid
    (RngCore.fromSeed (seeds.timingAndPool.deriveRngSeed H "mixtor.timing.v1"))
  rw [SeedATimingScheduler.withConfig, if_neg (not_not.mpr seeds.timing_role)]
  split
  · next herr =>
    cases haccepted.symm.trans herr
  · next hok =>
    obtain rfl := Except.ok.inj (haccepted.symm.trans hok)
    refine ⟨⟨sessionTiming, rng, regime, 0, 0, sessionTiming_valid⟩, ?_, rfl⟩
    rw [SeedATimingScheduler.start, hregime]
    rfl

/-- A session starts when its composer is built. -/
theorem exists_session {ρ : Type} [DistrRng ρ] (F : F64) (H : Blake3) (seeds : SessionSeeds)
    (clk : Clock) {composer : BurstComposer ρ} {clk' : Clock}
    (hnew : BurstComposer.withConfig F H clk seeds.burstComposition .default
      = some (.ok (composer, clk'))) :
    ∃ s : Simulation ρ, s.InSession [] ∧ ∀ packets, simulateSession ρ F H seeds clk packets
      = (s.run F clk'.now packets).map fun t => .ok t.bursts := by
  have hv : sessionClumping.Valid := by decide
  obtain ⟨pool, hstart, hconfig, hempty, hunset⟩ := ClumpingPool.exists_start hv
    ⟨by decide, by decide⟩
    (RngCore.fromSeed (seeds.timingAndPool.deriveRngSeed H "mixtor.clumping.v1") : ρ)
  obtain ⟨timing, htiming, htconfig⟩ := exists_sessionScheduler (ρ := ρ) H seeds
  obtain ⟨-, hs, hregime, -⟩ := BurstComposer.withConfig_eq_ok hnew
  have hranged : BurstComposer.Ranged composer.regime := nextRegime_range (by decide) hregime
  have hsettled : PoolRun.Settled pool := by
    refine ⟨?_, ?_⟩
    · rw [hempty]
      exact pool.thresholds_pos
    · rw [hempty, hunset]
      exact ⟨nofun, fun hne => absurd rfl hne⟩
  refine ⟨⟨pool, timing, composer, clk'.later, []⟩, ⟨hsettled, hconfig,
    ClumpingPool.start_inRange hstart, ?_, [], ?_, htconfig, hs, hranged, .nil,
    List.forall_mem_nil _⟩, fun packets => ?_⟩
  · rw [hempty]
    exact List.forall_mem_nil _
  · rw [hempty]
    rfl
  · rw [simulateSession, ClumpingPool.withConfig_eq H seeds.timing_role hv, hstart]
    simp only [htiming, hnew]

/-- What a session has sampled comes from an end of its runs. -/
theorem mixing_of_simulateSession {ρ : Type} [DistrRng ρ] {F : F64} (hF : F.Nearest)
    {H : Blake3} {seeds : SessionSeeds} {clk : Clock} {packets : List Packet}
    {bursts : List SampledBurst} (hfits : ∀ p ∈ packets, p.len ≤ isizeMax)
    (h : simulateSession ρ F H seeds clk packets = some (.ok bursts)) :
    ∃ s : Simulation ρ, s.bursts = bursts ∧ s.Mixing packets := by
  have hnew : ∃ composer clk', BurstComposer.withConfig F H clk seeds.burstComposition .default
      = some (.ok ((composer : BurstComposer ρ), clk')) := by
    unfold simulateSession at h
    repeat' split at h
    all_goals first | cases h | exact ⟨_, _, by assumption⟩
  obtain ⟨composer, clk', hnew⟩ := hnew
  obtain ⟨s, hs, hsim⟩ := exists_session F H seeds clk hnew
  obtain ⟨t, hrun, ht⟩ := hs.run hF clk'.now hfits
  rw [hsim, hrun, Option.map_some] at h
  exact ⟨t, Except.ok.inj (Option.some.inj h), ht⟩

/-- **A simulated session keeps every packet.**  Whatever packets are pushed and whatever is
    drawn, once the composer is built no engine panics; the real frames of the bursts are
    the packets in order, each in a cell of its own; and every burst has between one and
    seven of them, at most 32 dummies, nothing but whole cells, and a decision within the
    bounds. -/
theorem simulateSession_keeps {ρ : Type} [DistrRng ρ] {F : F64} (hF : F.Nearest) (H : Blake3)
    (seeds : SessionSeeds) (clk : Clock) {composer : BurstComposer ρ} {clk' : Clock}
    (hnew : BurstComposer.withConfig F H clk seeds.burstComposition .default
      = some (.ok (composer, clk')))
    {packets : List Packet} (hfits : ∀ p ∈ packets, p.len ≤ isizeMax) :
    ∃ bursts, simulateSession ρ F H seeds clk packets = some (.ok bursts) ∧
      List.Forall₂ (Fitted (some 514)) packets (bursts.flatMap fun b => b.mixed.packets) ∧
      ∀ b ∈ bursts, b.Sampled := by
  obtain ⟨s, hs, hsim⟩ := exists_session F H seeds clk hnew
  obtain ⟨t, hrun, hmixing⟩ := hs.run hF clk'.now hfits
  exact ⟨t.bursts, by rw [hsim, hrun]; rfl, hmixing.mixed, hmixing.sampled⟩

/-- Two seeds as the system might return them. -/
theorem exists_sampleSeeds : ∃ seeds, SessionSeeds.generate (some (Vector.replicate 32 1))
    (some (Vector.replicate 32 2)) 0 = .ok seeds ∧
      seeds.burstComposition = ⟨⟨Vector.replicate 32 2⟩, .burstComposition⟩ := by
  obtain ⟨seeds, hgen, -, hbytes⟩ := SessionSeeds.generate_ok (a := Vector.replicate 32 1)
    (b := Vector.replicate 32 2) (by decide) (by decide) (by decide) 0
  refine ⟨seeds, hgen, ?_⟩
  have hrole := seeds.burst_role
  generalize seeds.burstComposition = seed at hbytes hrole
  obtain ⟨⟨bytes⟩, role⟩ := seed
  subst hbytes hrole
  rfl

theorem syntheticPackets_fit : ∀ p ∈ syntheticPackets, p.len ≤ isizeMax := by
  intro p hp
  obtain ⟨index, -, rfl⟩ := List.mem_map.mp hp
  have hlen : (syntheticPacket index).len = syntheticLen index := List.length_replicate
  rw [hlen]
  exact (syntheticLen_mem index).2.trans (by decide)

/-- A composer is built from the sample seeds. -/
theorem exists_sampleComposer : ∃ seeds, SessionSeeds.generate (some (Vector.replicate 32 1))
    (some (Vector.replicate 32 2)) 0 = .ok seeds ∧
      ∃ (composer : BurstComposer EndRng) (clk' : Clock),
        BurstComposer.withConfig .steep (.fill 2) (.const 0) seeds.burstComposition .default
          = some (.ok (composer, clk')) := by
  obtain ⟨seeds, hgen, hseed⟩ := exists_sampleSeeds
  have hmax : 0 < 32 := by decide
  obtain ⟨composer, clk', hnew⟩ := BurstComposer.exists_sample (ρ := EndRng) hmax
    BurstComposer.half_pos (.fill 2) (Vector.replicate 32 2) (.const 0)
  rw [← hseed] at hnew
  exact ⟨seeds, hgen, composer, clk', hnew⟩

/-- A session as the binary simulates it. -/
theorem simulateSession_keeps_synthetic :
    ∃ seeds bursts, SessionSeeds.generate (some (Vector.replicate 32 1))
        (some (Vector.replicate 32 2)) 0 = .ok seeds ∧
      simulateSession EndRng .steep (.fill 2) seeds (.const 0) syntheticPackets
        = some (.ok bursts) ∧
      List.Forall₂ (Fitted (some 514)) syntheticPackets
        (bursts.flatMap fun b => b.mixed.packets) := by
  obtain ⟨seeds, hgen, composer, clk', hnew⟩ := exists_sampleComposer
  obtain ⟨bursts, hsim, hmixed, -⟩ :=
    simulateSession_keeps F64.steep_nearest (.fill 2) seeds (.const 0) hnew syntheticPackets_fit
  exact ⟨seeds, bursts, hgen, hsim, hmixed⟩

end MixTor
