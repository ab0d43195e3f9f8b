/-
  MixTor.Shaping.ClumpingPool

  The packet clumping pool (clumping.rs).  Each cycle draws fresh thresholds and
  ends when the packet threshold is reached, when the timeout after the first
  packet expires, or when the pool is flushed.
-/

import MixTor.Lib.Machine
import MixTor.Shaping.Burst

namespace MixTor

open Crypto (Blake3)

/-- Bounds for randomized per-cycle pool thresholds. -/
structure ClumpingConfig where
  minPacketsPerBurst : Nat
  maxPacketsPerBurst : Nat
  minTimeout : Duration
  maxTimeout : Duration
  deriving DecidableEq, Repr

/-- Errors of building a pool. -/
inductive ClumpingConfigError where
  | invalidConfig (msg : String)
  | wrongSeedRole (expected actual : SeedRole)
  deriving DecidableEq, Repr

namespace ClumpingConfig

def default : ClumpingConfig := ⟨1, 8, .fromMillis 80, .fromMillis 350⟩

/-- What `validate` checks. -/
structure Valid (c : ClumpingConfig) : Prop where
  minPackets_pos : 0 < c.minPacketsPerBurst
  minPackets_le : c.minPacketsPerBurst ≤ c.maxPacketsPerBurst
  minTimeout_pos : 0 < c.minTimeout
  minTimeout_le : c.minTimeout ≤ c.maxTimeout

instance (c : ClumpingConfig) : Decidable c.Valid :=
  decidable_of_iff (0 < c.minPacketsPerBurst ∧ c.minPacketsPerBurst ≤ c.maxPacketsPerBurst ∧
    0 < c.minTimeout ∧ c.minTimeout ≤ c.maxTimeout)
    ⟨fun h => ⟨h.1, h.2.1, h.2.2.1, h.2.2.2⟩, fun h => ⟨h.1, h.2, h.3, h.4⟩⟩

def validate (c : ClumpingConfig) : Except ClumpingConfigError ClumpingConfig :=
  if c.minPacketsPerBurst = 0 then
    .error (.invalidConfig "minimum packet threshold must be at least one")
  else if c.maxPacketsPerBurst < c.minPacketsPerBurst then
    .error (.invalidConfig "minimum packet threshold cannot exceed maximum packet threshold")
  else if c.minTimeout = 0 then .error (.invalidConfig "minimum timeout must be non-zero")
  else if c.maxTimeout < c.minTimeout then
    .error (.invalidConfig "minimum timeout cannot exceed maximum timeout")
  else .ok c

/-- `validate` accepts exactly the valid configurations and returns them as they are. -/
theorem validate_eq_ok {c c' : ClumpingConfig} : c.validate = .ok c' ↔ c.Valid ∧ c' = c := by
  simp only [validate, guard_eq_ok, not_lt]
  constructor
  · rintro ⟨h1, h2, h3, h4, h⟩
    exact ⟨⟨Nat.pos_of_ne_zero h1, h2, Nat.pos_of_ne_zero h3, h4⟩, (Except.ok.inj h).symm⟩
  · rintro ⟨⟨h1, h2, h3, h4⟩, rfl⟩
    exact ⟨Nat.pos_iff_ne_zero.mp h1, h2, Nat.pos_iff_ne_zero.mp h3, h4, rfl⟩

/-- `d.as_micros() as u64`. -/
def micros (d : Duration) : Nat := d / 1000 % 2 ^ 64

end ClumpingConfig

variable {ρ : Type} [Rng ρ]

/-- Draw the thresholds of a cycle. -/
def nextThresholds (config : ClumpingConfig) (rng : ρ) : Option (CycleThresholds × ρ) := do
  let (maxPackets, rng) ← genRange config.minPacketsPerBurst config.maxPacketsPerBurst rng
  let (timeout, rng) ←
    genRange (ClumpingConfig.micros config.minTimeout) (ClumpingConfig.micros config.maxTimeout) rng
  return (⟨maxPackets, .fromMicros timeout⟩, rng)

theorem nextThresholds_pos {config : ClumpingConfig} (hv : config.Valid) {rng rng' : ρ}
    {t : CycleThresholds} (h : nextThresholds config rng = some (t, rng')) : 0 < t.maxPackets := by
  obtain ⟨⟨n, rng₁⟩, hn, h⟩ := Option.bind_eq_some_iff.mp h
  obtain ⟨⟨us, rng₂⟩, -, h⟩ := Option.bind_eq_some_iff.mp h
  obtain ⟨rfl, -⟩ := Prod.mk.inj (Option.some.inj h)
  exact hv.minPackets_pos.trans_le (genRange_mem hn).1

/-- The timeouts fit into 64 bits of microseconds. -/
def ClumpingConfig.TimeoutsFit (c : ClumpingConfig) : Prop :=
  c.minTimeout / 1000 < 2 ^ 64 ∧ c.maxTimeout / 1000 < 2 ^ 64

/-- Timeouts that fit keep their order, and the draw finds a range. -/
theorem exists_nextThresholds {config : ClumpingConfig} (hv : config.Valid)
    (hfit : config.TimeoutsFit) (rng : ρ) : ∃ t rng', nextThresholds config rng = some (t, rng') := by
  obtain ⟨n, rng₁, hn⟩ := exists_genRange hv.minPackets_le rng
  have horder : ClumpingConfig.micros config.minTimeout
      ≤ ClumpingConfig.micros config.maxTimeout := by
    rw [ClumpingConfig.micros, ClumpingConfig.micros, Nat.mod_eq_of_lt hfit.1,
      Nat.mod_eq_of_lt hfit.2]
    exact Nat.div_le_div_right hv.minTimeout_le
  obtain ⟨us, rng₂, hus⟩ := exists_genRange horder rng₁
  refine ⟨⟨n, .fromMicros us⟩, rng₂, ?_⟩
  rw [nextThresholds, hn]
  show (genRange _ _ rng₁).bind _ = _
  rw [hus]
  rfl

/-- The pool.  Its configuration was validated when it was built, and no cycle has a
    packet threshold of zero. -/
structure ClumpingPool (ρ : Type) where
  config : ClumpingConfig
  rng : ρ
  buffered : List Packet
  thresholds : CycleThresholds
  deadline : Option Instant
  config_valid : config.Valid
  thresholds_pos : 0 < thresholds.maxPackets

namespace ClumpingPool

/-- A pool whose first thresholds are drawn from `rng`. -/
def start (config : ClumpingConfig) (hv : config.Valid) (rng : ρ) : Option (ClumpingPool ρ) :=
  match h : nextThresholds config rng with
  | none => none
  | some (thresholds, rng) =>
      some
        { config
          rng
          buffered := []
          thresholds
          deadline := none
          config_valid := hv
          thresholds_pos := nextThresholds_pos hv h }

/-- A new pool is empty. -/
theorem exists_start {config : ClumpingConfig} (hv : config.Valid) (hfit : config.TimeoutsFit)
    (rng : ρ) :
    ∃ pool, start config hv rng = some pool ∧ pool.config = config ∧ pool.buffered = [] ∧
      pool.deadline = none := by
  obtain ⟨t, rng', h⟩ := exists_nextThresholds hv hfit rng
  unfold start
  split
  · next hnone =>
      rw [h] at hnone
      cases hnone
  · exact ⟨_, rfl, rfl, rfl, rfl⟩

/-- Build a pool from a seed and a configuration. -/
def withConfig (H : Blake3) (seedA : RoleSeed) (config : ClumpingConfig) :
    Except ClumpingConfigError (Option (ClumpingPool ρ)) :=
  if seedA.role ≠ .timingAndPool then .error (.wrongSeedRole .timingAndPool seedA.role)
  else
    match h : config.validate with
    | .error e => .error e
    | .ok config => .ok (start config
        (by
          obtain ⟨hv, rfl⟩ := ClumpingConfig.validate_eq_ok.mp h
          exact hv)
        (RngCore.fromSeed (seedA.deriveRngSeed H "mixtor.clumping.v1")))

/-- Take a burst out of the pool and draw the thresholds of the next cycle. -/
def flushReady (reason : FlushReason) (now : Instant) (pool : ClumpingPool ρ) :
    Option (Burst × ClumpingPool ρ) :=
  let packetCount := min pool.buffered.length pool.thresholds.maxPackets
  let buffered := pool.buffered.drop packetCount
  match h : nextThresholds pool.config pool.rng with
  | none => none
  | some (thresholds, rng) =>
      some (⟨pool.buffered.take packetCount, pool.thresholds, reason⟩,
        { pool with
          rng
          buffered
          thresholds
          deadline := if buffered = [] then none else some (now + thresholds.timeout)
          thresholds_pos := nextThresholds_pos pool.config_valid h })

/-- What `flush_ready` does, whatever it draws. -/
structure Flushed (reason : FlushReason) (pool : ClumpingPool ρ) (burst : Burst)
    (pool' : ClumpingPool ρ) : Prop where
  packets : burst.packets = pool.buffered.take pool.thresholds.maxPackets
  threshold : burst.threshold = pool.thresholds
  reason : burst.reason = reason
  buffered : pool'.buffered = pool.buffered.drop pool.thresholds.maxPackets
  deadline : pool'.deadline.isSome ↔ pool'.buffered ≠ []
  config : pool'.config = pool.config

theorem flushReady_spec {reason : FlushReason} {now : Instant} {pool pool' : ClumpingPool ρ}
    {burst : Burst} (h : pool.flushReady reason now = some (burst, pool')) :
    pool.Flushed reason burst pool' := by
  have hcut : ∀ xs : List Packet, ∀ n, xs.take (min xs.length n) = xs.take n ∧
      xs.drop (min xs.length n) = xs.drop n := by
    intro xs n
    rcases Nat.le_total xs.length n with hle | hle
    · rw [Nat.min_eq_left hle, List.take_length, List.drop_length, List.take_of_length_le hle,
        List.drop_of_length_le hle]
      exact ⟨rfl, rfl⟩
    · rw [Nat.min_eq_right hle]
      exact ⟨rfl, rfl⟩
  obtain ⟨htake, hdrop⟩ := hcut pool.buffered pool.thresholds.maxPackets
  unfold flushReady at h
  split at h
  · cases h
  · obtain ⟨rfl, rfl⟩ := Prod.mk.inj (Option.some.inj h)
    refine ⟨htake, rfl, rfl, hdrop, ?_, rfl⟩
    dsimp only
    split
    · next hnil => exact ⟨nofun, fun hne => absurd hnil hne⟩
    · next hne => exact ⟨fun _ => hne, fun _ => rfl⟩

theorem flushReady_isSome {pool : ClumpingPool ρ} (hfit : pool.config.TimeoutsFit)
    (reason : FlushReason) (now : Instant) :
    ∃ burst pool', pool.flushReady reason now = some (burst, pool') := by
  obtain ⟨t, rng, h⟩ := exists_nextThresholds pool.config_valid hfit pool.rng
  unfold flushReady
  split
  · next hnone =>
      rw [h] at hnone
      cases hnone
  · exact ⟨_, _, rfl⟩

/-- Set the deadline of a cycle that starts with packets left over. -/
def rearm (now : Instant) (pool : ClumpingPool ρ) : ClumpingPool ρ :=
  if pool.buffered = [] then pool
  else { pool with deadline := some (now + pool.thresholds.timeout) }

omit [Rng ρ] in
@[simp] theorem rearm_buffered (now : Instant) (pool : ClumpingPool ρ) :
    (pool.rearm now).buffered = pool.buffered := by
  unfold rearm
  split <;> rfl

omit [Rng ρ] in
@[simp] theorem rearm_thresholds (now : Instant) (pool : ClumpingPool ρ) :
    (pool.rearm now).thresholds = pool.thresholds := by
  unfold rearm
  split <;> rfl

omit [Rng ρ] in
@[simp] theorem rearm_config (now : Instant) (pool : ClumpingPool ρ) :
    (pool.rearm now).config = pool.config := by
  unfold rearm
  split <;> rfl

/-- The loop of `push`: flush as long as the packet threshold is reached. -/
def flushFull (now : Instant) (pool : ClumpingPool ρ) : Option (List Burst × ClumpingPool ρ) :=
  if _hfull : pool.thresholds.maxPackets ≤ pool.buffered.length then
    match _h : pool.flushReady .sizeThreshold now with
    | none => none
    | some (burst, pool') =>
        (flushFull now (pool'.rearm now)).map fun (bursts, pool) => (burst :: bursts, pool)
  else some ([], pool)
termination_by pool.buffered.length
decreasing_by
  have hpos := pool.thresholds_pos
  rw [rearm_buffered, (flushReady_spec _h).buffered, List.length_drop]
  omega

/-- Add one packet; returns every burst that this flushes. -/
def push (packet : Packet) (now : Instant) (pool : ClumpingPool ρ) :
    Option (List Burst × ClumpingPool ρ) :=
  let deadline :=
    if pool.buffered = [] then some (now + pool.thresholds.timeout) else pool.deadline
  flushFull now { pool with buffered := pool.buffered ++ [packet], deadline }

/-- Flush a timed-out pool. -/
def tick (now : Instant) (pool : ClumpingPool ρ) : Option (Option Burst × ClumpingPool ρ) :=
  match pool.deadline with
  | some deadline =>
      if deadline ≤ now ∧ pool.buffered ≠ [] then
        (pool.flushReady .timeout now).map fun (burst, pool) => (some burst, pool)
      else some (none, pool)
  | none => some (none, pool)

/-- Drain the buffered packets, if there are any. -/
def flush (now : Instant) (pool : ClumpingPool ρ) : Option (Option Burst × ClumpingPool ρ) :=
  if pool.buffered = [] then some (none, pool)
  else (pool.flushReady .manual now).map fun (burst, pool) => (some burst, pool)

-- ============================================================================
-- Runs of a pool
-- ============================================================================

/-- A call on the pool. -/
inductive Call where
  | push (packet : Packet) (now : Instant)
  | tick (now : Instant)
  | flush (now : Instant)
  deriving DecidableEq, Repr

/-- What the call puts into the pool. -/
def Call.pushed : Call → List Packet
  | push packet _ => [packet]
  | tick _ => []
  | flush _ => []

end ClumpingPool

/-- A pool with its history: what was pushed into it and the bursts it returned. -/
structure PoolRun (ρ : Type) where
  pool : ClumpingPool ρ
  pushed : List Packet
  bursts : List Burst

namespace PoolRun

open ClumpingPool (Call)

/-- The bursts a call returns, and the pool after it. -/
def answer (pool : ClumpingPool ρ) : Call → Option (List Burst × ClumpingPool ρ)
  | .push packet now => pool.push packet now
  | .tick now => (pool.tick now).map fun (burst, pool) => (burst.toList, pool)
  | .flush now => (pool.flush now).map fun (burst, pool) => (burst.toList, pool)

def step (s : PoolRun ρ) (call : Call) : Option (PoolRun ρ) :=
  (answer s.pool call).map fun (bursts, pool) =>
    ⟨pool, s.pushed ++ call.pushed, s.bursts ++ bursts⟩

def start (pool : ClumpingPool ρ) : PoolRun ρ := ⟨pool, [], []⟩

-- ============================================================================
-- The law of a pool
-- ============================================================================

/-- A burst keeps to the threshold it reports. -/
structure WithinThreshold (b : Burst) : Prop where
  nonempty : b.packets ≠ []
  le : b.packets.length ≤ b.threshold.maxPackets
  full : b.reason = .sizeThreshold → b.packets.length = b.threshold.maxPackets

/-- Between two calls less waits than the threshold, and a deadline is set exactly while
    something waits. -/
structure Settled (pool : ClumpingPool ρ) : Prop where
  short : pool.buffered.length < pool.thresholds.maxPackets
  deadline : pool.deadline.isSome ↔ pool.buffered ≠ []

/-- The law: nothing is lost, duplicated or reordered, and every call is answered. -/
structure Clumped (s : PoolRun ρ) : Prop where
  conserved : s.bursts.flatMap Burst.packets ++ s.pool.buffered = s.pushed
  bursts : ∀ b ∈ s.bursts, WithinThreshold b
  settled : Settled s.pool
  answered : ∀ call, (s.step call).isSome

/-- What a call does to the packets: those in the pool and the new ones leave in
    `bursts` or wait. -/
structure Answered (pool : ClumpingPool ρ) (new : List Packet) (bursts : List Burst)
    (pool' : ClumpingPool ρ) : Prop where
  conserved : bursts.flatMap Burst.packets ++ pool'.buffered = pool.buffered ++ new
  bursts : ∀ b ∈ bursts, WithinThreshold b
  settled : Settled pool'
  config : pool'.config = pool.config

omit [Rng ρ] in
/-- A burst of a flush that finds packets. -/
theorem withinThreshold_of_flushed {reason : FlushReason} {pool pool' : ClumpingPool ρ}
    {burst : Burst} (h : pool.Flushed reason burst pool') (hne : pool.buffered ≠ [])
    (hfull : reason = .sizeThreshold → pool.thresholds.maxPackets ≤ pool.buffered.length) :
    WithinThreshold burst := by
  have hlen : burst.packets.length
      = min pool.thresholds.maxPackets pool.buffered.length := by
    rw [h.packets, List.length_take]
  have hpos := pool.thresholds_pos
  have hpos' := List.length_pos_iff.mpr hne
  refine ⟨List.length_pos_iff.mp (by omega), ?_, fun hreason => ?_⟩
  · rw [h.threshold]
    omega
  · rw [h.threshold, hlen, Nat.min_eq_left (hfull (h.reason.symm.trans hreason))]

omit [Rng ρ] in
/-- A flush between two calls empties the pool. -/
theorem answered_of_flushed {reason : FlushReason} {pool pool' : ClumpingPool ρ} {burst : Burst}
    (h : pool.Flushed reason burst pool') (hs : Settled pool) (hne : pool.buffered ≠ [])
    (hreason : reason ≠ .sizeThreshold) : Answered pool [] [burst] pool' := by
  have hall : pool'.buffered = [] := by
    rw [h.buffered, List.drop_of_length_le (Nat.le_of_lt hs.short)]
  refine ⟨?_, ?_, ⟨?_, h.deadline⟩, h.config⟩
  · rw [List.flatMap_cons, List.flatMap_nil, h.packets, h.buffered, List.append_nil,
      List.append_nil, List.take_append_drop]
  · intro b hb
    obtain rfl := List.mem_singleton.mp hb
    exact withinThreshold_of_flushed h hne fun hsize => absurd hsize hreason
  · rw [hall]
    exact pool'.thresholds_pos

omit [Rng ρ] in
/-- A call that finds nothing to do. -/
theorem answered_nothing {pool : ClumpingPool ρ} (hs : Settled pool) :
    Answered pool [] [] pool := ⟨by simp, nofun, hs, rfl⟩

/-- The loop of `push` ends with less in the pool than the threshold.  The induction is on
    the runs of the loop, each of which takes a whole burst out of the pool. -/
theorem flushFull_answered (now : Instant) {pool : ClumpingPool ρ}
    (hfit : pool.config.TimeoutsFit) (hdeadline : pool.deadline.isSome ↔ pool.buffered ≠ []) :
    ∃ bursts pool', pool.flushFull now = some (bursts, pool') ∧
      Answered pool [] bursts pool' := by
  fun_induction ClumpingPool.flushFull now pool with
  | case1 pool hfull hnone =>
      obtain ⟨burst, pool', h⟩ := ClumpingPool.flushReady_isSome hfit .sizeThreshold now
      rw [h] at hnone
      cases hnone
  | case2 pool hfull burst pool' hflush ih =>
      have hflushed := ClumpingPool.flushReady_spec hflush
      have hne : pool.buffered ≠ [] :=
        List.ne_nil_of_length_pos (pool.thresholds_pos.trans_le hfull)
      have hfit' : (pool'.rearm now).config.TimeoutsFit := by
        rw [ClumpingPool.rearm_config, hflushed.config]
        exact hfit
      have harmed : (pool'.rearm now).deadline.isSome ↔ (pool'.rearm now).buffered ≠ [] := by
        unfold ClumpingPool.rearm
        split
        · exact hflushed.deadline
        · next hleft => exact ⟨fun _ => hleft, fun _ => rfl⟩
      obtain ⟨bursts, pool'', hrest, hans⟩ := ih hfit' harmed
      refine ⟨burst :: bursts, pool'', by rw [hrest]; rfl, ?_, ?_, hans.settled, ?_⟩
      · have hcons := hans.conserved
        rw [ClumpingPool.rearm_buffered, hflushed.buffered, List.append_nil] at hcons
        rw [List.flatMap_cons, List.append_assoc, hcons, hflushed.packets, List.append_nil,
          List.take_append_drop]
      · intro b hb
        rcases List.mem_cons.mp hb with rfl | hb
        · exact withinThreshold_of_flushed hflushed hne fun _ => hfull
        · exact hans.bursts b hb
      · rw [hans.config, ClumpingPool.rearm_config, hflushed.config]
  | case3 pool hfull =>
      exact ⟨[], pool, rfl, by simp, nofun, ⟨not_le.mp hfull, hdeadline⟩, rfl⟩

/-- **Step lemma.**  Every call on a settled pool is answered, keeps what the bursts and
    the pool hold, and settles the pool again. -/
theorem answer_answered {pool : ClumpingPool ρ} (hfit : pool.config.TimeoutsFit)
    (hs : Settled pool) (call : Call) :
    ∃ bursts pool', answer pool call = some (bursts, pool') ∧
      Answered pool call.pushed bursts pool' := by
  cases call with
  | push packet now =>
      let grown : ClumpingPool ρ :=
        { pool with
          buffered := pool.buffered ++ [packet]
          deadline :=
            if pool.buffered = [] then some (now + pool.thresholds.timeout) else pool.deadline }
      have harmed : grown.deadline.isSome ↔ grown.buffered ≠ [] := by
        refine ⟨fun _ => List.append_ne_nil_of_right_ne_nil _ (List.cons_ne_nil _ _), fun _ => ?_⟩
        dsimp only [grown]
        split
        · rfl
        · next hne => exact hs.deadline.mpr hne
      have hgrown : grown.config.TimeoutsFit := hfit
      obtain ⟨bursts, pool', hrun, hans⟩ := flushFull_answered now hgrown harmed
      refine ⟨bursts, pool', hrun, ?_, hans.bursts, hans.settled, hans.config⟩
      rw [hans.conserved, List.append_nil]
      rfl
  | tick now =>
      rw [answer, ClumpingPool.tick]
      cases hd : pool.deadline with
      | none => exact ⟨[], pool, rfl, answered_nothing hs⟩
      | some deadline =>
          dsimp only
          split
          · next hdue =>
              obtain ⟨burst, pool', h⟩ := ClumpingPool.flushReady_isSome hfit .timeout now
              refine ⟨[burst], pool', by rw [h]; rfl, ?_⟩
              exact answered_of_flushed (ClumpingPool.flushReady_spec h) hs hdue.2 nofun
          · exact ⟨[], pool, rfl, answered_nothing hs⟩
  | flush now =>
      rw [answer, ClumpingPool.flush]
      split
      · exact ⟨[], pool, rfl, answered_nothing hs⟩
      · next hne =>
          obtain ⟨burst, pool', h⟩ := ClumpingPool.flushReady_isSome hfit .manual now
          refine ⟨[burst], pool', by rw [h]; rfl, ?_⟩
          exact answered_of_flushed (ClumpingPool.flushReady_spec h) hs hne nofun

theorem step_clumped {s t : PoolRun ρ} {call : Call} (h : s.Clumped)
    (hfit : s.pool.config.TimeoutsFit) (hstep : s.step call = some t) :
    t.Clumped ∧ t.pool.config.TimeoutsFit := by
  obtain ⟨bursts, pool', hans, hanswered⟩ := answer_answered hfit h.settled call
  rw [step, hans] at hstep
  obtain rfl := Option.some.inj hstep
  have hfit' : pool'.config.TimeoutsFit := by
    rw [hanswered.config]
    exact hfit
  refine ⟨⟨?_, ?_, hanswered.settled, fun next => ?_⟩, hfit'⟩
  · rw [List.flatMap_append, List.append_assoc, hanswered.conserved, ← List.append_assoc,
      h.conserved]
  · intro b hb
    exact (List.mem_append.mp hb).elim (h.bursts b) (hanswered.bursts b)
  · obtain ⟨bursts', pool'', hnext, -⟩ := answer_answered hfit' hanswered.settled next
    rw [step, hnext]
    rfl

/-- **Clumping keeps every packet.**  For every configuration that `validate` accepts with
    timeouts below 2^64 microseconds and every generator, a pool is built, and in every
    run of `push`, `tick` and `flush`: the packets of the bursts and of the pool are in
    order the packets pushed; every burst is non-empty and within the threshold it
    reports, exactly at it when the threshold flushed it; less waits than the current
    threshold; a deadline is set exactly while something waits; and no call panics. -/
theorem always_clumped (H : Blake3) (seedA : RoleSeed) (hrole : seedA.role = .timingAndPool)
    (config : ClumpingConfig) (haccepted : config.validate = .ok config)
    (hfit : config.TimeoutsFit) :
    ∃ pool : ClumpingPool ρ, ClumpingPool.withConfig H seedA config = .ok (some pool) ∧
      ∀ calls, Machine.Always step Clumped (start pool) calls := by
  obtain ⟨hv, -⟩ := ClumpingConfig.validate_eq_ok.mp haccepted
  obtain ⟨pool, hpool, hconfig, hempty, hunset⟩ := ClumpingPool.exists_start hv hfit
    (RngCore.fromSeed (seedA.deriveRngSeed H "mixtor.clumping.v1") : ρ)
  have hfit' : pool.config.TimeoutsFit := by
    rw [hconfig]
    exact hfit
  have hsettled : Settled pool := by
    refine ⟨?_, ?_⟩
    · rw [hempty]
      exact pool.thresholds_pos
    · rw [hempty, hunset]
      exact ⟨nofun, fun hne => absurd rfl hne⟩
  refine ⟨pool, ?_, fun calls => ?_⟩
  · rw [ClumpingPool.withConfig, if_neg (not_not.mpr hrole)]
    split
    · next e herr =>
        rw [haccepted] at herr
        cases herr
    · next c hok =>
        obtain rfl := Except.ok.inj (haccepted.symm.trans hok)
        rw [hpool]
  · refine (Machine.always_of_invariant
      (I := fun s : PoolRun ρ => s.Clumped ∧ s.pool.config.TimeoutsFit)
      (fun s call t h hstep => step_clumped h.1 h.2 hstep)
      ⟨⟨?_, List.forall_mem_nil _, hsettled, fun call => ?_⟩, hfit'⟩ calls).mono fun s h => h.1
    · rw [start, hempty]
      rfl
    · obtain ⟨bursts, pool', hans, -⟩ := answer_answered hfit' hsettled call
      rw [step, start, hans]
      rfl

/-- A pool of the default configuration. -/
theorem always_clumped_default :
    ∃ pool : ClumpingPool FixedRng,
      ClumpingPool.withConfig .sumBytes ⟨⟨Vector.replicate 32 7⟩, .timingAndPool⟩ .default
        = .ok (some pool) ∧
      ∀ calls, Machine.Always step Clumped (start pool) calls :=
  always_clumped .sumBytes ⟨⟨Vector.replicate 32 7⟩, .timingAndPool⟩ rfl .default rfl
    ⟨by decide, by decide⟩

end PoolRun

end MixTor
