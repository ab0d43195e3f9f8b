/-
  MixTor.Shaping.SlotQueue

  The scheduler as a queue, over whole runs (timing_correlator.rs).

  Whatever its configuration, its generators and its clock: what has been injected
  and not refused has left in real frames, in order and each fitted to the cell, or
  waits; every other slot held a dummy; and every frame has the size of the cell.
  With an adaptive rate the mean interval is within its bounds from the second arrival
  on, or NaN, which no clamp catches; at a fixed rate it never moves.
-/

import MixTor.Lib.Machine
import MixTor.Shaping.ComposerFrames
import MixTor.Shaping.TimingCorrelator
import MixTor.Shaping.TimingScheduler

namespace MixTor

namespace TimingCorrelator

variable {ρ : Type} [RngCore ρ] {F : F64} {tc tc' : TimingCorrelator ρ}

/-- What a slot does to the scheduler: it sends the oldest packet, or a dummy. -/
inductive Slot (tc : TimingCorrelator ρ) : MixedFrame → TimingCorrelator ρ → Prop
  | real {p : Packet} {frame : MixedFrame} {tc' : TimingCorrelator ρ}
      (head : tc.realQueue = p :: tc'.realQueue)
      (fits : RealFrame (some tc.config.cellBytes) p frame)
      (counts : tc'.realEmitted = tc.realEmitted + 1 ∧ tc'.dummyEmitted = tc.dummyEmitted)
      (same : tc'.config = tc.config ∧ tc'.meanIatMs = tc.meanIatMs) : Slot tc frame tc'
  | dummy {frame : MixedFrame} {tc' : TimingCorrelator ρ} (waits : tc'.realQueue = tc.realQueue)
      (fits : DummyFrame (some tc.config.cellBytes) frame)
      (counts : tc'.realEmitted = tc.realEmitted ∧ tc'.dummyEmitted = tc.dummyEmitted + 1)
      (same : tc'.config = tc.config ∧ tc'.meanIatMs = tc.meanIatMs) : Slot tc frame tc'

/-- A packet is padded or cut to the cell, and the cell is not empty. -/
theorem makeRealFrame_spec (tc : TimingCorrelator ρ) (packet : Packet) :
    RealFrame (some tc.config.cellBytes) packet (makeRealFrame tc packet).1 ∧
      ∃ rng, (makeRealFrame tc packet).2 = { tc with rng } := by
  have hlen : (padToCell tc.config.cellBytes tc.rng packet.bytes).1.length
      = tc.config.cellBytes := padToCell_length ..
  have hne : (padToCell tc.config.cellBytes tc.rng packet.bytes).1 ≠ [] := by
    intro hnil
    have hpos := tc.config_valid.cellBytes_pos
    rw [hnil, List.length_nil] at hlen
    omega
  simp only [makeRealFrame, Packet.new_of_ne_nil hne]
  exact ⟨⟨⟨_, hne⟩, rfl, fitted_padToCell rfl⟩, _, rfl⟩

omit [RngCore ρ] in
/-- Taking the oldest packet moves nothing else. -/
theorem popFront_frame {packet : Packet} (h : popFront tc = some (packet, tc')) :
    tc'.realEmitted = tc.realEmitted ∧ tc'.dummyEmitted = tc.dummyEmitted := by
  unfold popFront at h
  split at h
  · cases h
  · obtain ⟨-, rfl⟩ := Prod.mk.inj (Option.some.inj h)
    exact ⟨rfl, rfl⟩

theorem emitSlot_slot (tc : TimingCorrelator ρ) (forced : Bool) :
    Slot tc (emitSlot tc forced).1 (emitSlot tc forced).2 := by
  unfold emitSlot
  cases hpop : if forced then none else popFront tc with
  | none => exact .dummy rfl ⟨_, rfl, fun n hn => by simpa using hn⟩ ⟨rfl, rfl⟩ ⟨rfl, rfl⟩
  | some r =>
      obtain ⟨packet, tc₁⟩ := r
      cases forced with
      | true => cases hpop
      | false =>
          obtain ⟨hqueue, hconfig, -, hmean, -⟩ := popFront_eq_some hpop
          obtain ⟨hreal, hdummy⟩ := popFront_frame hpop
          obtain ⟨hframe, rng, hrest⟩ := makeRealFrame_spec tc₁ packet
          rw [hconfig] at hframe
          simp only [hrest]
          exact .real hqueue hframe ⟨congrArg (· + 1) hreal, hdummy⟩ ⟨hconfig, hmean⟩

/-- A tick does nothing, or is a slot. -/
theorem tick_slot (clk : Clock) (tc : TimingCorrelator ρ) :
    (∃ clk', tick F clk tc = (none, tc, clk')) ∨
      ∃ frame tc' clk', tick F clk tc = (some frame, tc', clk') ∧ Slot tc frame tc' := by
  rw [tick]
  split
  · exact .inl ⟨_, rfl⟩
  · have hslot := emitSlot_slot { (advanceClock F clk.later tc).1 with
      rng := (slotCoin F tc.config tc.rng tc.meanIatMs).2 }
      (slotCoin F tc.config tc.rng tc.meanIatMs).1
    refine .inr ⟨_, _, _, rfl, ?_⟩
    cases hslot with
    | real head fits counts same => exact .real head fits counts same
    | dummy waits fits counts same => exact .dummy waits fits counts same

/-- The mean has not moved, or it was adapted: it is NaN, or within the bounds that
    adaptation respects. -/
def MeanBounded (tc : TimingCorrelator ρ) : Prop :=
  tc.meanIatMs = tc.config.initialIatMs ∨
    tc.config.adaptRate = true ∧ (tc.meanIatMs = .nan ∨
      tc.config.minIatMs.le tc.meanIatMs = true ∧ tc.meanIatMs.le tc.config.maxIatMs = true)

omit [RngCore ρ] in
/-- An average is NaN, or within the bounds. -/
theorem observeArrival_bounded (F : F64) (tc : TimingCorrelator ρ) {last : Instant}
    (hlast : tc.lastRealArrival = some last) (now : Instant) :
    observeArrival F tc now = .nan ∨
      tc.config.minIatMs.le (observeArrival F tc now) = true ∧
        (observeArrival F tc now).le tc.config.maxIatMs = true := by
  simp only [observeArrival, hlast]
  generalize Double.add F _ _ = mean
  by_cases hmean : mean = .nan
  · rw [hmean, Double.clamped_nan]
    exact .inl rfl
  · exact .inr (Double.le_clamped tc.bounds_ordered hmean)

omit [RngCore ρ] in
/-- A full queue refuses; otherwise the packet waits behind the others. -/
theorem injectReal_cases (F : F64) (clk : Clock) (tc : TimingCorrelator ρ) (packet : Packet)
    (hmean : tc.MeanBounded) :
    (tc.config.maxQueueDepth ≤ tc.realQueue.length ∧
      injectReal F clk tc packet = (.error .queueFull, clk)) ∨
    ∃ tc' clk', injectReal F clk tc packet = (.ok tc', clk') ∧
      tc.realQueue.length < tc.config.maxQueueDepth ∧
      tc'.realQueue = tc.realQueue ++ [packet] ∧ tc'.config = tc.config ∧ tc'.MeanBounded ∧
      tc'.realEmitted = tc.realEmitted ∧ tc'.dummyEmitted = tc.dummyEmitted := by
  unfold injectReal
  split
  · next hfull => exact .inl ⟨hfull, rfl⟩
  · next hroom =>
    right
    split
    · next hadapt =>
      cases hlast : tc.lastRealArrival with
      | none => exact ⟨_, _, rfl, not_le.mp hroom, rfl, rfl, hmean, rfl, rfl⟩
      | some last =>
          exact ⟨_, _, rfl, not_le.mp hroom, rfl, rfl,
            .inr ⟨hadapt, observeArrival_bounded F tc hlast clk.now⟩, rfl, rfl⟩
    · exact ⟨_, _, rfl, not_le.mp hroom, rfl, rfl, hmean, rfl, rfl⟩

end TimingCorrelator

-- ============================================================================
-- Runs
-- ============================================================================

/-- A scheduler with what was injected into it and what it has emitted. -/
structure SlotQueue (ρ : Type) where
  tc : TimingCorrelator ρ
  /-- The packets that were not refused. -/
  accepted : List Packet
  emitted : List MixedFrame

namespace SlotQueue

variable {ρ : Type} [RngCore ρ]

inductive Event where
  | injectReal (clk : Clock) (packet : Packet)
  | tick (clk : Clock)
  | restartClock (clk : Clock)

def start (tc : TimingCorrelator ρ) : SlotQueue ρ := ⟨tc, [], []⟩

def step (F : F64) (s : SlotQueue ρ) : Event → Option (SlotQueue ρ)
  | .injectReal clk packet =>
      match s.tc.injectReal F clk packet with
      | (.ok tc, _) => some { s with tc, accepted := s.accepted ++ [packet] }
      | (.error _, _) => some s
  | .tick clk =>
      match s.tc.tick F clk with
      | (some frame, tc, _) => some { s with tc, emitted := s.emitted ++ [frame] }
      | (none, tc, _) => some { s with tc }
  | .restartClock clk => some { s with tc := (s.tc.restartClock F clk).1 }

/-- The packets accepted are those sent, in order, and those that wait; what was sent
    beside them were dummies, and both are counted. -/
structure Queued (config : TimingCorrelatorConfig) (s : SlotQueue ρ) : Prop where
  config_eq : s.tc.config = config
  fifo : ∃ out, s.accepted = out ++ s.tc.realQueue ∧ s.tc.realEmitted = out.length ∧
    Interleaved (RealFrame (some config.cellBytes)) (DummyFrame (some config.cellBytes)) out
      s.tc.dummyEmitted s.emitted
  mean : s.tc.MeanBounded

variable {F : F64} {config : TimingCorrelatorConfig} {s t : SlotQueue ρ}

theorem step_queued {e : Event} (h : s.Queued config) (hstep : step F s e = some t) :
    t.Queued config := by
  obtain ⟨hconfig, ⟨out, haccepted, hreal, hframes⟩, hmean⟩ := h
  cases e with
  | injectReal clk packet =>
      rw [step] at hstep
      rcases TimingCorrelator.injectReal_cases F clk s.tc packet hmean with ⟨-, hinj⟩ |
        ⟨tc, clk', hinj, -, hqueue, hcfg, hmean', hr, hd⟩
      · rw [hinj] at hstep
        obtain rfl := Option.some.inj hstep
        exact ⟨hconfig, ⟨out, haccepted, hreal, hframes⟩, hmean⟩
      · rw [hinj] at hstep
        obtain rfl := Option.some.inj hstep
        refine ⟨hcfg.trans hconfig, ⟨out, ?_, hr.trans hreal, ?_⟩, hmean'⟩
        · show s.accepted ++ [packet] = out ++ tc.realQueue
          rw [haccepted, hqueue, List.append_assoc]
        · rw [← hd] at hframes
          exact hframes
  | tick clk =>
      rw [step] at hstep
      rcases TimingCorrelator.tick_slot (F := F) clk s.tc with ⟨clk', htick⟩ |
        ⟨frame, tc, clk', htick, hslot⟩
      · rw [htick] at hstep
        obtain rfl := Option.some.inj hstep
        exact ⟨hconfig, ⟨out, haccepted, hreal, hframes⟩, hmean⟩
      · rw [htick] at hstep
        obtain rfl := Option.some.inj hstep
        cases hslot with
        | @real p _ _ head fits counts same =>
            rw [hconfig] at fits
            refine ⟨same.1.trans hconfig, ⟨out ++ [p], ?_, ?_, ?_⟩, ?_⟩
            · rw [haccepted, head, List.append_assoc]
              rfl
            · rw [counts.1, hreal, List.length_append, List.length_singleton]
            · rw [counts.2]
              exact hframes.append (.item fits .nil)
            · rwa [TimingCorrelator.MeanBounded, same.1, same.2]
        | dummy waits fits counts same =>
            rw [hconfig] at fits
            refine ⟨same.1.trans hconfig, ⟨out, ?_, ?_, ?_⟩, ?_⟩
            · rw [haccepted, waits]
            · rw [counts.1, hreal]
            · rw [counts.2]
              have := hframes.append (.filler fits .nil)
              rwa [List.append_nil] at this
            · rwa [TimingCorrelator.MeanBounded, same.1, same.2]
  | restartClock clk =>
      obtain rfl := Option.some.inj hstep
      exact ⟨hconfig, ⟨out, haccepted, hreal, hframes⟩, hmean⟩

/-- **The scheduler is a bounded queue among dummies.**  For every valid configuration,
    every generator, every rounding and every clock, in every state of every run: what
    was accepted has left in order in real frames or waits, the other frames are
    dummies, every frame has the size of the cell, the queue is within its depth and
    refuses a packet exactly when it is full, and the mean interval is the initial one
    or, at an adaptive rate, within its bounds or NaN. -/
theorem always_queued (clk clk' : Clock) (config : TimingCorrelatorConfig) (rng : ρ)
    {tc : TimingCorrelator ρ} (hnew : TimingCorrelator.new F clk config rng = some (.ok (tc, clk')))
    (events : List Event) :
    Machine.Always (step F) (fun s => s.Queued config ∧
      (∀ f ∈ s.emitted, f.len = config.cellBytes) ∧
      s.tc.realQueue.length ≤ config.maxQueueDepth ∧
      ∀ clk packet, (s.tc.injectReal F clk packet).1 = .error .queueFull ↔
        s.tc.realQueue.length = config.maxQueueDepth) (start tc) events := by
  have hstart : (start tc).Queued config := by
    obtain ⟨hconfig, -⟩ := TimingCorrelator.new_eq_ok hnew
    have hvalid : config.Valid := hconfig ▸ tc.config_valid
    have hord : config.minIatMs.le config.maxIatMs = true := hconfig ▸ tc.bounds_ordered
    rw [TimingCorrelator.new_of_valid hvalid hord clk rng] at hnew
    obtain ⟨rfl, -⟩ := Prod.mk.inj (Except.ok.inj (Option.some.inj hnew))
    exact ⟨rfl, ⟨[], rfl, rfl, .nil⟩, .inl rfl⟩
  refine (Machine.always_of_invariant (fun _ _ _ h hs => step_queued h hs) hstart events).mono ?_
  intro s h
  obtain ⟨out, -, -, hframes⟩ := h.fifo
  refine ⟨h, hframes.forall_mem ?_ ?_, h.config_eq ▸ s.tc.realQueue_le, fun clk packet => ?_⟩
  · rintro p _ ⟨q, rfl, hq⟩
    exact hq.len_eq
  · rintro _ ⟨b, rfl, hb⟩
    exact hb _ rfl
  · have hle := s.tc.realQueue_le
    rw [h.config_eq] at hle
    rcases TimingCorrelator.injectReal_cases F clk s.tc packet h.mean with ⟨hfull, hinj⟩ |
      ⟨tc', clk', hinj, hroom, -⟩
    · rw [hinj]
      rw [h.config_eq] at hfull
      exact ⟨fun _ => le_antisymm hle hfull, fun _ => rfl⟩
    · rw [hinj]
      rw [h.config_eq] at hroom
      exact ⟨nofun, fun he => absurd he hroom.ne⟩

/-- A scheduler with room for one packet and cells of two bytes. -/
def tinyConfig : TimingCorrelatorConfig where
  cellBytes := 2
  initialIatMs := .finite 5
  emaAlpha := .finite 1
  minIatMs := .finite 1
  maxIatMs := .finite 60
  maxQueueDepth := 1
  adaptRate := true
  minDummyFraction := .finite 0

theorem tinyConfig_valid : tinyConfig.Valid := by
  constructor <;> decide

/-- A packet waits, a second is refused, the slot sends the first one padded. -/
theorem always_queued_tiny :
    (Machine.run (step .steep)
        (start (TimingCorrelator.start .steep (.const 0) tinyConfig tinyConfig_valid
          (by decide) (⟨0⟩ : FixedRng)).1)
        [.injectReal (.const 0) ⟨[7], by decide⟩, .injectReal (.const 0) ⟨[8], by decide⟩,
          .tick (.const 60000000)]).map (fun s => (s.accepted.map Packet.bytes,
            s.emitted.map fun f => f.packet?.map Packet.bytes))
      = some ([[7]], [some [7, 0]]) ∧
    Machine.Always (step .steep) (fun s => s.Queued tinyConfig ∧
      (∀ f ∈ s.emitted, f.len = tinyConfig.cellBytes) ∧
      s.tc.realQueue.length ≤ tinyConfig.maxQueueDepth ∧
      ∀ clk packet, (s.tc.injectReal .steep clk packet).1 = .error .queueFull ↔
        s.tc.realQueue.length = tinyConfig.maxQueueDepth)
      (start (TimingCorrelator.start .steep (.const 0) tinyConfig tinyConfig_valid
        (by decide) (⟨0⟩ : FixedRng)).1)
      [.injectReal (.const 0) ⟨[7], by decide⟩, .injectReal (.const 0) ⟨[8], by decide⟩,
        .tick (.const 60000000)] :=
  ⟨by decide +kernel, always_queued (.const 0) _ tinyConfig (⟨0⟩ : FixedRng)
    (TimingCorrelator.new_of_valid tinyConfig_valid (by decide) (.const 0)
      (⟨0⟩ : FixedRng)) _⟩

end SlotQueue

end MixTor
