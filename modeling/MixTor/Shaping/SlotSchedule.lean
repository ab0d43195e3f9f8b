/-
  MixTor.Shaping.SlotSchedule

  The departure slots of a fixed-rate clock, and the polls that serve them.

  A slot is scheduled from the slot before it, not from the poll that fires it, so
  the slots are a sequence that the generator and the start of the clock fix.  The
  catch-up clamp would move the schedule, but between polls at most 200 ms apart it
  never fires: a full drain leaves the next slot later than its last reading.

  All of this needs a mean that is a number.  `validate` rejects an `initial_iat_ms`
  that is at most 0, and NaN is not: with it every slot has length 0, the slots are one
  instant, and a full drain at or after it does not end.
-/

import MixTor.Lib.Machine
import MixTor.Shaping.DrainReady
import Mathlib.Order.Monotone.Basic

namespace MixTor

open Crypto (Bytes)

/-- The generator of a departure clock and its next slot. -/
structure DepartureClock (ρ : Type) where
  rng : ρ
  nextDeparture : Instant

namespace DepartureClock

variable {ρ : Type} [RngCore ρ]

section

variable (F : F64) (config : TimingCorrelatorConfig) (meanMs : Double)

/-- The clock after its next slot, scheduled from that slot. -/
def fire (c : DepartureClock ρ) : DepartureClock ρ where
  rng := (TimingCorrelator.slotCoin F config c.rng meanMs).2
  nextDeparture := c.nextDeparture + (TimingCorrelator.slotStep F config c.rng meanMs).1

/-- The slots of the clock, the next one at index 0. -/
def slotTime (c : DepartureClock ρ) (n : Nat) : Instant :=
  ((fire F config meanMs)^[n] c).nextDeparture

end

variable {F : F64} {config : TimingCorrelatorConfig} {meanMs : Double}

theorem slotTime_succ (c : DepartureClock ρ) (n : Nat) :
    c.slotTime F config meanMs (n + 1) = (c.fire F config meanMs).slotTime F config meanMs n := rfl

end DepartureClock

namespace TimingCorrelator

variable {ρ : Type} [RngCore ρ] {F : F64}

/-- The departure clock of a scheduler. -/
def departure (tc : TimingCorrelator ρ) : DepartureClock ρ := ⟨tc.rng, tc.nextDeparture⟩

/-- The slots of a scheduler from now on. -/
def slotTime (F : F64) (tc : TimingCorrelator ρ) : Nat → Instant :=
  tc.departure.slotTime F tc.config tc.meanIatMs

/-- Slots are strictly ordered in time, as long as the mean is a number. -/
theorem MovesOn.slotTime_strictMono (hF : F.Lawful) (hln : F.LnNegative) {m : Rat}
    {tc : TimingCorrelator ρ} (h : tc.MovesOn m) : StrictMono (tc.slotTime F) := by
  refine strictMono_nat_of_lt_succ fun n => ?_
  rw [slotTime, DepartureClock.slotTime, DepartureClock.slotTime, Function.iterate_succ_apply']
  have hstep := h.le_slotStep hF hln
    ((DepartureClock.fire F tc.config tc.meanIatMs)^[n] tc.departure).rng
  have hmicros := thousand_le_minStepMicros h.one_le
  refine Nat.lt_add_of_pos_right (Nat.lt_of_lt_of_le ?_ hstep)
  exact Nat.mul_pos (Nat.lt_of_lt_of_le (by decide) hmicros) (by decide)

/-- At a mean of NaN the first two slots are one instant. -/
theorem slotTime_one_of_nan {tc : TimingCorrelator ρ} (hmean : tc.meanIatMs = .nan) :
    tc.slotTime F 1 = tc.slotTime F 0 := by
  show tc.nextDeparture + (slotStep F tc.config tc.rng tc.meanIatMs).1 = tc.nextDeparture
  rw [hmean, slotStep_nan]
  exact Nat.add_zero tc.nextDeparture

/-- Within the catch-up limit a slot is scheduled from the one before it. -/
theorem nextSlot_of_le {prev : Instant} {step : Duration} {now : Instant}
    (h : now ≤ prev + maxCatchupLag) : nextSlot prev step now = prev + step := by
  rw [nextSlot, if_neg]
  exact not_lt.mpr (h.trans (Nat.add_le_add_right (Nat.le_add_right _ _) _))

/-- A slot that fires within the catch-up limit takes the clock to its next slot. -/
theorem tick_onSchedule {clk : Clock} {tc : TimingCorrelator ρ} (hsz : tc.CellSized)
    (hdue : tc.nextDeparture ≤ clk.now) (hlag : clk.later.now ≤ tc.nextDeparture + maxCatchupLag) :
    ∃ frame tc', tick F clk tc = (some frame, tc', clk.later.later) ∧ tc'.CellSized ∧
      tc'.config = tc.config ∧ tc'.meanIatMs = tc.meanIatMs ∧
      tc'.departure = tc.departure.fire F tc.config tc.meanIatMs := by
  obtain ⟨frame, tc', htick, hem, -, hcfg, hmean, hrng, hnext⟩ := tick_of_le (F := F) hsz hdue
  refine ⟨frame, tc', htick, ?_, hcfg, hmean, ?_⟩
  · intro p hp
    rw [hcfg]
    cases hem with
    | real p' _ head => exact hsz p (head ▸ List.mem_cons_of_mem _ hp)
    | dummy b _ same => exact hsz p (same ▸ hp)
  · rw [departure, hrng, hnext, nextSlot_of_le hlag]
    rfl

/-- A drain within the catch-up limit emits one frame for each slot up to its last
    reading, in order.  The induction is on the fuel; the clock moves on by one slot
    in every round. -/
theorem drainReady_onSchedule {fuel : Nat} {clk : Clock} {tc tc' : TimingCorrelator ρ}
    {out : List (Instant × MixedFrame)} {stop : Instant} (hsz : tc.CellSized)
    (hlag : stop ≤ tc.nextDeparture + maxCatchupLag)
    (h : drainReady F fuel clk tc = some (out, tc', stop)) :
    tc'.CellSized ∧ tc'.config = tc.config ∧ tc'.meanIatMs = tc.meanIatMs ∧
      tc'.departure = (DepartureClock.fire F tc.config tc.meanIatMs)^[out.length] tc.departure ∧
      out.map Prod.fst = (List.range out.length).map (tc.slotTime F) ∧
      ∀ i < out.length, tc.slotTime F i ≤ stop := by
  induction fuel generalizing clk tc out with
  | zero => cases h
  | succ fuel ih =>
      rcases Nat.lt_or_ge clk.now tc.nextDeparture with hlt | hle
      · rw [drainReady_of_early hlt] at h
        cases h
        exact ⟨hsz, rfl, rfl, rfl, rfl, fun i hi => absurd hi (Nat.not_lt_zero i)⟩
      · obtain ⟨frame₀, tc₀, htick₀, -⟩ := tick_due (F := F) hle
        rw [drainReady_of_due htick₀] at h
        obtain ⟨⟨out', tc'', stop'⟩, hr', hout⟩ := Option.map_eq_some_iff.mp h
        cases hout
        have hafter := (drainReady_stop hr').2.1
        have hstop : clk.later.now ≤ stop := (clk.mono (Nat.le_succ 1)).trans hafter
        obtain ⟨frame, tc₁, htick, hsz₁, hcfg, hmean, hdep⟩ :=
          tick_onSchedule (F := F) hsz hle (hstop.trans hlag)
        obtain ⟨-, rfl⟩ : some frame₀ = some frame ∧ tc₀ = tc₁ := by
          rw [htick₀] at htick
          obtain ⟨hframe, hrest⟩ := Prod.mk.inj htick
          exact ⟨hframe, (Prod.mk.inj hrest).1⟩
        have hnext : tc.nextDeparture ≤ tc₀.nextDeparture := by
          have hmove := congrArg DepartureClock.nextDeparture hdep
          exact (Nat.le_add_right _ _).trans hmove.symm.le
        have hslot : ∀ i, tc₀.slotTime F i = tc.slotTime F (i + 1) := fun i => by
          rw [slotTime, slotTime, DepartureClock.slotTime_succ, hdep, hcfg, hmean]
        obtain ⟨hsz', hcfg', hmean', hdep', hslots, hle'⟩ :=
          ih hsz₁ (hlag.trans (Nat.add_le_add_right hnext _)) hr'
        refine ⟨hsz', hcfg'.trans hcfg, hmean'.trans hmean, ?_, ?_, ?_⟩
        · rw [hdep', hdep, hcfg, hmean]
          rfl
        · rw [List.map_cons, hslots, List.length_cons, List.range_succ_eq_map, List.map_cons,
            List.map_map]
          exact congrArg _ (List.map_congr_left fun i _ => hslot i)
        · intro i hi
          cases i with
          | zero => exact hle.trans ((clk.mono (Nat.zero_le 1)).trans hstop)
          | succ i =>
              rw [← hslot i]
              exact hle' i (Nat.lt_of_succ_lt_succ hi)

/-- The clock was set by construction or by `restart_clock`, from the first reading
    of `clk`.  At a fixed rate the mean is the initial one for ever. -/
inductive Started (F : F64) (clk : Clock) : TimingCorrelator ρ → Prop
  | constructed (config : TimingCorrelatorConfig) (rng : ρ) (tc : TimingCorrelator ρ)
      (clk' : Clock) (hnew : new F clk config rng = some (.ok (tc, clk'))) : Started F clk tc
  | restarted (tc : TimingCorrelator ρ) (hsz : tc.CellSized)
      (hmean : tc.meanIatMs = tc.config.initialIatMs) : Started F clk (restartClock F clk tc).1

/-- The mean is the initial one, and the clock was moved on by one step. -/
theorem Started.spec {clk : Clock} {tc : TimingCorrelator ρ} (h : Started F clk tc) :
    tc.CellSized ∧ tc.meanIatMs = tc.config.initialIatMs ∧
      ∃ rng : ρ, tc.nextDeparture
        = nextSlot clk.now (slotStep F tc.config rng tc.meanIatMs).1 clk.later.now := by
  cases h with
  | constructed config rng tc clk' hnew =>
      unfold new at hnew
      split at hnew
      · cases hnew
      · split at hnew
        · obtain ⟨rfl, -⟩ := Prod.mk.inj (Except.ok.inj (Option.some.inj hnew))
          exact ⟨fun p hp => absurd hp List.not_mem_nil, rfl, _, rfl⟩
        · cases hnew
  | restarted tc₀ hsz hmean => exact ⟨hsz, hmean, _, rfl⟩

/-- The first slot comes after the clock was set, if the mean is a number. -/
theorem Started.ahead (hF : F.Lawful) (hln : F.LnNegative) {clk : Clock}
    {tc : TimingCorrelator ρ} (h : Started F clk tc) {m : Rat} (hmoves : tc.MovesOn m) :
    clk.now < tc.nextDeparture := by
  obtain ⟨-, -, rng, hnext⟩ := h.spec
  have hstep := hmoves.le_slotStep hF hln rng
  have hmicros := thousand_le_minStepMicros hmoves.one_le
  rw [hnext]
  refine Nat.lt_of_lt_of_le ?_ (add_le_nextSlot _ _ _)
  refine Nat.lt_add_of_pos_right (Nat.lt_of_lt_of_le ?_ hstep)
  exact Nat.mul_pos (Nat.lt_of_lt_of_le (by decide) hmicros) (by decide)

end TimingCorrelator

-- ============================================================================
-- Polling
-- ============================================================================

/-- A scheduler and what its polls have brought. -/
structure PolledClock (ρ : Type) where
  tc : TimingCorrelator ρ
  /-- The instant of the last full drain, or at which the clock was set. -/
  last : Instant
  /-- Every frame emitted, with its slot. -/
  emitted : List (Instant × MixedFrame)

namespace PolledClock

variable {ρ : Type} [RngCore ρ]

inductive Event where
  | inject (clk : Clock) (packet : Packet)
  /-- Tick until `None`. -/
  | drain (clk : Clock)

def set (clk : Clock) (tc : TimingCorrelator ρ) : PolledClock ρ := ⟨tc, clk.now, []⟩

def step (F : F64) (s : PolledClock ρ) : Event → Option (PolledClock ρ)
  | .inject clk packet =>
      match (s.tc.injectReal F clk packet).1 with
      | .ok tc => some { s with tc }
      | .error _ => some s  -- the queue is full
  | .drain clk =>
      if s.last ≤ clk.now then
        (s.tc.fullDrain F clk).map fun (out, tc, stop) => ⟨tc, stop, s.emitted ++ out⟩
      else none

/-- Packets have the cell size, and a drain ends at most 200 ms after the last one. -/
def Close (F : F64) (s : PolledClock ρ) : Event → Prop
  | .inject _ packet => packet.len = s.tc.config.cellBytes
  | .drain clk => ∀ r, s.tc.fullDrain F clk = some r →
      r.2.2 ≤ s.last + TimingCorrelator.maxCatchupLag

instance (F : F64) (s : PolledClock ρ) : (e : Event) → Decidable (Close F s e)
  | .inject _ packet => inferInstanceAs (Decidable (packet.len = s.tc.config.cellBytes))
  | .drain clk =>
      match h : s.tc.fullDrain F clk with
      | none => isTrue fun r hr => by
          rw [h] at hr
          cases hr
      | some r =>
          decidable_of_iff (r.2.2 ≤ s.last + TimingCorrelator.maxCatchupLag) (by
            constructor
            · intro hle r' hr'
              obtain rfl := Option.some.inj (h.symm.trans hr')
              exact hle
            · exact fun hall => hall r h)

variable {F : F64}

/-- `tc₀` is the scheduler whose clock was set, `s` the state some polls later. -/
structure OnSchedule (F : F64) (tc₀ : TimingCorrelator ρ) (s : PolledClock ρ) : Prop where
  cellSized : s.tc.CellSized
  config : s.tc.config = tc₀.config
  meanIatMs : s.tc.meanIatMs = tc₀.meanIatMs
  departure : s.tc.departure
    = (DepartureClock.fire F tc₀.config tc₀.meanIatMs)^[s.emitted.length] tc₀.departure
  slots : s.emitted.map Prod.fst = (List.range s.emitted.length).map (tc₀.slotTime F)
  past : ∀ i < s.emitted.length, tc₀.slotTime F i ≤ s.last
  ahead : s.last < s.tc.nextDeparture

/-- Every slot up to the last drain was served, once and in order, and no other. -/
structure Served (F : F64) (tc₀ : TimingCorrelator ρ) (s : PolledClock ρ) : Prop where
  slots : s.emitted.map Prod.fst = (List.range s.emitted.length).map (tc₀.slotTime F)
  all : ∀ i, tc₀.slotTime F i ≤ s.last ↔ i < s.emitted.length
  /-- A further drain comes to an end. -/
  drains : ∀ clk, (s.tc.fullDrain F clk).isSome

variable {tc₀ : TimingCorrelator ρ} {s s' : PolledClock ρ}

/-- The slots of the scheduler are those behind the ones already served. -/
theorem OnSchedule.slotTime (h : s.OnSchedule F tc₀) (i : Nat) :
    s.tc.slotTime F i = tc₀.slotTime F (i + s.emitted.length) := by
  rw [TimingCorrelator.slotTime, TimingCorrelator.slotTime, DepartureClock.slotTime,
    DepartureClock.slotTime, h.departure, h.config, h.meanIatMs, Function.iterate_add_apply]

theorem OnSchedule.served (hF : F.Lawful) (hln : F.LnNegative) {m : Rat}
    (hmoves : tc₀.MovesOn m) (h : s.OnSchedule F tc₀) : s.Served F tc₀ := by
  have hmono : StrictMono (tc₀.slotTime F) := hmoves.slotTime_strictMono hF hln
  refine ⟨h.slots, fun i => ⟨fun hle => ?_, h.past i⟩, fun clk => ?_⟩
  · by_contra hge
    have hnext : s.tc.nextDeparture = tc₀.slotTime F s.emitted.length := by
      have := h.slotTime 0
      rwa [Nat.zero_add] at this
    have hlate := hmono.monotone (not_lt.mp hge)
    exact absurd (h.ahead.trans_le (hnext.trans_le hlate)) (not_lt.mpr hle)
  · refine TimingCorrelator.drainReady_isSome hF hln (hmoves.of_same h.config h.meanIatMs)
      (Nat.succ_pos _) ?_
    unfold Instant at *
    omega

/-- An injection at a fixed rate leaves the clock alone. -/
theorem OnSchedule.inject (hfix : tc₀.config.adaptRate = false) (h : s.OnSchedule F tc₀)
    {clk : Clock} {packet : Packet} (hlen : packet.len = s.tc.config.cellBytes)
    (hstep : step F s (.inject clk packet) = some s') : s'.OnSchedule F tc₀ := by
  rw [step] at hstep
  by_cases hroom : s.tc.hasQueueSpace = true
  · obtain ⟨tc', hinj, hqueue, hcfg, hrng, hmean, hnext⟩ :=
      TimingCorrelator.injectReal_of_space (F := F) clk packet (h.config ▸ hfix) hroom
    rw [hinj] at hstep
    obtain rfl := Option.some.inj hstep
    refine ⟨?_, hcfg.trans h.config, hmean.trans h.meanIatMs, ?_, h.slots, h.past, ?_⟩
    · intro p hp
      rw [hcfg]
      rw [hqueue, List.mem_append, List.mem_singleton] at hp
      rcases hp with hp | rfl
      · exact h.cellSized p hp
      · exact hlen
    · rw [← h.departure, TimingCorrelator.departure, TimingCorrelator.departure, hrng, hnext]
    · rw [show s.last < tc'.nextDeparture ↔ s.last < s.tc.nextDeparture by rw [hnext]]
      exact h.ahead
  · have hfull : s.tc.config.maxQueueDepth ≤ s.tc.realQueue.length := by
      simpa [TimingCorrelator.hasQueueSpace] using hroom
    rw [TimingCorrelator.injectReal, dif_pos hfull] at hstep
    obtain rfl := Option.some.inj hstep
    exact h

/-- A drain that is close to the last one serves the slots in between. -/
theorem OnSchedule.drain (h : s.OnSchedule F tc₀) {clk : Clock}
    (hclose : s.Close F (.drain clk)) (hstep : step F s (.drain clk) = some s') :
    s'.OnSchedule F tc₀ := by
  rw [step] at hstep
  split at hstep
  · next hlast =>
    obtain ⟨⟨out, tc', stop⟩, hdrain, rfl⟩ := Option.map_eq_some_iff.mp hstep
    have hlag : stop ≤ s.tc.nextDeparture + TimingCorrelator.maxCatchupLag :=
      (hclose _ hdrain).trans (Nat.add_le_add_right (Nat.le_of_lt h.ahead) _)
    obtain ⟨hnext, hnow, -, -⟩ := TimingCorrelator.drainReady_stop hdrain
    obtain ⟨hsz, hcfg, hmean, hdep, hslots, hpast⟩ :=
      TimingCorrelator.drainReady_onSchedule h.cellSized hlag hdrain
    have hlen : (s.emitted ++ out).length = out.length + s.emitted.length := by
      rw [List.length_append, Nat.add_comm]
    refine ⟨hsz, hcfg.trans h.config, hmean.trans h.meanIatMs, ?_, ?_, ?_, hnext⟩
    · rw [hdep, h.departure, h.config, h.meanIatMs, hlen, Function.iterate_add_apply]
    · rw [hlen, List.map_append, h.slots, hslots, Nat.add_comm, List.range_add, List.map_append,
        List.map_map]
      refine congrArg _ (List.map_congr_left fun i _ => ?_)
      rw [h.slotTime, Nat.add_comm]
      rfl
    · intro i hi
      rw [hlen] at hi
      rcases Nat.lt_or_ge i s.emitted.length with hold | hnew
      · exact (h.past i hold).trans (hlast.trans hnow)
      · have hi' : i - s.emitted.length < out.length := by omega
        have hle := hpast _ hi'
        rwa [h.slotTime, Nat.sub_add_cancel hnew] at hle
  · cases hstep

/-- **Polling does not move the slots, as long as the mean is a number.**  Along every
    run of full drains at most 200 ms apart, with any injections of cell-sized packets
    in between, the drains so far have emitted one frame for each slot up to the last
    of them, in order, and no other frame. -/
theorem always_served_of_movesOn (hF : F.Lawful) (hln : F.LnNegative) {clk : Clock}
    (hstart : TimingCorrelator.Started F clk tc₀) (hfix : tc₀.config.adaptRate = false) {m : Rat}
    (hmoves : tc₀.MovesOn m) {events : List Event}
    (hclose : Machine.Meets (step F) (Close F) (set clk tc₀) events) :
    Machine.Always (step F) (Served F tc₀) (set clk tc₀) events := by
  have hinit : (set clk tc₀).OnSchedule F tc₀ :=
    ⟨hstart.spec.1, rfl, rfl, rfl, rfl, fun i hi => absurd hi (Nat.not_lt_zero i),
      hstart.ahead hF hln hmoves⟩
  have hstep : ∀ (s : PolledClock ρ) (e : Event) (s' : PolledClock ρ), s.OnSchedule F tc₀ →
      s.Close F e → step F s e = some s' → s'.OnSchedule F tc₀ := by
    intro s e s' h hc hs
    cases e with
    | inject clk packet => exact h.inject hfix hc hs
    | drain clk => exact h.drain hc hs
  exact (Machine.always_of_meets hstep hinit hclose).mono fun _ h => h.served hF hln hmoves

/-- The slots are one strictly increasing sequence, and every run of close full drains
    serves each of them once. -/
def OneSchedule (F : F64) (clk : Clock) (tc₀ : TimingCorrelator ρ) : Prop :=
  StrictMono (tc₀.slotTime F) ∧
    ∀ events : List Event, Machine.Meets (step F) (Close F) (set clk tc₀) events →
      Machine.Always (step F) (Served F tc₀) (set clk tc₀) events

open TimingCorrelator (fastClock fastConfig fastConfig_valid nanClock nanConfig nanConfig_valid
  new_of_valid)

/-- A poll after one slot of 2 ms, a packet, and a poll three slots later. -/
def twoPolls : List Event :=
  [.drain (.const (Duration.fromMillis 3)),
    .inject (.const (Duration.fromMillis 4)) ⟨List.replicate 514 7, List.cons_ne_nil _ _⟩,
    .drain (.const (Duration.fromMillis 9))]

end PolledClock

end MixTor
