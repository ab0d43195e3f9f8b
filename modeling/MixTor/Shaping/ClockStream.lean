/-
  MixTor.Shaping.ClockStream

  The generator behind the departure clock, and who else draws from it.

  `TimingCorrelator.rng` is documented as the generator of the clock only, advanced
  a fixed amount per slot: one draw for the interval, one for the dummy coin.  Dummy
  payloads come from `content_rng`.  The padding of a short real packet does not:
  `pad_to_cell` fills it from `rng`, so a slot that takes a packet below the cell
  size moves the clock's stream, and with it every later interval and coin.
-/

import MixTor.Shaping.SlotSchedule

namespace MixTor

open Crypto (Bytes)

/-- An action on the clock: the polls that two runs are to share. -/
inductive Poll where
  | tick (clk : Clock)
  | restart (clk : Clock)

/-- What a poll shows of the clock: the coin of the slot it fired, if it fired one,
    and the next departure. -/
structure SlotView where
  forced : Option Bool
  nextDeparture : Instant
  deriving DecidableEq, Repr

-- ============================================================================
-- The clock alone
-- ============================================================================

namespace DepartureClock

variable {ρ : Type} [RngCore ρ] (F : F64) (config : TimingCorrelatorConfig) (meanMs : Double)

/-- A poll of a clock that draws one interval and one coin per slot. -/
def poll (c : DepartureClock ρ) : Poll → SlotView × DepartureClock ρ
  | .tick clk =>
      if clk.now < c.nextDeparture then (⟨none, c.nextDeparture⟩, c)
      else
        let next := TimingCorrelator.nextSlot c.nextDeparture
          (TimingCorrelator.slotStep F config c.rng meanMs).1 clk.later.now
        let coin := TimingCorrelator.slotCoin F config c.rng meanMs
        (⟨some coin.1, next⟩, ⟨coin.2, next⟩)
  | .restart clk =>
      let step := TimingCorrelator.slotStep F config c.rng meanMs
      let next := TimingCorrelator.nextSlot clk.now step.1 clk.later.now
      (⟨none, next⟩, ⟨step.2, next⟩)

/-- What a sequence of polls shows. -/
def schedule (c : DepartureClock ρ) : List Poll → List SlotView
  | [] => []
  | p :: ps => (c.poll F config meanMs p).1 :: schedule (c.poll F config meanMs p).2 ps

end DepartureClock

-- ============================================================================
-- What the frame of a slot does to the clock's generator
-- ============================================================================

/-- Data that fills the cell draws no padding. -/
theorem padToCell_of_le {ρ : Type} [RngCore ρ] {target : Nat} {data : Bytes} (rng : ρ)
    (h : target ≤ data.length) : padToCell target rng data = (data.take target, rng) := by
  rw [padToCell]
  split
  · next heq => rw [← heq, List.take_length]
  · rw [if_neg (not_lt.mpr h)]

namespace TimingCorrelator

variable {ρ : Type} [RngCore ρ] {F : F64}

/-- A slot whose packet fills the cell, or that takes none, leaves the generator of
    the clock where the coin left it. -/
theorem emitSlot_rng (tc : TimingCorrelator ρ) (forced : Bool)
    (hfull : forced = false → ∀ p ∈ tc.realQueue.head?, tc.config.cellBytes ≤ p.len) :
    (emitSlot tc forced).2.rng = tc.rng := by
  unfold emitSlot
  cases hpop : if forced then none else popFront tc with
  | none => rfl
  | some r =>
      obtain ⟨packet, tc'⟩ := r
      cases forced with
      | true => cases hpop
      | false =>
          obtain ⟨hqueue, hcfg, hrng, -, -⟩ := popFront_eq_some hpop
          have hlen : tc'.config.cellBytes ≤ packet.bytes.length := by
            rw [hcfg]
            exact hfull rfl packet (by rw [hqueue]; rfl)
          have hkeep : (makeRealFrame tc' packet).2.rng = tc'.rng := by
            unfold makeRealFrame
            rw [padToCell_of_le tc'.rng hlen]
            dsimp only
            split <;> rfl
          exact hkeep.trans hrng

/-- A slot takes packets out of the queue, and puts none in. -/
theorem emitSlot_queue (tc : TimingCorrelator ρ) (forced : Bool) :
    (emitSlot tc forced).2.realQueue <:+ tc.realQueue := by
  unfold emitSlot
  cases hpop : if forced then none else popFront tc with
  | none => exact List.suffix_rfl
  | some r =>
      obtain ⟨packet, tc'⟩ := r
      cases forced with
      | true => cases hpop
      | false =>
          have hkeep : (makeRealFrame tc' packet).2.realQueue = tc'.realQueue := by
            unfold makeRealFrame
            dsimp only
            split <;> rfl
          rw [(popFront_eq_some hpop).1]
          exact hkeep ▸ List.suffix_cons packet tc'.realQueue

theorem tick_queue (clk : Clock) (tc : TimingCorrelator ρ) :
    (tick F clk tc).2.1.realQueue <:+ tc.realQueue := by
  rw [tick]
  split
  · exact List.suffix_rfl
  · exact emitSlot_queue { (advanceClock F clk.later tc).1 with
      rng := (slotCoin F tc.config tc.rng tc.meanIatMs).2 } _

/-- A slot that comes due moves the clock by its interval and its coin alone, if its
    packet fills the cell. -/
theorem tick_departure {clk : Clock} {tc : TimingCorrelator ρ} (hdue : tc.nextDeparture ≤ clk.now)
    (hfull : (slotCoin F tc.config tc.rng tc.meanIatMs).1 = false →
      ∀ p ∈ tc.realQueue.head?, tc.config.cellBytes ≤ p.len) :
    (tick F clk tc).2.1.departure
      = (tc.departure.poll F tc.config tc.meanIatMs (.tick clk)).2 := by
  have hrng := emitSlot_rng { (advanceClock F clk.later tc).1 with
    rng := (slotCoin F tc.config tc.rng tc.meanIatMs).2 } _ hfull
  obtain ⟨-, -, hnext⟩ := emitSlot_schedule { (advanceClock F clk.later tc).1 with
    rng := (slotCoin F tc.config tc.rng tc.meanIatMs).2 }
    (slotCoin F tc.config tc.rng tc.meanIatMs).1
  have hdue' : ¬ clk.now < tc.departure.nextDeparture := not_lt.mpr hdue
  rw [tick, if_neg (not_lt.mpr hdue), DepartureClock.poll, if_neg hdue']
  exact congrArg₂ DepartureClock.mk hrng hnext

omit [RngCore ρ] in
/-- At a fixed rate an injection leaves the clock alone, accepted or not. -/
theorem injectReal_clock {tc tc' : TimingCorrelator ρ} {clk : Clock} {packet : Packet}
    (hfix : tc.config.adaptRate = false) (h : (injectReal F clk tc packet).1 = .ok tc') :
    tc'.config = tc.config ∧ tc'.meanIatMs = tc.meanIatMs ∧ tc'.departure = tc.departure ∧
      tc'.realQueue = tc.realQueue ++ [packet] := by
  by_cases hroom : tc.hasQueueSpace = true
  · obtain ⟨tc₁, hinj, hqueue, hcfg, hrng, hmean, hnext⟩ :=
      injectReal_of_space (F := F) clk packet hfix hroom
    rw [hinj] at h
    obtain rfl := Except.ok.inj h
    exact ⟨hcfg, hmean, congrArg₂ DepartureClock.mk hrng hnext, hqueue⟩
  · have hfull : tc.config.maxQueueDepth ≤ tc.realQueue.length := by
      simpa [hasQueueSpace] using hroom
    rw [injectReal, dif_pos hfull] at h
    cases h

end TimingCorrelator

-- ============================================================================
-- Runs
-- ============================================================================

/-- A scheduler and what its polls have shown. -/
structure ClockStream (ρ : Type) where
  tc : TimingCorrelator ρ
  schedule : List SlotView

namespace ClockStream

variable {ρ : Type} [RngCore ρ]

inductive Event where
  | inject (clk : Clock) (packet : Packet)
  | poll (p : Poll)

/-- The polls among the events. -/
def polls : List Event → List Poll
  | [] => []
  | .inject _ _ :: es => polls es
  | .poll p :: es => p :: polls es

def step (F : F64) (s : ClockStream ρ) : Event → Option (ClockStream ρ)
  | .inject clk packet =>
      match (s.tc.injectReal F clk packet).1 with
      | .ok tc => some { s with tc }
      | .error _ => some s  -- the queue is full
  | .poll (.tick clk) =>
      match s.tc.tick F clk with
      | (none, tc, _) => some ⟨tc, s.schedule ++ [⟨none, tc.nextDeparture⟩]⟩
      | (some _, tc, _) =>
          let coin := TimingCorrelator.slotCoin F s.tc.config s.tc.rng s.tc.meanIatMs
          some ⟨tc, s.schedule ++ [⟨some coin.1, tc.nextDeparture⟩]⟩
  | .poll (.restart clk) =>
      let (tc, _) := s.tc.restartClock F clk
      some ⟨tc, s.schedule ++ [⟨none, tc.nextDeparture⟩]⟩

/-- The slot, if one comes due and is not reserved for a dummy, finds no packet
    shorter than the cell. -/
def PadsNothing (F : F64) (s : ClockStream ρ) : Event → Prop
  | .poll (.tick clk) => s.tc.nextDeparture ≤ clk.now →
      (TimingCorrelator.slotCoin F s.tc.config s.tc.rng s.tc.meanIatMs).1 = false →
        ∀ p ∈ s.tc.realQueue.head?, s.tc.config.cellBytes ≤ p.len
  | _ => True

instance (F : F64) (s : ClockStream ρ) : (e : Event) → Decidable (PadsNothing F s e)
  | .inject _ _ => isTrue trivial
  | .poll (.restart _) => isTrue trivial
  | .poll (.tick clk) => inferInstanceAs (Decidable (s.tc.nextDeparture ≤ clk.now →
      (TimingCorrelator.slotCoin F s.tc.config s.tc.rng s.tc.meanIatMs).1 = false →
        ∀ p ∈ s.tc.realQueue.head?, s.tc.config.cellBytes ≤ p.len))

variable {F : F64} {s s' : ClockStream ρ}

theorem step_inject (hfix : s.tc.config.adaptRate = false) {clk : Clock} {packet : Packet}
    (h : step F s (.inject clk packet) = some s') :
    s'.tc.config = s.tc.config ∧ s'.tc.meanIatMs = s.tc.meanIatMs ∧
      s'.tc.departure = s.tc.departure ∧ s'.schedule = s.schedule := by
  rw [step] at h
  split at h
  · next tc hok =>
    obtain rfl := Option.some.inj h
    obtain ⟨hcfg, hmean, hdep, -⟩ := TimingCorrelator.injectReal_clock hfix hok
    exact ⟨hcfg, hmean, hdep, rfl⟩
  · obtain rfl := Option.some.inj h
    exact ⟨rfl, rfl, rfl, rfl⟩

/-- A poll that pads nothing shows what the clock alone shows, and takes the clock
    where it alone would go. -/
theorem step_poll {p : Poll} (hpads : s.PadsNothing F (.poll p))
    (h : step F s (.poll p) = some s') :
    s'.tc.config = s.tc.config ∧ s'.tc.meanIatMs = s.tc.meanIatMs ∧
      s'.tc.departure = (s.tc.departure.poll F s.tc.config s.tc.meanIatMs p).2 ∧
      s'.schedule
        = s.schedule ++ [(s.tc.departure.poll F s.tc.config s.tc.meanIatMs p).1] := by
  cases p with
  | restart clk =>
      obtain rfl := Option.some.inj h
      exact ⟨rfl, rfl, rfl, rfl⟩
  | tick clk =>
      rw [step] at h
      rcases Nat.lt_or_ge clk.now s.tc.nextDeparture with hlt | hle
      · rw [TimingCorrelator.tick_of_lt hlt] at h
        obtain rfl := Option.some.inj h
        have hlt' : clk.now < s.tc.departure.nextDeparture := hlt
        rw [DepartureClock.poll, if_pos hlt']
        exact ⟨rfl, rfl, rfl, rfl⟩
      · obtain ⟨frame, tc', htick, hcfg, hmean, hnext⟩ := TimingCorrelator.tick_due (F := F) hle
        have hdep := TimingCorrelator.tick_departure hle (hpads hle)
        rw [htick] at h hdep
        obtain rfl := Option.some.inj h
        have hge' : ¬ clk.now < s.tc.departure.nextDeparture := not_lt.mpr hle
        refine ⟨hcfg, hmean, hdep, ?_⟩
        rw [DepartureClock.poll, if_neg hge']
        exact congrArg (fun t => s.schedule ++ [SlotView.mk _ t]) hnext

theorem step_isSome (F : F64) (s : ClockStream ρ) (e : Event) : (step F s e).isSome := by
  match e with
  | .inject clk packet =>
      rw [step]
      split <;> rfl
  | .poll (.tick clk) =>
      rw [step]
      split <;> rfl
  | .poll (.restart clk) => rfl

/-- The schedule of a run that pads nothing is the schedule of its clock alone, under
    the same polls.  The induction is on the events. -/
theorem run_schedule {events : List Event} (hfix : s.tc.config.adaptRate = false)
    (hpads : Machine.Meets (step F) (PadsNothing F) s events) :
    (Machine.run (step F) s events).map (·.schedule) = some (s.schedule
      ++ s.tc.departure.schedule F s.tc.config s.tc.meanIatMs (polls events)) := by
  induction events generalizing s with
  | nil => exact congrArg some (List.append_nil _).symm
  | cons e es ih =>
      obtain ⟨t, hstep⟩ := Option.isSome_iff_exists.mp (step_isSome F s e)
      obtain ⟨hpad, hrest⟩ := hpads t hstep
      rw [Machine.run_cons, hstep, Option.bind_some]
      cases e with
      | inject clk packet =>
          obtain ⟨hcfg, hmean, hdep, hsched⟩ := step_inject hfix hstep
          rw [ih (by rw [hcfg]; exact hfix) hrest, hcfg, hmean, hdep, hsched]
          rfl
      | poll p =>
          obtain ⟨hcfg, hmean, hdep, hsched⟩ := step_poll hpad hstep
          rw [ih (by rw [hcfg]; exact hfix) hrest, hcfg, hmean, hdep, hsched, List.append_assoc]
          rfl

/-- **The clock does not see the payload of runs that pad nothing.** Two runs of one
    scheduler at a fixed rate, polled at the same instants, with any two sequences of
    injections: if no slot of either takes a packet shorter than the cell, all next
    departures and all dummy coins agree. -/
theorem schedules_agree (tc : TimingCorrelator ρ) (hfix : tc.config.adaptRate = false)
    (events₁ events₂ : List Event) (hpolls : polls events₁ = polls events₂)
    (hpads₁ : Machine.Meets (step F) (PadsNothing F) ⟨tc, []⟩ events₁)
    (hpads₂ : Machine.Meets (step F) (PadsNothing F) ⟨tc, []⟩ events₂) :
    (Machine.run (step F) ⟨tc, []⟩ events₁).map (·.schedule)
      = (Machine.run (step F) ⟨tc, []⟩ events₂).map (·.schedule) := by
  rw [run_schedule hfix hpads₁, run_schedule hfix hpads₂, hpolls]

/-- An injected packet fills the cell. -/
def WholeCells (s : ClockStream ρ) : Event → Prop
  | .inject _ packet => s.tc.config.cellBytes ≤ packet.len
  | .poll _ => True

/-- Every waiting packet fills the cell, at a fixed rate. -/
structure Filled (s : ClockStream ρ) : Prop where
  fixedRate : s.tc.config.adaptRate = false
  full : ∀ p ∈ s.tc.realQueue, s.tc.config.cellBytes ≤ p.len

/-- A poll keeps the configuration and puts nothing into the queue. -/
theorem poll_queue {p : Poll} (h : step F s (.poll p) = some s') :
    s'.tc.config = s.tc.config ∧ s'.tc.realQueue <:+ s.tc.realQueue := by
  cases p with
  | restart clk =>
      obtain rfl := Option.some.inj h
      exact ⟨rfl, List.suffix_rfl⟩
  | tick clk =>
      have htc : s'.tc = (s.tc.tick F clk).2.1 := by
        rw [step] at h
        split at h <;> next heq =>
          obtain rfl := Option.some.inj h
          rw [heq]
      rw [htc]
      refine ⟨?_, TimingCorrelator.tick_queue clk s.tc⟩
      rw [TimingCorrelator.tick]
      split
      · rfl
      · exact (TimingCorrelator.emitSlot_schedule _ _).1

theorem Filled.step (hfilled : s.Filled) {e : Event} (hwhole : s.WholeCells e)
    (h : step F s e = some s') : s'.Filled := by
  cases e with
  | inject clk packet =>
      rw [ClockStream.step] at h
      split at h
      · next tc hok =>
        obtain rfl := Option.some.inj h
        obtain ⟨hcfg, -, -, hpush⟩ := TimingCorrelator.injectReal_clock hfilled.fixedRate hok
        refine ⟨hcfg ▸ hfilled.fixedRate, fun p hp => ?_⟩
        rw [hpush, List.mem_append, List.mem_singleton] at hp
        rw [hcfg]
        rcases hp with hp | rfl
        · exact hfilled.full p hp
        · exact hwhole
      · obtain rfl := Option.some.inj h
        exact hfilled
  | poll p =>
      obtain ⟨hcfg, hsub⟩ := poll_queue h
      refine ⟨hcfg ▸ hfilled.fixedRate, fun p hp => ?_⟩
      rw [hcfg]
      exact hfilled.full p (hsub.subset hp)

/-- What fills the cell when it is injected fills it when its slot comes. -/
theorem padsNothing_of_wholeCells (hfilled : s.Filled) {events : List Event}
    (h : Machine.Meets (step F) WholeCells s events) :
    Machine.Meets (step F) (PadsNothing F) s events := by
  refine h.imp_of_invariant (fun _ _ _ hI hc hs => Filled.step hI hc hs) ?_ hfilled
  intro s e hI _
  match e with
  | .inject _ _ => trivial
  | .poll (.restart _) => trivial
  | .poll (.tick _) => exact fun _ _ p hp => hI.full p (List.mem_of_mem_head? hp)

/-- A generator that steps through multiples of a fixed word, one for a draw and one
    for every eight bytes. -/
structure CountingRng where
  drawn : Nat
  deriving DecidableEq, Repr

instance : RngCore CountingRng where
  nextU64 rng := (UInt64.ofNat (0x9e3779b97f4a7c15 * (rng.drawn + 1)), ⟨rng.drawn + 1⟩)
  fillBytes n rng := (Vector.replicate n 0, ⟨rng.drawn + (n + 7) / 8⟩)
  fromSeed seed := ⟨(seed.toList.headD 0).toNat⟩

/-- Unrounded arithmetic, with a logarithm that follows its argument. -/
def linear : F64 where
  round x := x
  ln x := x - 1

def coverConfig : TimingCorrelatorConfig where
  cellBytes := 514
  initialIatMs := .finite 5
  emaAlpha := .finite (1 / 5)
  minIatMs := .finite 1
  maxIatMs := .finite 60
  maxQueueDepth := 64
  adaptRate := false
  minDummyFraction := .finite (1 / 8)

theorem coverConfig_valid : coverConfig.Valid := by
  constructor <;> decide +kernel

def coverClock : TimingCorrelator CountingRng :=
  (TimingCorrelator.start linear (.const 0) coverConfig coverConfig_valid (by decide) ⟨0⟩).1

/-- Two polls with slots due, the first after a packet of `n + 1` bytes. -/
def polledAfter (n : Nat) : List Event :=
  [.inject (.const 0) ⟨List.replicate (n + 1) 7, List.cons_ne_nil _ _⟩,
    .poll (.tick (.const (Duration.fromMillis 60))),
    .poll (.tick (.const (Duration.fromMillis 120)))]

/-- The same polls with nothing to send. -/
def polledIdle : List Event := [.poll (.tick (.const (Duration.fromMillis 60))),
  .poll (.tick (.const (Duration.fromMillis 120)))]

theorem schedules_agree_whole_cell :
    (Machine.run (step linear) ⟨coverClock, []⟩ (polledAfter 513)).map (·.tc.realEmitted)
        = some 1 ∧
      (Machine.run (step linear) ⟨coverClock, []⟩ (polledAfter 513)).map (·.schedule)
        = (Machine.run (step linear) ⟨coverClock, []⟩ polledIdle).map (·.schedule) := by
  have hfilled : ClockStream.Filled ⟨coverClock, []⟩ :=
    ⟨rfl, fun _ hp => absurd hp List.not_mem_nil⟩
  have hwhole : Machine.Meets (step linear) WholeCells ⟨coverClock, []⟩ (polledAfter 513) :=
    fun _ _ => ⟨(List.length_replicate : (List.replicate 514 (7 : UInt8)).length = 514).ge,
      fun _ _ => ⟨trivial, fun _ _ => ⟨trivial, trivial⟩⟩⟩
  exact ⟨by decide +kernel, schedules_agree coverClock rfl (polledAfter 513) polledIdle rfl
    (padsNothing_of_wholeCells hfilled hwhole) (by decide +kernel)⟩

/-- A packet of one byte, padded out of the clock's generator, moves the second slot
    after it: 10.426 ms where the clock alone has 7.008 ms. -/
theorem short_packet_moves_schedule :
    coverClock.config.adaptRate = false ∧ polls (polledAfter 0) = polls polledIdle ∧
      (Machine.run (step linear) ⟨coverClock, []⟩ (polledAfter 0)).map (·.schedule)
        = some [⟨some false, 6008000⟩, ⟨some false, 10426000⟩] ∧
      (Machine.run (step linear) ⟨coverClock, []⟩ polledIdle).map (·.schedule)
        = some [⟨some false, 6008000⟩, ⟨some false, 7008000⟩] :=
  ⟨rfl, rfl, by decide +kernel, by decide +kernel⟩

end ClockStream

end MixTor
