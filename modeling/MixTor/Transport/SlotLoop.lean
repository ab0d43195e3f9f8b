/-
  MixTor.Transport.SlotLoop

  The slots of one service call, one by one.

  A round of the loop in `service_flow` is one slot: what has arrived joins the
  channel, one pull is attempted, and a frame is fired.  The guard has read that the
  slot has come, and the clock does not run backwards, so the tick of a round always
  fires.  `slotLoop_invariant` takes a property through the rounds of a call, under a
  condition on the state in which each round makes its pull.
-/

import MixTor.Transport.FlowClose

namespace MixTor

open Crypto (Aead encFrameLen)

namespace FlowSlot

variable {ρ : Type} {F : F64} {A : Aead} {f : FlowSlot ρ}

/-- When the next slot of the flow comes. -/
def nextSlot (flow : FlowSlot ρ) : Instant := flow.session.correlator.nextDeparture

theorem Steady.arrive (hs : f.Steady) (a : Arrival) :
    (f.arrive a).Steady ∧ (f.arrive a).pending = f.pending ∧
      (f.arrive a).nextSlot = f.nextSlot := by
  obtain ⟨hfix, hcell⟩ := hs
  rw [FlowSlot.arrive]
  split
  · exact ⟨⟨hfix, hcell⟩, rfl, rfl⟩
  · exact ⟨⟨hfix, hcell⟩, rfl, rfl⟩

theorem arrive_none (f : FlowSlot ρ) : f.arrive .none = f := by
  rw [FlowSlot.arrive]
  split
  · rw [Arrival.none, if_neg Bool.false_ne_true, Channel.Chan.offer_nil]
  · rfl

/-- After the drop of its last sender nothing arrives. -/
theorem arrive_of_closed (h : f.cellRx.senders = false) (a : Arrival) : f.arrive a = f := by
  rw [FlowSlot.arrive, h]
  rfl

theorem Steady.pulled (hs : f.Steady) {clk clk' : Clock} {f' : FlowSlot ρ}
    (hp : Pulled f clk f' clk') :
    f'.Steady ∧ f'.pending = f.pending ∧ f'.nextSlot = f.nextSlot := by
  obtain ⟨hfix, hcell⟩ := hs
  cases hp with
  | idle => exact ⟨⟨hfix, hcell⟩, rfl, rfl⟩
  | cell c rest session' _ _ fixed same _ =>
      exact ⟨⟨fixed, same.config ▸ hcell⟩, rfl, same.nextDeparture⟩
  | eof => exact ⟨⟨hfix, hcell⟩, rfl, rfl⟩

theorem Steady.flush (hs : f.Steady) (w : Nat → TryWrite) : (f.flush w).2.Steady := by
  obtain ⟨hfix, hcell⟩ := hs
  rw [FlowSlot.flush]
  split
  · exact ⟨hfix, hcell⟩
  · split <;> exact ⟨hfix, hcell⟩

variable [RngCore ρ]

theorem Steady.startClock (hs : f.Steady) (clk : Clock) : (f.startClock F clk).1.Steady := by
  rw [FlowSlot.startClock]
  split
  · exact hs
  · obtain ⟨⟨hrate, hcomp, hsize⟩, hcell⟩ := hs
    exact ⟨⟨hrate, hcomp, hsize⟩, hcell⟩

theorem Steady.fired (hs : f.Steady) {clk clk' : Clock} {f' : FlowSlot ρ}
    (hf : Fired F A f clk f' clk') : f'.Steady := by
  cases hf with
  | waits => exact hs
  | emits frame session' due fixed size took hcfg => exact ⟨fixed, hcfg ▸ hs.cellBytes⟩

/-- Behind a closed gate a pull does nothing. -/
theorem pull_closed (clk : Clock) (f : FlowSlot ρ) : f.pull F false clk = (f, clk) := by
  rw [pull, Bool.and_false, if_neg Bool.false_ne_true]

/-- A round of the loop. -/
def slot (F : F64) (A : Aead) (realGateOpen : Bool) (a : Arrival) (clk : Clock)
    (flow : FlowSlot ρ) : FlowSlot ρ × Clock :=
  let pulled := (flow.arrive a).pull F realGateOpen clk.later
  pulled.1.fireSlot F A pulled.2

theorem slotLoop_succ (gate : Bool) (fuel : Nat) (arrivals : Nat → Arrival) (clk : Clock)
    (f : FlowSlot ρ) :
    slotLoop F A gate (fuel + 1) arrivals clk f
      = if (f.session.slotReady clk).1 && f.pending.length < pendingCap then
          slotLoop F A gate fuel (fun i => arrivals (i + 1)) (f.slot F A gate (arrivals 0) clk).2
            (f.slot F A gate (arrivals 0) clk).1
        else (f, clk.later) := rfl

/-- The flow at each round of the loop, when the pull is made. -/
def slotStates (F : F64) (A : Aead) (realGateOpen : Bool) :
    Nat → (Nat → Arrival) → Clock → FlowSlot ρ → List (FlowSlot ρ)
  | 0, _, _, _ => []
  | fuel + 1, arrivals, clk, flow =>
      if (flow.session.slotReady clk).1 && flow.pending.length < pendingCap then
        let next := flow.slot F A realGateOpen (arrivals 0) clk
        flow.arrive (arrivals 0) ::
          slotStates F A realGateOpen fuel (fun i => arrivals (i + 1)) next.2 next.1
      else []

/-- **What a round does.**  A pull with one of its outcomes, and then a tick at a
    reading at which the slot has come. -/
theorem slot_spec (hs : f.Steady) {clk : Clock} (hdue : f.nextSlot ≤ clk.now) (gate : Bool)
    (a : Arrival) :
    ∃ p clkp, (f.arrive a).pull F gate clk.later = (p, clkp) ∧
      Pulled (f.arrive a) clk.later p clkp ∧ p.nextSlot ≤ clkp.now ∧
      Fired F A p clkp (f.slot F A gate a clk).1 (f.slot F A gate a clk).2 := by
  obtain ⟨harr, -, hnext⟩ := hs.arrive a
  have hpulled := pull_spec (F := F) harr gate clk.later
  obtain ⟨hsteady, -, hnext'⟩ := harr.pulled hpulled
  obtain ⟨j, hj⟩ := hpulled.clock
  refine ⟨_, _, Prod.mk.eta.symm, hpulled, ?_, fireSlot_spec hsteady _⟩
  rw [hnext', hnext, hj]
  exact hdue.trans (clk.mono (Nat.zero_le _))

theorem Steady.slot (hs : f.Steady) {clk : Clock} (hdue : f.nextSlot ≤ clk.now) (gate : Bool)
    (a : Arrival) : (f.slot F A gate a clk).1.Steady := by
  obtain ⟨p, clkp, -, hpulled, -, hfired⟩ := slot_spec (F := F) (A := A) hs hdue gate a
  exact ((hs.arrive a).1.pulled hpulled).1.fired hfired

/-- **Invariant rule for the slots of a call.**  What every round keeps that meets the
    condition holds after the loop.  The induction is on the fuel. -/
theorem slotLoop_invariant {gate : Bool} {P C : FlowSlot ρ → Prop} {fuel : Nat}
    {arrivals : Nat → Arrival} {clk : Clock}
    (hslot : ∀ f clk i, P f → f.nextSlot ≤ clk.now → f.pending.length < pendingCap →
      C (f.arrive (arrivals i)) → P (f.slot F A gate (arrivals i) clk).1)
    (hP : P f) (hC : ∀ g ∈ slotStates F A gate fuel arrivals clk f, C g) :
    P (slotLoop F A gate fuel arrivals clk f).1 := by
  induction fuel generalizing arrivals clk f with
  | zero => exact hP
  | succ fuel ih =>
      rw [slotLoop_succ]
      rw [slotStates] at hC
      split
      · next hguard =>
        rw [if_pos hguard] at hC
        obtain ⟨hdue, hroom⟩ := slotGuard_iff.mp hguard
        have hnow := hslot f clk 0 hP hdue hroom (hC _ List.mem_cons_self)
        exact ih (fun f clk i => hslot f clk (i + 1)) hnow fun g hg =>
          hC g (List.mem_cons_of_mem _ hg)
      · exact hP

/-- The one reading of the entry gate in a call. -/
def realGateOpen (F : F64) (call : ServiceCall) (flow : FlowSlot ρ) : Bool :=
  let started := (flow.arrive (call.arrivals 0)).startClock F call.clock
  decide (started.1.realHoldUntil ≤ started.2.now)

/-- The flow at each slot of a call, when the pull is made. -/
def callSlots (F : F64) (A : Aead) (call : ServiceCall) (flow : FlowSlot ρ) :
    List (FlowSlot ρ) :=
  let started := (flow.arrive (call.arrivals 0)).startClock F call.clock
  if started.1.pending.length < pendingCap then
    slotStates F A (flow.realGateOpen F call) pendingCap (fun i => call.arrivals (i + 1))
      started.2.later started.1
  else []

/-- What the arrivals and every slot keep holds at each slot of the loop. -/
theorem slotStates_invariant {gate : Bool} {P : FlowSlot ρ → Prop} {fuel : Nat}
    {arrivals : Nat → Arrival} {clk : Clock} (harrive : ∀ f i, P f → P (f.arrive (arrivals i)))
    (hslot : ∀ f clk i, P f → f.nextSlot ≤ clk.now → P (f.slot F A gate (arrivals i) clk).1)
    (hP : P f) : ∀ g ∈ slotStates F A gate fuel arrivals clk f, P g := by
  induction fuel generalizing arrivals clk f with
  | zero => exact fun g hg => absurd hg List.not_mem_nil
  | succ fuel ih =>
      rw [slotStates]
      split
      · next hguard =>
        intro g hg
        rcases List.mem_cons.mp hg with rfl | hrest
        · exact harrive f 0 hP
        · exact ih (fun f i => harrive f (i + 1)) (fun f clk i => hslot f clk (i + 1))
            (hslot f clk 0 hP (slotGuard_iff.mp hguard).1) g hrest
      · exact fun g hg => absurd hg List.not_mem_nil

/-- What the arrivals, the clock start and every slot keep holds at each slot of the
    call. -/
theorem callSlots_invariant {P : FlowSlot ρ → Prop} {call : ServiceCall}
    (harrive : ∀ f i, P f → P (f.arrive (call.arrivals i)))
    (hstart : ∀ f clk, P f → P (f.startClock F clk).1)
    (hslot : ∀ f gate clk i, P f → f.nextSlot ≤ clk.now →
      P (f.slot F A gate (call.arrivals i) clk).1)
    (hP : P f) : ∀ g ∈ f.callSlots F A call, P g := by
  rw [callSlots]
  split
  · exact slotStates_invariant (fun f i => harrive f (i + 1))
      (fun f clk i => hslot f _ clk (i + 1)) (hstart _ call.clock (harrive f 0 hP))
  · exact fun g hg => absurd hg List.not_mem_nil

/-- **Invariant rule for a call, from the start of the clock on.**  What holds then and
    is kept by every slot that meets the condition, and by the flush, holds after the
    call. -/
theorem serviceFlow_started {P : FlowSlot ρ → Prop} {C : Bool → FlowSlot ρ → Prop}
    {call : ServiceCall} (hst : P ((f.arrive (call.arrivals 0)).startClock F call.clock).1)
    (hslot : ∀ f gate clk i, P f → f.nextSlot ≤ clk.now → f.pending.length < pendingCap →
      C gate (f.arrive (call.arrivals (i + 1))) →
      P (f.slot F A gate (call.arrivals (i + 1)) clk).1)
    (hflush : ∀ f w, P f → P (f.flush w).2)
    (hC : ∀ g ∈ f.callSlots F A call, C (f.realGateOpen F call) g) :
    P (f.serviceFlow F A call).2 := by
  rw [serviceFlow_snd]
  refine hflush _ _ ?_
  rw [emit, runSlots]
  rw [callSlots] at hC
  split
  · next hroom =>
    rw [if_pos hroom] at hC
    exact slotLoop_invariant (fun g clk i => hslot g _ clk i) hst hC
  · exact hst

/-- **Invariant rule for a call, slot by slot.**  What the arrivals, the clock start,
    every slot that meets the condition and the flush keep holds after the call. -/
theorem serviceFlow_slots {P : FlowSlot ρ → Prop} {C : Bool → FlowSlot ρ → Prop}
    {call : ServiceCall} (harrive : ∀ f i, P f → P (f.arrive (call.arrivals i)))
    (hstart : ∀ f clk, P f → P (f.startClock F clk).1)
    (hslot : ∀ f gate clk i, P f → f.nextSlot ≤ clk.now → f.pending.length < pendingCap →
      C gate (f.arrive (call.arrivals i)) → P (f.slot F A gate (call.arrivals i) clk).1)
    (hflush : ∀ f w, P f → P (f.flush w).2) (hP : P f)
    (hC : ∀ g ∈ f.callSlots F A call, C (f.realGateOpen F call) g) :
    P (f.serviceFlow F A call).2 :=
  serviceFlow_started (hstart _ call.clock (harrive f 0 hP))
    (fun g gate clk i => hslot g gate clk (i + 1)) hflush hC

/-- **Rule for a call of a started flow whose next slot has come.**  The slot fires, and
    what it establishes and the rest of the call keeps holds after the call. -/
theorem serviceFlow_due {P : FlowSlot ρ → Prop} {call : ServiceCall}
    (hstarted : f.clockStarted = true) (hroom : f.pending.length < pendingCap)
    (hdue : f.nextSlot ≤ call.clock.now)
    (hfirst : ∀ clk, f.nextSlot ≤ clk.now →
      P ((f.arrive (call.arrivals 0)).slot F A (decide (f.realHoldUntil ≤ call.clock.now))
        (call.arrivals 1) clk).1)
    (hslot : ∀ g clk i, P g → g.nextSlot ≤ clk.now →
      P (g.slot F A (decide (f.realHoldUntil ≤ call.clock.now)) (call.arrivals (i + 2)) clk).1)
    (hflush : ∀ g w, P g → P (g.flush w).2) : P (f.serviceFlow F A call).2 := by
  have harr : (f.arrive (call.arrivals 0)).clockStarted = f.clockStarted ∧
      (f.arrive (call.arrivals 0)).pending = f.pending ∧
      (f.arrive (call.arrivals 0)).nextSlot = f.nextSlot ∧
      (f.arrive (call.arrivals 0)).realHoldUntil = f.realHoldUntil := by
    rw [arrive]
    split <;> exact ⟨rfl, rfl, rfl, rfl⟩
  obtain ⟨hstarted', hpend, hnext, hhold⟩ := harr
  have hlater : f.nextSlot ≤ call.clock.later.now := hdue.trans (call.clock.mono (Nat.zero_le 1))
  rw [serviceFlow_snd]
  refine hflush _ _ ?_
  rw [emit, startClock, hstarted', hstarted, if_pos rfl, runSlots, hpend, if_pos hroom, hhold,
    show pendingCap = (pendingCap - 1) + 1 from rfl, slotLoop_succ,
    if_pos (slotGuard_iff.mpr ⟨hnext.trans_le hlater, hpend.symm ▸ hroom⟩)]
  exact slotLoop_invariant (C := fun _ => True) (fun g clk i hg hd _ _ => hslot g clk i hg hd)
    (hfirst _ hlater) fun _ _ => trivial

/-- A draining peer and a reader that goes on keep the flow. -/
theorem kept_of_running (call : ServiceCall) (hdrain : call.tryWrite = .ok)
    (hrun : (f.serviceFlow F A call).2.readerDone = false) :
    (f.serviceFlow F A call).1 = true ∧ (f.serviceFlow F A call).2.pending = [] := by
  obtain ⟨hok, hpend, -⟩ := (f.emit F A call).1.flush_ok
  rw [serviceFlow_snd, hdrain] at hrun ⊢
  refine ⟨?_, hpend⟩
  rw [serviceFlow, hdrain, if_pos hok, finished, if_neg (by rw [hrun]; exact Bool.false_ne_true)]
  rfl

/-- A slot that has come puts a frame behind `pending`. -/
theorem slot_pending (hA : A.Lawful) (hs : f.Steady) {clk : Clock} (hdue : f.nextSlot ≤ clk.now)
    (gate : Bool) (a : Arrival) :
    (f.slot F A gate a clk).1.pending.length = f.pending.length + encFrameLen cellBytes := by
  obtain ⟨p, clkp, -, hpulled, hlate, hfired⟩ := slot_spec (F := F) (A := A) hs hdue gate a
  obtain ⟨harr, hpend, -⟩ := hs.arrive a
  rw [← hpend, ← (harr.pulled hpulled).2.1]
  generalize f.slot F A gate a clk = r at hfired
  obtain ⟨f', clk'⟩ := r
  cases hfired with
  | waits early => exact absurd hlate (not_le.mpr early)
  | emits frame session' due fixed size took hcfg =>
      rw [List.length_append, encodeFrame_length hA, size]

/-- The loop ends at `pending`'s cap or at a reading before the next slot; it does not
    run out of fuel.  The induction is on the fuel, which every slot's frame outweighs. -/
theorem slotLoop_caughtUp (hA : A.Lawful) (gate : Bool) (fuel : Nat) (arrivals : Nat → Arrival)
    (clk : Clock) (hs : f.Steady) (hfuel : pendingCap ≤ f.pending.length + fuel) :
    pendingCap ≤ (slotLoop F A gate fuel arrivals clk f).1.pending.length ∨
      ∃ n, (slotLoop F A gate fuel arrivals clk f).2 = clk.after (n + 1) ∧
        (clk.after n).now < (slotLoop F A gate fuel arrivals clk f).1.nextSlot := by
  induction fuel generalizing arrivals clk f with
  | zero => exact .inl hfuel
  | succ fuel ih =>
      rw [slotLoop_succ]
      by_cases hguard :
          ((f.session.slotReady clk).1 && decide (f.pending.length < pendingCap)) = true
      · rw [if_pos hguard]
        obtain ⟨hdue, -⟩ := slotGuard_iff.mp hguard
        have hmore := slot_pending (F := F) hA hs hdue gate (arrivals 0)
        have hframe : 0 < encFrameLen cellBytes := Nat.succ_pos _
        have hfuel' : pendingCap ≤
            (f.slot F A gate (arrivals 0) clk).1.pending.length + fuel := by omega
        obtain ⟨m, hclock⟩ : ∃ m, (f.slot F A gate (arrivals 0) clk).2 = clk.after m := by
          obtain ⟨p, clkp, -, hpulled, -, hfired⟩ :=
            slot_spec (F := F) (A := A) hs hdue gate (arrivals 0)
          obtain ⟨j, rfl⟩ := hpulled.clock
          obtain ⟨k, hk⟩ := hfired.clock
          exact ⟨1 + j + k, by rw [hk, Clock.later, Clock.after_after, Clock.after_after,
            Nat.add_assoc]⟩
        rcases ih (fun i => arrivals (i + 1)) (f.slot F A gate (arrivals 0) clk).2
          (hs.slot hdue gate (arrivals 0)) hfuel' with hfull | ⟨n, hclk, hearly⟩
        · exact .inl hfull
        · refine .inr ⟨m + n, hclk.trans ?_, lt_of_eq_of_lt ?_ hearly⟩
          · rw [hclock, Clock.after_after, ← Nat.add_assoc]
          · rw [hclock, Clock.after_after]
      · rw [if_neg hguard]
        by_cases hfull : pendingCap ≤ f.pending.length
        · exact .inl hfull
        · refine .inr ⟨0, rfl, not_le.mp fun hdue => hguard ?_⟩
          exact slotGuard_iff.mpr ⟨hdue, not_le.mp hfull⟩

end FlowSlot

end MixTor
