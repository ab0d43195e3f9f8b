/-
  MixTor.Transport.QueueDepth

  How many cells wait in the correlator of a flow (transport.rs, `service_flow`).

  A slot attempts one pull and emits one frame, so the cells pulled never outnumber
  the slots fired.  That does not keep the queue at one cell: a slot reserved for a
  dummy pulls all the same, and what it pulls stays behind what waits.
-/

import MixTor.Transport.EntryGate

namespace MixTor

open Channel
open Crypto (Aead Blake3)

namespace FlowSlot

variable {ρ : Type}

/-- A pull attempt takes a cell from the channel. -/
def pulls (gate : Bool) (flow : FlowSlot ρ) : Bool :=
  !flow.readerDone && flow.session.hasQueueSpace && gate && !flow.cellRx.queue.isEmpty

variable [RngCore ρ]

/-- The next slot of the flow is reserved for a dummy. -/
def reserved (F : F64) (flow : FlowSlot ρ) : Bool :=
  (TimingCorrelator.slotCoin F flow.session.correlator.config flow.session.correlator.rng
    flow.session.correlator.meanIatMs).1

/-- A reserved slot that pulls a cell finds nothing waiting. -/
def NoPileUp (F : F64) (gate : Bool) (flow : FlowSlot ρ) : Prop :=
  flow.pulls gate = true → flow.reserved F = true → flow.queue = []

instance (F : F64) (gate : Bool) (flow : FlowSlot ρ) : Decidable (flow.NoPileUp F gate) :=
  inferInstanceAs (Decidable (_ → _ → flow.queue = []))

/-- No slot of the call piles a cell on one that waits. -/
def NoPileUps (F : F64) (A : Aead) (call : ServiceCall) (flow : FlowSlot ρ) : Prop :=
  ∀ g ∈ flow.callSlots F A call, g.NoPileUp F (flow.realGateOpen F call)

instance (F : F64) (A : Aead) (call : ServiceCall) (flow : FlowSlot ρ) :
    Decidable (flow.NoPileUps F A call) :=
  inferInstanceAs (Decidable (∀ g ∈ flow.callSlots F A call, _))

variable {F : F64} {A : Aead} {f : FlowSlot ρ}

/-- What a pull attempt adds to the queue it takes from the channel. -/
theorem pull_depth (hs : f.Steady) (gate : Bool) (clk : Clock) :
    (f.pull F gate clk).1.queue.length = f.queue.length + (f.pulls gate).toNat ∧
      (f.pull F gate clk).1.cellRx.received.length
        = f.cellRx.received.length + (f.pulls gate).toNat := by
  rw [pull]
  split
  · next hguard =>
    simp only [Bool.and_eq_true, Bool.not_eq_true'] at hguard
    obtain ⟨⟨hrun, hroom⟩, hopen⟩ := hguard
    rcases f.cellRx.tryRecv_cases with
      ⟨c, rest, hq, hok, hqueue, hrec, -, -⟩ | ⟨hq, -, h⟩ | ⟨hq, -, h⟩
    · have hpulls : f.pulls gate = true := by simp [pulls, hrun, hroom, hopen, hq]
      have htry : f.cellRx.tryRecv = (.ok c, f.cellRx.tryRecv.2) := by rw [← hok]
      obtain ⟨session', hinj, -, hqueue', -⟩ :=
        ShapedSession.injectReal_of_space (F := F) hs.fixedRate clk ⟨c.bytes, c.bytes_ne_nil⟩
          (by rw [hs.cellBytes]; exact c.length_eq) hroom
      rw [htry, hpulls]
      simp only [Packet.new_of_ne_nil c.bytes_ne_nil, hinj]
      exact ⟨by simp [queue, hqueue'], by simp [hrec]⟩
    · have hpulls : f.pulls gate = false := by simp [pulls, hq]
      rw [h, hpulls]
      exact ⟨rfl, rfl⟩
    · have hpulls : f.pulls gate = false := by simp [pulls, hq]
      rw [h, hpulls]
      exact ⟨rfl, rfl⟩
  · next hguard =>
    have hpulls : f.pulls gate = false := by
      rw [pulls, Bool.eq_false_of_not_eq_true hguard, Bool.false_and]
    rw [hpulls]
    exact ⟨rfl, rfl⟩

omit [RngCore ρ] in
/-- Arrivals stay in the channel. -/
theorem arrive_depth (f : FlowSlot ρ) (a : Arrival) :
    (f.arrive a).session = f.session ∧ (f.arrive a).emitted = f.emitted ∧
      (f.arrive a).cellRx.received = f.cellRx.received := by
  rw [arrive]
  split
  · refine ⟨rfl, rfl, ?_⟩
    dsimp only
    split <;> rfl
  · exact ⟨rfl, rfl, rfl⟩

/-- A pull does not touch the coin of the slot, nor what was emitted. -/
theorem Pulled.reserved {clk clk' : Clock} {f' : FlowSlot ρ} (h : Pulled f clk f' clk') :
    f'.reserved F = f.reserved F ∧ f'.emitted = f.emitted := by
  cases h with
  | idle => exact ⟨rfl, rfl⟩
  | cell c rest session' _ _ _ same _ =>
      refine ⟨?_, rfl⟩
      simp only [FlowSlot.reserved, same.config, same.rng, same.meanIatMs]
  | eof => exact ⟨rfl, rfl⟩

/-- A slot that has come emits one frame, and takes a waiting cell unless it is
    reserved. -/
theorem Fired.depth {clk clk' : Clock} {f' : FlowSlot ρ} (h : Fired F A f clk f' clk')
    (hdue : f.nextSlot ≤ clk.now) :
    f'.queue.length = f.queue.length - (!f.reserved F).toNat ∧
      f'.cellRx = f.cellRx ∧ f'.emitted.length = f.emitted.length + 1 := by
  cases h with
  | waits early => exact absurd hdue (not_le.mpr early)
  | emits frame session' due fixed size took =>
      refine ⟨?_, rfl, List.length_append⟩
      cases took with
      | real p unforced head =>
          have hfree : f.reserved F = false := unforced
          rw [FlowSlot.queue, FlowSlot.queue, head, hfree]
          rfl
      | dummy b idle same =>
          rw [FlowSlot.queue, FlowSlot.queue, same]
          rcases idle with forced | empty
          · have htaken : f.reserved F = true := forced
            rw [htaken]
            rfl
          · rw [empty]
            exact (Nat.zero_sub _).symm

/-- **The balance of a slot.**  The cell pulled joins the queue, and a slot that is not
    reserved takes one out. -/
theorem slot_depth (hs : f.Steady) {clk : Clock} (hdue : f.nextSlot ≤ clk.now) (gate : Bool)
    (a : Arrival) :
    (f.slot F A gate a clk).1.queue.length
        = (f.arrive a).queue.length + ((f.arrive a).pulls gate).toNat
          - (!(f.arrive a).reserved F).toNat ∧
      (f.slot F A gate a clk).1.cellRx.received.length
        = f.cellRx.received.length + ((f.arrive a).pulls gate).toNat ∧
      (f.slot F A gate a clk).1.emitted.length = f.emitted.length + 1 := by
  obtain ⟨p, clkp, hpull, hpulled, hlate, hfired⟩ := slot_spec (F := F) (A := A) hs hdue gate a
  obtain ⟨-, hemit, hrec⟩ := f.arrive_depth a
  obtain ⟨hqueue, hreceived⟩ := pull_depth (F := F) (hs.arrive a).1 gate clk.later
  obtain ⟨hcoin, hsame⟩ := hpulled.reserved (F := F)
  obtain ⟨hqueue', hcell, hcount⟩ := hfired.depth hlate
  rw [hpull] at hqueue hreceived
  refine ⟨?_, ?_, ?_⟩
  · rw [hqueue', hcoin, hqueue]
  · rw [hcell, hreceived, hrec]
  · rw [hcount, hsame, hemit]

/-- With at most one cell waiting, a slot leaves at most one exactly when it does not
    pile up. -/
theorem slot_atMostOne_iff (hs : f.Steady) {clk : Clock} (hdue : f.nextSlot ≤ clk.now)
    (gate : Bool) (a : Arrival) (hone : f.queue.length ≤ 1) :
    (f.slot F A gate a clk).1.queue.length ≤ 1 ↔ (f.arrive a).NoPileUp F gate := by
  have hqueue : (f.arrive a).queue.length ≤ 1 := by
    rw [queue, (f.arrive_depth a).1]
    exact hone
  rw [(slot_depth hs hdue gate a).1, NoPileUp]
  cases hpulls : (f.arrive a).pulls gate with
  | false => simp; omega
  | true =>
      cases hcoin : (f.arrive a).reserved F with
      | false => simp; omega
      | true => simp

/-- The start of the clock and the flush leave the queue, the channel and what was
    emitted. -/
theorem startClock_depth (f : FlowSlot ρ) (clk : Clock) :
    (f.startClock F clk).1.queue = f.queue ∧ (f.startClock F clk).1.cellRx = f.cellRx ∧
      (f.startClock F clk).1.emitted = f.emitted := by
  rw [startClock]
  split <;> exact ⟨rfl, rfl, rfl⟩

omit [RngCore ρ] in
theorem flush_depth (f : FlowSlot ρ) (w : Nat → TryWrite) :
    (f.flush w).2.queue = f.queue ∧ (f.flush w).2.cellRx = f.cellRx ∧
      (f.flush w).2.emitted = f.emitted := by
  obtain ⟨pending, wire, hflush⟩ := flush_eq w f
  rw [hflush]
  exact ⟨rfl, rfl, rfl⟩

/-- No more cells pulled than slots fired. -/
structure PulledPerSlot (flow : FlowSlot ρ) : Prop where
  steady : flow.Steady
  pulled : flow.cellRx.received.length ≤ flow.emitted.length

/-- A steady flow with at most one cell waiting in the correlator. -/
structure AtMostOne (flow : FlowSlot ρ) : Prop where
  steady : flow.Steady
  depth : flow.queue.length ≤ 1

theorem serviceFlow_pulledPerSlot (h : f.PulledPerSlot) (call : ServiceCall) :
    (f.serviceFlow F A call).2.PulledPerSlot := by
  refine serviceFlow_slots (C := fun _ _ => True) ?_ ?_ ?_ ?_ h fun _ _ => trivial
  · rintro g i ⟨hs, hle⟩
    obtain ⟨-, hemit, hrec⟩ := g.arrive_depth (call.arrivals i)
    exact ⟨(hs.arrive (call.arrivals i)).1, by rw [hemit, hrec]; exact hle⟩
  · rintro g clk ⟨hs, hle⟩
    obtain ⟨-, hcell, hemit⟩ := g.startClock_depth (F := F) clk
    exact ⟨hs.startClock clk, by rw [hemit, hcell]; exact hle⟩
  · rintro g gate clk i ⟨hs, hle⟩ hdue - -
    obtain ⟨-, hrec, hemit⟩ := slot_depth (F := F) (A := A) hs hdue gate (call.arrivals i)
    have hone := Bool.toNat_le ((g.arrive (call.arrivals i)).pulls gate)
    exact ⟨hs.slot hdue gate (call.arrivals i), by omega⟩
  · rintro g w ⟨hs, hle⟩
    obtain ⟨-, hcell, hemit⟩ := g.flush_depth w
    exact ⟨hs.flush w, by rw [hemit, hcell]; exact hle⟩

/-- A call none of whose slots piles up leaves at most one cell waiting. -/
theorem serviceFlow_atMostOne (h : f.AtMostOne) {call : ServiceCall}
    (hfree : f.NoPileUps F A call) : (f.serviceFlow F A call).2.AtMostOne := by
  refine serviceFlow_slots (C := fun gate g => g.NoPileUp F gate) ?_ ?_ ?_ ?_ h hfree
  · rintro g i ⟨hs, hone⟩
    refine ⟨(hs.arrive (call.arrivals i)).1, ?_⟩
    rw [queue, (g.arrive_depth (call.arrivals i)).1]
    exact hone
  · rintro g clk ⟨hs, hone⟩
    exact ⟨hs.startClock clk, by rw [(g.startClock_depth clk).1]; exact hone⟩
  · rintro g gate clk i ⟨hs, hone⟩ hdue - hslot
    exact ⟨hs.slot hdue gate (call.arrivals i),
      (slot_atMostOne_iff hs hdue gate (call.arrivals i) hone).mpr hslot⟩
  · rintro g w ⟨hs, hone⟩
    exact ⟨hs.flush w, by rw [(g.flush_depth w).1]; exact hone⟩

end FlowSlot

namespace Service

open FlowSlot

variable {ρ : Type} [RngCore ρ] {F : F64} {A : Aead}

/-- **The queue of the correlator.**  In every run of every flow of `shaped_forward`,
    whatever arrives and whatever the generator draws, the cells pulled never outnumber
    the slots fired; and in a run in which no reserved slot pulls a cell on top of one
    that waits, at most one cell waits after every call. -/
theorem queue_atMostOne (A : Aead) (H : Blake3) (new : NewFlow ρ) (flow : FlowSlot ρ)
    (hflow : shapedForward F H new = some flow) (calls : List ServiceCall) :
    Machine.Always (step F A) (fun s => s.flow.cellRx.received.length ≤ s.flow.emitted.length)
        (start flow) calls ∧
      (Machine.Meets (step F A) (fun s call => s.flow.NoPileUps F A call) (start flow) calls →
        Machine.Always (step F A) (fun s => s.flow.queue.length ≤ 1) (start flow) calls) := by
  obtain ⟨hun, -, -, -⟩ := shapedForward_spec (A := A) hflow
  have hfresh : flow.cellRx.received.length ≤ flow.emitted.length := by
    rw [hun.received]
    exact Nat.zero_le _
  have hempty : flow.queue.length ≤ 1 := by
    rw [hun.queue]
    exact Nat.zero_le _
  constructor
  · refine (Machine.always_of_invariant (I := fun s : Service ρ => s.flow.PulledPerSlot) ?_
      ⟨hun.steady, hfresh⟩ calls).mono fun s h => h.pulled
    intro s call t h hstep
    obtain rfl := step_eq_some hstep
    exact serviceFlow_pulledPerSlot h call
  · intro hmeets
    refine (Machine.always_of_meets (I := fun s : Service ρ => s.flow.AtMostOne) ?_
      ⟨hun.steady, hempty⟩ hmeets).mono fun s h => h.depth
    intro s call t h hfree hstep
    obtain rfl := step_eq_some hstep
    exact serviceFlow_atMostOne h hfree

/-- A cell that arrives before a call, and no end of the reader. -/
def oneCell : Arrival := ⟨[(encodeRealCell 1 [42] (⟨0⟩ : FixedRng)).1], false⟩

/-- Cells for the first slot, and cells for the second. -/
def twoCells : List ServiceCall :=
  [callAt 0 .none, callAt (Duration.fromMillis 60) oneCell,
    callAt (Duration.fromMillis 120) oneCell]

/-- When no slot is reserved, both cells leave at once. -/
theorem queue_atMostOne_two_cells :
    (Machine.run (step .steep .tagOnly) (start epochFlow) twoCells).map
        (fun s => (s.flow.queue.length, s.flow.emitted.length)) = some (0, 2) ∧
      Machine.Always (step .steep .tagOnly) (fun s => s.flow.queue.length ≤ 1) (start epochFlow)
        twoCells :=
  ⟨by decide +kernel, (queue_atMostOne .tagOnly .sumBytes epochNew epochFlow
    shapedForward_epochNew twoCells).2 (by decide +kernel)⟩

/-- A session all of whose slots are reserved. -/
def reservedNew : NewFlow FixedRng :=
  { epochNew with seed := ⟨Vector.replicate 32 29⟩, tail := .off }

theorem shapedForward_reservedNew :
    shapedForward .steep .sumBytes reservedNew = some (steepFlow 29 .off) := by
  rw [shapedForward, reservedNew, epochNew, new_steepSession]
  rfl

/-- Two reserved slots in a row pull a cell each, and both cells wait. -/
theorem two_reserved_slots_pile_up :
    shapedForward .steep .sumBytes reservedNew = some (steepFlow 29 .off) ∧
      ¬ Machine.Always (step .steep .tagOnly) (fun s => s.flow.queue.length ≤ 1)
        (start (steepFlow 29 .off)) twoCells := by
  have hrun : (Machine.run (step .steep .tagOnly) (start (steepFlow 29 .off)) twoCells).map
      (fun s => s.flow.queue.length) = some 2 := by
    decide +kernel
  refine ⟨shapedForward_reservedNew, fun h => ?_⟩
  obtain ⟨s, hs, hdepth⟩ := Option.map_eq_some_iff.mp hrun
  have hone := h.last hs
  rw [hdepth] at hone
  exact absurd hone (by decide)

end Service

end MixTor
