/-
  MixTor.Transport.EntryGate

  The entry gate of `shaped_forward` (transport.rs) under `TailPolicy::Epoch`.

  A flow is registered at once and its clock runs from the first service, but no
  real cell is pulled before the first epoch boundary after the start of the
  session.  The gate is read once per service call.  Until a call reads it open the
  flow is `Unopened`: its reader may fill the channel, and may end, and nothing of
  that has reached the correlator, so every slot has fired a dummy.
-/

import MixTor.Transport.ConnectionLimit
import MixTor.Transport.SlotLoop
import MixTor.Transport.TailAlignment

namespace MixTor

open Channel
open Crypto (Aead FrameCipher Blake3)

/-- Until when real cells are held: the next epoch boundary, or no longer than the
    start of the session. -/
def realHoldUntil (tail : TailPolicy) (sessionStart : Instant) : Instant :=
  match tail with
  | .epoch clock => clock.nextBoundary sessionStart
  | _ => sessionStart

/-- The flow that `shaped_forward` registers; its reader is what arrives on the
    channel. -/
def shapedForward {ρ : Type} [RngCore ρ] (F : F64) (H : Blake3) (new : NewFlow ρ) :
    Option (FlowSlot ρ) :=
  match ShapedSession.new F H new.clock new.seed (shapedCompositionConfig F new.initialIatMs)
      new.composerRng with
  | some (.ok (session, clock)) =>
      some (.registered session clock.now new.tail new.thresholds
        (realHoldUntil new.tail clock.now) new.cipher)
  | _ => none

namespace FlowSlot

variable {ρ : Type}

/-- The reading of the gate in a call: the first, or the one after the two of
    `restart_clock`. -/
def gateReading (flow : FlowSlot ρ) (call : ServiceCall) : Instant :=
  if flow.clockStarted then call.clock.now else (call.clock.after 2).now

/-- Nothing has been pulled, and every slot that fired sent a dummy. -/
structure Unopened (flow : FlowSlot ρ) : Prop where
  steady : flow.Steady
  dummies : ∀ e ∈ flow.emitted, e.frame.isDummy = true
  fired : flow.wireSeq = flow.emitted.length
  received : flow.cellRx.received = []
  queue : flow.queue = []
  running : flow.readerDone = false

/-- `f` is `flow` some stages later, with what was emitted and sent before. -/
structure HeldSince (flow f : FlowSlot ρ) : Prop where
  unopened : f.Unopened
  emitted : flow.emitted <+: f.emitted
  sent : flow.cellRx.sent <+: f.cellRx.sent
  hold : f.realHoldUntil = flow.realHoldUntil

variable {F : F64} {A : Aead} {flow f : FlowSlot ρ}

theorem heldSince_self (h : flow.Unopened) : flow.HeldSince flow :=
  ⟨h, List.prefix_rfl, List.prefix_rfl, rfl⟩

theorem HeldSince.arrive (h : flow.HeldSince f) (a : Arrival) : flow.HeldSince (f.arrive a) := by
  obtain ⟨⟨⟨hfix, hcell⟩, hdum, hfired, hrec, hqueue, hrun⟩, hemit, hsent, hhold⟩ := h
  have hoffer : f.cellRx.sent <+: (f.cellRx.offer a.cells).sent := by
    rw [Chan.sent, Chan.sent, Chan.offer, ← List.append_assoc]
    exact List.prefix_append _ _
  rw [FlowSlot.arrive]
  split
  · refine ⟨⟨⟨hfix, hcell⟩, hdum, hfired, ?_, hqueue, hrun⟩, hemit, hsent.trans ?_, hhold⟩
    · rw [← hrec]
      dsimp only
      split <;> rfl
    · dsimp only
      split <;> exact hoffer
  · exact ⟨⟨⟨hfix, hcell⟩, hdum, hfired, hrec, hqueue, hrun⟩, hemit, hsent, hhold⟩

theorem HeldSince.flush (h : flow.HeldSince f) (w : Nat → TryWrite) :
    flow.HeldSince (f.flush w).2 := by
  obtain ⟨⟨⟨hfix, hcell⟩, hdum, hfired, hrec, hqueue, hrun⟩, hemit, hsent, hhold⟩ := h
  obtain ⟨pending, wire, hflush⟩ := flush_eq w f
  rw [hflush]
  exact ⟨⟨⟨hfix, hcell⟩, hdum, hfired, hrec, hqueue, hrun⟩, hemit, hsent, hhold⟩

variable [RngCore ρ]

theorem HeldSince.startClock (h : flow.HeldSince f) (clk : Clock) :
    flow.HeldSince (f.startClock F clk).1 := by
  rw [FlowSlot.startClock]
  split
  · exact h
  · obtain ⟨⟨⟨⟨hrate, hcomp, hsize⟩, hcell⟩, hdum, hfired, hrec, hqueue, hrun⟩, hemit, hsent,
      hhold⟩ := h
    exact ⟨⟨⟨⟨hrate, hcomp, hsize⟩, hcell⟩, hdum, hfired, hrec, hqueue, hrun⟩, hemit, hsent, hhold⟩

/-- With nothing waiting in the correlator a slot fires a dummy. -/
theorem HeldSince.fired {clk clk' : Clock} {f' : FlowSlot ρ} (h : flow.HeldSince f)
    (hf : Fired F A f clk f' clk') : flow.HeldSince f' := by
  cases hf with
  | waits => exact h
  | emits frame session' due fixed size took hcfg =>
      have hnone : f.session.correlator.realQueue = [] := h.unopened.queue
      have hdummy : frame.isDummy = true ∧ session'.correlator.realQueue = [] := by
        cases took with
        | real p _ head =>
            rw [hnone] at head
            cases head
        | dummy b _ same => exact ⟨rfl, same.trans hnone⟩
      refine ⟨⟨⟨fixed, hcfg ▸ h.unopened.steady.cellBytes⟩, ?_, ?_, h.unopened.received, hdummy.2,
        h.unopened.running⟩, h.emitted.trans (List.prefix_append _ _), h.sent, h.hold⟩
      · intro e he
        rcases List.mem_append.mp he with hold | hnew
        · exact h.unopened.dummies e hold
        · rw [List.mem_singleton.mp hnew]
          exact hdummy.1
      · rw [List.length_append, List.length_singleton, ← h.unopened.fired]

/-- The slots of a call behind a closed gate. -/
theorem HeldSince.slotLoop (h : flow.HeldSince f) (fuel : Nat) (arrivals : Nat → Arrival)
    (clk : Clock) : flow.HeldSince (FlowSlot.slotLoop F A false fuel arrivals clk f).1 := by
  refine slotLoop_invariant (C := fun _ => True) ?_ h fun _ _ => trivial
  intro g clk i hg hdue _ _
  obtain ⟨p, clkp, hpull, -, -, hfired⟩ :=
    slot_spec (F := F) (A := A) hg.unopened.steady hdue false (arrivals i)
  rw [pull_closed] at hpull
  obtain ⟨rfl, rfl⟩ := Prod.mk.inj hpull
  exact (hg.arrive (arrivals i)).fired hfired

-- ============================================================================
-- A call that finds the gate closed
-- ============================================================================

omit [RngCore ρ] in
/-- The socket reports an error, or that it is closed. -/
def WriteFails (flow : FlowSlot ρ) (tryWrite : Nat → TryWrite) : Prop :=
  flow.pending ≠ [] ∧
    (tryWrite flow.pending.length = .ok 0 ∨ tryWrite flow.pending.length = .err)

omit [RngCore ρ] in
theorem flush_eq_false {w : Nat → TryWrite} (h : (f.flush w).1 = false) : f.WriteFails w := by
  rw [flush] at h
  split at h
  · cases h
  · next hne =>
    split at h
    · next hzero => exact ⟨hne, .inl hzero⟩
    · cases h
    · cases h
    · next herr => exact ⟨hne, .inr herr⟩

/-- What a call behind a closed gate leaves. -/
structure HeldCall (F : F64) (A : Aead) (flow : FlowSlot ρ) (call : ServiceCall) : Prop where
  /-- Everything emitted is cover, and nothing has been pulled. -/
  since : flow.HeldSince (flow.serviceFlow F A call).2
  /-- Every slot that came has fired, unless `pending` reached its cap. -/
  caughtUp : pendingCap ≤ (flow.emit F A call).1.pending.length ∨
    ∃ n, (flow.emit F A call).2 = call.clock.after (n + 1) ∧
      (call.clock.after n).now < (flow.serviceFlow F A call).2.nextSlot
  /-- What was sent waits in the channel, whether the reader has ended or not. -/
  waiting : (flow.serviceFlow F A call).2.cellRx.queue = (flow.serviceFlow F A call).2.cellRx.sent
  /-- Only the socket drops the flow. -/
  kept : (flow.serviceFlow F A call).1 = false → (flow.emit F A call).1.WriteFails call.tryWrite

/-- The clock of the loop starts with the reading of the gate. -/
theorem startClock_now (flow : FlowSlot ρ) (call : ServiceCall) (a : Arrival) :
    ((flow.arrive a).startClock F call.clock).2.now = flow.gateReading call ∧
      ∃ n, ((flow.arrive a).startClock F call.clock).2 = call.clock.after n := by
  have hstarted : (flow.arrive a).clockStarted = flow.clockStarted := by
    rw [arrive]
    split <;> rfl
  rw [startClock, gateReading, hstarted]
  split
  · exact ⟨rfl, 0, rfl⟩
  · exact ⟨rfl, 2, rfl⟩

/-- The first half of a call that reads the gate before it opens. -/
theorem emit_held (hA : A.Lawful) (h : flow.Unopened) {call : ServiceCall}
    (hbefore : flow.gateReading call < flow.realHoldUntil) :
    flow.HeldSince (flow.emit F A call).1 ∧
      (pendingCap ≤ (flow.emit F A call).1.pending.length ∨
        ∃ n, (flow.emit F A call).2 = call.clock.after (n + 1) ∧
          (call.clock.after n).now < (flow.emit F A call).1.nextSlot) := by
  have hst := ((heldSince_self h).arrive (call.arrivals 0)).startClock (F := F) call.clock
  obtain ⟨hnow, n, hclk⟩ := startClock_now (F := F) flow call (call.arrivals 0)
  have hclosed : decide (((flow.arrive (call.arrivals 0)).startClock F call.clock).1.realHoldUntil
      ≤ ((flow.arrive (call.arrivals 0)).startClock F call.clock).2.now) = false := by
    rw [hst.hold, hnow]
    exact decide_eq_false (not_le.mpr hbefore)
  rw [emit, runSlots, hclosed]
  split
  · refine ⟨hst.slotLoop _ _ _, ?_⟩
    rcases slotLoop_caughtUp (F := F) hA false pendingCap (fun i => call.arrivals (i + 1))
      ((flow.arrive (call.arrivals 0)).startClock F call.clock).2.later hst.unopened.steady
      (Nat.le_add_left _ _) with hfull | ⟨m, hend, hearly⟩
    · exact .inl hfull
    · have hlater : ∀ k, ((flow.arrive (call.arrivals 0)).startClock F call.clock).2.later.after k
          = call.clock.after (n + 1 + k) := fun k => by
        rw [hclk, Clock.later_after, Clock.after_after]
      refine .inr ⟨n + 1 + m, hend.trans (hlater (m + 1)), ?_⟩
      rwa [hlater] at hearly
  · next hfull => exact ⟨hst, .inl (not_lt.mp hfull)⟩

/-- **A call that reads the gate before it opens.** -/
theorem serviceFlow_held (hA : A.Lawful) (h : flow.Unopened) {call : ServiceCall}
    (hbefore : flow.gateReading call < flow.realHoldUntil) : flow.HeldCall F A call := by
  obtain ⟨hemit, hcaught⟩ := emit_held (F := F) hA h hbefore
  have hsince : flow.HeldSince (flow.serviceFlow F A call).2 := by
    rw [serviceFlow_snd]
    exact hemit.flush call.tryWrite
  have hnext : (flow.serviceFlow F A call).2.nextSlot = (flow.emit F A call).1.nextSlot := by
    obtain ⟨pending, wire, hflush⟩ := flush_eq call.tryWrite (flow.emit F A call).1
    rw [serviceFlow_snd, hflush]
    rfl
  refine ⟨hsince, ?_, ?_, fun hdrop => ?_⟩
  · rw [hnext]
    exact hcaught
  · rw [Chan.sent, hsince.unopened.received, List.nil_append]
  · rw [serviceFlow] at hdrop
    split at hdrop
    · -- a flow whose reader goes on is not finished
      have hrun := (hemit.flush call.tryWrite).unopened.running
      rw [finished, if_neg (by rw [hrun]; exact Bool.false_ne_true)] at hdrop
      cases hdrop
    · next hfail => exact flush_eq_false (Bool.not_eq_true _ ▸ hfail)

-- ============================================================================
-- Why a flow is dropped
-- ============================================================================

/-- What ends a flow. -/
inductive Ended (F : F64) (A : Aead) (flow : FlowSlot ρ) (call : ServiceCall) : Prop
  | wire (fails : (flow.emit F A call).1.WriteFails call.tryWrite)
  | drained (all : (flow.serviceFlow F A call).2.AllWritten)
  | backstop (d : Instant) (set : (flow.serviceFlow F A call).2.finishBy = some d)
      (past : d ≤ call.clock.stop)

/-- A flow is dropped when its socket fails, when everything sent is written, or past
    its backstop. -/
theorem serviceFlow_ended {cipher₀ : FrameCipher} (hacc : flow.Accounted A cipher₀)
    (hreader : flow.ReaderState) {call : ServiceCall}
    (hdrop : (flow.serviceFlow F A call).1 = false) : flow.Ended F A call := by
  obtain ⟨-, n, hclk⟩ := emit_within (F := F) call hacc hreader
  have hacc' := serviceFlow_accounted (F := F) call hacc
  have hstate := serviceFlow_readerState (F := F) call hacc hreader
  by_cases hflush : ((flow.emit F A call).1.flush call.tryWrite).1 = true
  · have hfin : ((flow.emit F A call).1.flush call.tryWrite).2.finished (flow.emit F A call).2
        = true := by
      rwa [serviceFlow, if_pos hflush, Bool.not_eq_false'] at hdrop
    rw [← serviceFlow_snd] at hfin
    obtain ⟨hdone, ⟨hqueue, hpend⟩ | ⟨d, hset, hpast⟩⟩ := finished_eq_true hfin
    · refine .drained ⟨hqueue, hpend, ?_⟩
      have hcells := hacc'.cells
      rw [hqueue, List.map_nil, List.append_nil] at hcells
      rw [hcells, Chan.sent, (hstate.closed hdone).1, List.append_nil]
    · rw [hclk, Clock.after_stop] at hpast
      exact .backstop d hset hpast
  · exact .wire (flush_eq_false (Bool.not_eq_true _ ▸ hflush))

omit [RngCore ρ] in
/-- Every cell sent is emitted, waits in the correlator or waits in the channel, in
    this order. -/
def Conserved (flow : FlowSlot ρ) : Prop :=
  realCells flow.emitted ++ flow.queue.map Packet.bytes ++ flow.cellRx.queue.map Cell.bytes
    = flow.cellRx.sent.map Cell.bytes

omit [RngCore ρ] in
theorem Accounted.conserved {cipher₀ : FrameCipher} (h : flow.Accounted A cipher₀) :
    flow.Conserved := by
  rw [Conserved, h.cells, Chan.sent, List.map_append]

omit [RngCore ρ] in
/-- The gate is read inside the call. -/
theorem gateReading_within (flow : FlowSlot ρ) (call : ServiceCall) :
    call.clock.now ≤ flow.gateReading call ∧ flow.gateReading call ≤ call.clock.stop := by
  rw [gateReading]
  split
  · exact ⟨le_rfl, call.clock.now_le_stop⟩
  · exact ⟨call.clock.mono (Nat.zero_le _), call.clock.read_le_stop _⟩

theorem shapedForward_eq_some {H : Blake3} {new : NewFlow ρ}
    (h : shapedForward F H new = some flow) :
    ∃ session clock, ShapedSession.new F H new.clock new.seed
        (shapedCompositionConfig F new.initialIatMs) new.composerRng
          = some (.ok (session, clock)) ∧
      flow = .registered session clock.now new.tail new.thresholds
        (MixTor.realHoldUntil new.tail clock.now) new.cipher := by
  rw [shapedForward] at h
  split at h
  · next session clock hnew => exact ⟨session, clock, hnew, (Option.some.inj h).symm⟩
  · cases h

/-- A flow as `shaped_forward` registers it. -/
theorem shapedForward_spec {H : Blake3} {new : NewFlow ρ}
    (h : shapedForward F H new = some flow) :
    flow.Unopened ∧ flow.Accounted A new.cipher ∧ flow.ReaderState ∧
      flow.realHoldUntil = MixTor.realHoldUntil new.tail flow.sessionStart := by
  obtain ⟨session, clock, hnew, rfl⟩ := shapedForward_eq_some h
  obtain ⟨hsteady, hqueue⟩ := registered_steady hnew clock.now new.tail new.thresholds
    (MixTor.realHoldUntil new.tail clock.now) new.cipher
  exact ⟨⟨hsteady, fun e he => absurd he List.not_mem_nil, rfl, rfl, hqueue, rfl⟩,
    registered_accounted hnew clock.now new.tail new.thresholds _ new.cipher,
    ⟨Nat.zero_le _, fun hd => absurd hd Bool.false_ne_true⟩, rfl⟩

end FlowSlot

-- ============================================================================
-- Runs
-- ============================================================================

namespace Service

open FlowSlot

variable {ρ : Type} [RngCore ρ] {F : F64} {A : Aead}

/-- Time does not run backwards from one call to a later one. -/
def InOrder (calls : List ServiceCall) : Prop :=
  calls.Pairwise fun earlier later => earlier.clock.stop ≤ later.clock.now

instance (calls : List ServiceCall) : Decidable (InOrder calls) :=
  inferInstanceAs (Decidable (calls.Pairwise _))

theorem step_eq_some {s t : Service ρ} {call : ServiceCall} (h : step F A s call = some t) :
    t = ⟨(s.flow.serviceFlow F A call).2, (s.flow.serviceFlow F A call).1⟩ := by
  rw [step] at h
  split at h
  · exact (Option.some.inj h).symm
  · cases h

/-- A flow that is kept is serviced. -/
theorem step_of_kept {s : Service ρ} (h : s.kept = true) (call : ServiceCall) :
    step F A s call
      = some ⟨(s.flow.serviceFlow F A call).2, (s.flow.serviceFlow F A call).1⟩ := by
  rw [step, if_pos h]

/-- The calls before the gate opens are held; the calls behind it are not spoken of.
    The induction is on the calls. -/
theorem meets_heldCall (hA : A.Lawful) {s : Service ρ} {calls : List ServiceCall}
    (hord : InOrder calls) (h : s.flow.Unopened) {boundary : Instant}
    (hhold : s.flow.realHoldUntil = boundary) :
    Machine.Meets (step F A) (fun s call => s.flow.gateReading call < boundary →
      s.flow.HeldCall F A call) s calls := by
  induction calls generalizing s with
  | nil => trivial
  | cons call calls ih =>
      intro t ht
      obtain ⟨hlater, hord⟩ := List.pairwise_cons.mp hord
      by_cases hbefore : s.flow.gateReading call < boundary
      · have hheld := serviceFlow_held (F := F) hA h (hhold ▸ hbefore)
        obtain rfl := step_eq_some ht
        exact ⟨fun _ => hheld, ih hord hheld.since.unopened (hheld.since.hold.trans hhold)⟩
      · refine ⟨fun hb => absurd hb hbefore, Machine.meets_of_mem ?_ t⟩
        intro call' hmem s' hb
        have hopen := (not_lt.mp hbefore).trans (gateReading_within s.flow call).2
        exact absurd hb (not_lt.mpr (hopen.trans ((hlater call' hmem).trans
          (gateReading_within s'.flow call').1)))

/-- A session with epochs of 100 ms. -/
def epochNew : NewFlow FixedRng where
  clock := .const 0
  seed := ⟨Vector.replicate 32 157⟩
  initialIatMs := .finite 5
  composerRng := ⟨0⟩
  thresholds := ⟨1, 2, 3⟩
  cipher := .new (Vector.replicate 32 9)
  tail := .epoch ⟨0, .fromMillis 100⟩

def epochFlow : FlowSlot FixedRng :=
  .registered (steepSession 157) 0 (.epoch ⟨0, .fromMillis 100⟩) ⟨1, 2, 3⟩
    (EpochClock.nextBoundary ⟨0, .fromMillis 100⟩ 0) (.new (Vector.replicate 32 9))

theorem shapedForward_epochNew : shapedForward .steep .sumBytes epochNew = some epochFlow := by
  rw [shapedForward, epochNew, new_steepSession]
  rfl

/-- A reader sends its only cell and ends before the first slot. -/
def earlyEnd : List ServiceCall :=
  [callAt 0 lastCell, callAt (Duration.fromMillis 60) .none, callAt (Duration.fromMillis 120) .none]

end Service

end MixTor
