/-
  MixTor.Transport.ServiceFlow

  One flow of the shared emitter (transport.rs): `FlowSlot` and `service_flow`.

  A service call is synchronous.  What happens around it is part of the call:
  the clock readings it gets, the cells that arrive on the reader channel before
  it and before each of its pulls, and what the socket answers when `pending` is
  written.

  The slot keeps two histories the source does not: the bytes the socket has
  taken (`wire`) and the frames emitted so far with the slots they belong to
  (`emitted`).  Lab logging is left out.
-/

import MixTor.Lib.Channel
import MixTor.Shaping.ShapedSession
import MixTor.Transport.Tail
import Mathlib.Tactic.NormNum

namespace MixTor

open Channel
open Crypto (Bytes Aead Blake3 FrameCipher kindReal kindDummy encFrameLen)

/-- Capacity of the channel between the steady-state reader and the emitter. -/
def steadyChannelCap : Nat := 1024

/-- Cap on a flow's encoded-but-unwritten wire bytes. -/
def pendingCap : Nat := 64 * 1024

/-- The fixed-rate cover-clock configuration of one session. -/
def shapedCompositionConfig (F : F64) (initialIatMs : Double) : CompositionConfig :=
  { CompositionConfig.default with
    cellBytes := some cellBytes
    clockAdaptRate := some false
    clockEmaAlpha := some (.finite (F.round 0.05))
    clockMinIatMs := some (.finite 1)
    clockInitialIatMs := some initialIatMs
    clockMaxIatMs := some (.finite 60)
    clockMinDummyFraction := some (.finite (F.round 0.12)) }

/-- What `try_write` answers. -/
inductive TryWrite where
  | ok (n : Nat)
  | wouldBlock
  | err
  deriving DecidableEq, Repr

/-- What reaches the reader channel in one interval: cells whose sends complete,
    and then perhaps the drop of the last sender. -/
structure Arrival where
  cells : List Cell
  close : Bool
  deriving DecidableEq, Repr

def Arrival.none : Arrival := ⟨[], false⟩

/-- Everything a service call gets from outside.  `arrivals 0` comes before the
    call, `arrivals (i + 1)` before its `i`-th slot. -/
structure ServiceCall where
  clock : Clock
  arrivals : Nat → Arrival
  tryWrite : Nat → TryWrite

/-- A frame and the departure slot it was emitted in. -/
structure Emission where
  slot : Instant
  frame : MixedFrame
  deriving DecidableEq, Repr

/-- One flow owned by the shared emitter. -/
structure FlowSlot (ρ : Type) where
  session : ShapedSession ρ
  cellRx : Chan Cell steadyChannelCap
  wireSeq : Nat
  sessionStart : Instant
  /-- Encoded-but-unwritten wire bytes. -/
  pending : Bytes
  /-- Set once the reader channel closes. -/
  readerDone : Bool
  policy : TailPolicy
  /-- Deadline and wire-volume target to reach before closing. -/
  tail : Option (Instant × Nat)
  /-- Force-close past this instant. -/
  finishBy : Option Instant
  thresholds : FuzzedClassThresholds
  /-- True real bytes injected so far. -/
  realBytes : Nat
  /-- Real cells are not pulled before this instant. -/
  realHoldUntil : Instant
  cipher : FrameCipher
  clockStarted : Bool
  /-- Every byte the socket has accepted. -/
  wire : Bytes
  /-- Every frame emitted. -/
  emitted : List Emission

/-- The kind byte and the cell bytes of a frame. -/
def frameCell : MixedFrame → UInt8 × Bytes
  | .real packet => (kindReal, packet.bytes)
  | .dummy bytes => (kindDummy, bytes)

/-- Seal a mixed frame into its on-wire bytes. -/
def encodeFrame (A : Aead) (frame : MixedFrame) (cipher : FrameCipher) : Bytes × FrameCipher :=
  cipher.sealFrame A (frameCell frame).1 (frameCell frame).2

/-- The backstop set when the end of the reader is seen at a clock reading:
    5 s past the tail deadline, or past now when there is no tail. -/
def eofBackstop (realBytes wireSeq : Nat) (policy : TailPolicy) (th : FuzzedClassThresholds)
    (sessionStart : Instant) (clk : Clock) : Instant :=
  match tailTargets realBytes wireSeq policy th sessionStart clk with
  | (some (deadline, _), _) => deadline + Duration.fromSecs 5
  | (none, clk) => clk.now + Duration.fromSecs 5

namespace FlowSlot

variable {ρ : Type} [RngCore ρ]

/-- A flow as it is registered with the emitter. -/
def registered (session : ShapedSession ρ) (sessionStart : Instant) (policy : TailPolicy)
    (thresholds : FuzzedClassThresholds) (realHoldUntil : Instant) (cipher : FrameCipher) :
    FlowSlot ρ where
  session
  cellRx := .new
  wireSeq := 0
  sessionStart
  pending := []
  readerDone := false
  policy
  tail := none
  finishBy := none
  thresholds
  realBytes := 0
  realHoldUntil
  cipher
  clockStarted := false
  wire := []
  emitted := []

/-- The reader side of the channel moves.  After its sender is dropped nothing
    can arrive. -/
def arrive (flow : FlowSlot ρ) (a : Arrival) : FlowSlot ρ :=
  if flow.cellRx.senders then
    { flow with
      cellRx := if a.close then (flow.cellRx.offer a.cells).dropSenders
        else flow.cellRx.offer a.cells }
  else flow

/-- One pull attempt. -/
def pull (F : F64) (realGateOpen : Bool) (clk : Clock) (flow : FlowSlot ρ) :
    FlowSlot ρ × Clock :=
  if !flow.readerDone && flow.session.hasQueueSpace && realGateOpen then
    match flow.cellRx.tryRecv with
    | (.ok cell, cellRx) =>
        let trueLen := (decodeRealCell cell.bytes).2.length
        match Packet.new cell.bytes with
        | .error _ => ({ flow with cellRx }, clk)
        | .ok packet =>
            match flow.session.injectReal F clk packet with
            | (.ok _, session, clk) =>
                ({ flow with
                  cellRx, session
                  realBytes := min (flow.realBytes + trueLen) (2 ^ 64 - 1) }, clk)
            | (.error _, session, clk) => ({ flow with cellRx, session }, clk)
    | (.empty, _) => (flow, clk)
    | (.disconnected, _) =>
        let (tail, clk') := tailTargets flow.realBytes flow.wireSeq flow.policy flow.thresholds
          flow.sessionStart clk
        ({ flow with
          readerDone := true
          tail
          finishBy := some (eofBackstop flow.realBytes flow.wireSeq flow.policy flow.thresholds
            flow.sessionStart clk) },
          if tail.isSome then clk' else clk'.later)
  else (flow, clk)

/-- Tick the session and put the frame, sealed, behind `pending`. -/
def fireSlot (F : F64) (A : Aead) (clk : Clock) (flow : FlowSlot ρ) : FlowSlot ρ × Clock :=
  match flow.session.tick F clk with
  | (none, session, clk) => ({ flow with session }, clk)
  | (some frame, session, clk) =>
      let (bytes, cipher) := encodeFrame A frame flow.cipher
      ({ flow with
        session, cipher
        wireSeq := flow.wireSeq + 1
        pending := flow.pending ++ bytes
        emitted := flow.emitted ++ [⟨flow.session.correlator.nextDeparture, frame⟩] }, clk)

/-- `while slot_ready() && pending.len() < PENDING_CAP`, for at most `fuel` slots. -/
def slotLoop (F : F64) (A : Aead) (realGateOpen : Bool) :
    Nat → (Nat → Arrival) → Clock → FlowSlot ρ → FlowSlot ρ × Clock
  | 0, _, clk, flow => (flow, clk)
  | fuel + 1, arrivals, clk, flow =>
      if (flow.session.slotReady clk).1 && flow.pending.length < pendingCap then
        let pulled := (flow.arrive (arrivals 0)).pull F realGateOpen clk.later
        let fired := pulled.1.fireSlot F A pulled.2
        slotLoop F A realGateOpen fuel (fun i => arrivals (i + 1)) fired.2 fired.1
      else (flow, clk.later)

/-- Restart the departure clock on the first service. -/
def startClock (F : F64) (clk : Clock) (flow : FlowSlot ρ) : FlowSlot ρ × Clock :=
  if flow.clockStarted then (flow, clk)
  else
    let (session, clk) := flow.session.restartClock F clk
    ({ flow with session, clockStarted := true }, clk)

/-- Fire every slot that has come.  A slot puts at least one byte behind
    `pending`, so `pendingCap` slots are fuel enough. -/
def runSlots (F : F64) (A : Aead) (arrivals : Nat → Arrival) (clk : Clock) (flow : FlowSlot ρ) :
    FlowSlot ρ × Clock :=
  if flow.pending.length < pendingCap then
    slotLoop F A (decide (flow.realHoldUntil ≤ clk.now)) pendingCap arrivals clk.later flow
  else (flow, clk)

/-- Flush `pending` to the wire, non-blocking.  `false` drops the flow. -/
def flush (tryWrite : Nat → TryWrite) (flow : FlowSlot ρ) : Bool × FlowSlot ρ :=
  if flow.pending = [] then (true, flow)
  else match tryWrite flow.pending.length with
    | .ok 0 => (false, flow)
    | .ok n =>
        (true, { flow with
          pending := flow.pending.drop n
          wire := flow.wire ++ flow.pending.take n })
    | .wouldBlock => (true, flow)
    | .err => (false, flow)

/-- The termination test: drained with the tail met, or past the backstop. -/
def finished (clk : Clock) (flow : FlowSlot ρ) : Bool :=
  if flow.readerDone then
    let drained := flow.session.queueDepth == 0 && flow.pending.isEmpty
    let (tailMet, clk) := match flow.tail with
      | none => (true, clk)
      | some (deadline, vol) => (deadline ≤ clk.now && vol ≤ flow.wireSeq, clk.later)
    let pastDeadline := match flow.finishBy with
      | some d => decide (d ≤ clk.now)
      | none => false
    (drained && tailMet) || pastDeadline
  else false

/-- The first half of a service call: start the clock and fire the slots that
    have come. -/
def emit (F : F64) (A : Aead) (call : ServiceCall) (flow : FlowSlot ρ) : FlowSlot ρ × Clock :=
  let started := (flow.arrive (call.arrivals 0)).startClock F call.clock
  started.1.runSlots F A (fun i => call.arrivals (i + 1)) started.2

/-- Service one flow for this tick.  `true` keeps the flow, `false` drops it. -/
def serviceFlow (F : F64) (A : Aead) (call : ServiceCall) (flow : FlowSlot ρ) :
    Bool × FlowSlot ρ :=
  let ran := flow.emit F A call
  let flushed := ran.1.flush call.tryWrite
  if flushed.1 then (!flushed.2.finished ran.2, flushed.2) else (false, flushed.2)

-- ============================================================================
-- What each stage of a service call can do to a steady flow
-- ============================================================================

variable {F : F64} {A : Aead}

/-- The session runs at a fixed rate over 514-byte cells. -/
structure Steady (flow : FlowSlot ρ) : Prop where
  fixedRate : flow.session.FixedRate
  cellBytes : flow.session.correlator.config.cellBytes = MixTor.cellBytes

/-- A sealed frame is one byte and a tag longer than its cell, real or dummy. -/
theorem encodeFrame_length (hA : A.Lawful) (frame : MixedFrame) (cipher : FrameCipher) :
    (encodeFrame A frame cipher).1.length = encFrameLen frame.len := by
  rw [encodeFrame, FrameCipher.sealFrame_length hA]
  cases frame <;> rfl

/-- The packets waiting in the correlator. -/
def queue (flow : FlowSlot ρ) : List Packet := flow.session.correlator.realQueue

/-- Two sessions with the same departure clock. -/
structure SameClock (s s' : ShapedSession ρ) : Prop where
  config : s'.correlator.config = s.correlator.config
  rng : s'.correlator.rng = s.correlator.rng
  meanIatMs : s'.correlator.meanIatMs = s.correlator.meanIatMs
  nextDeparture : s'.correlator.nextDeparture = s.correlator.nextDeparture

omit [RngCore ρ] in
/-- The loop guard: the slot has come and `pending` is below its cap. -/
theorem slotGuard_iff {flow : FlowSlot ρ} {clk : Clock} :
    ((flow.session.slotReady clk).1 && decide (flow.pending.length < pendingCap)) = true ↔
      flow.session.correlator.nextDeparture ≤ clk.now ∧ flow.pending.length < pendingCap := by
  rw [Bool.and_eq_true, decide_eq_true_eq, ShapedSession.slotReady, TimingCorrelator.slotReady,
    decide_eq_true_eq]

/-- The outcomes of a pull attempt. -/
inductive Pulled (flow : FlowSlot ρ) (clk : Clock) : FlowSlot ρ → Clock → Prop
  | idle : Pulled flow clk flow clk
  | cell (c : Cell) (rest : List Cell) (session' : ShapedSession ρ)
      (unread : flow.cellRx.queue = c :: rest) (running : flow.readerDone = false)
      (fixed : session'.FixedRate) (same : SameClock flow.session session')
      (queued : session'.correlator.realQueue
        = flow.session.correlator.realQueue ++ [⟨c.bytes, c.bytes_ne_nil⟩]) :
      Pulled flow clk
        { flow with
          cellRx := flow.cellRx.tryRecv.2
          session := session'
          realBytes := min (flow.realBytes + (decodeRealCell c.bytes).2.length) (2 ^ 64 - 1) }
        clk
  | eof (tail : Option (Instant × Nat)) (n : Nat) (unread : flow.cellRx.queue = [])
      (closed : flow.cellRx.senders = false) (running : flow.readerDone = false)
      (targets : tail = (tailTargets flow.realBytes flow.wireSeq flow.policy flow.thresholds
        flow.sessionStart clk).1) :
      Pulled flow clk
        { flow with
          readerDone := true
          tail
          finishBy := some (eofBackstop flow.realBytes flow.wireSeq flow.policy
            flow.thresholds flow.sessionStart clk) }
        (clk.after n)

theorem pull_spec {flow : FlowSlot ρ} (hs : flow.Steady) (gate : Bool) (clk : Clock) :
    Pulled flow clk (flow.pull F gate clk).1 (flow.pull F gate clk).2 := by
  unfold pull
  split
  · next hguard =>
    simp only [Bool.and_eq_true, Bool.not_eq_true'] at hguard
    obtain ⟨⟨hrun, hroom⟩, -⟩ := hguard
    rcases flow.cellRx.tryRecv_cases with
      ⟨c, rest, hq, hok, -, -, -, -⟩ | ⟨-, -, h⟩ | ⟨hq, hclosed, h⟩
    · have htry : flow.cellRx.tryRecv = (.ok c, flow.cellRx.tryRecv.2) := by rw [← hok]
      rw [htry]
      simp only [Packet.new_of_ne_nil c.bytes_ne_nil]
      obtain ⟨session', hinj, hfix, hqueue, hcfg, hrng, hmean, hnext⟩ :=
        ShapedSession.injectReal_of_space (F := F) hs.fixedRate clk
          ⟨c.bytes, c.bytes_ne_nil⟩
          (by rw [hs.cellBytes]; exact c.length_eq) hroom
      rw [hinj]
      exact .cell c rest session' hq hrun hfix ⟨hcfg, hrng, hmean, hnext⟩ hqueue
    · rw [h]
      exact .idle
    · rw [h]
      cases htail : tailTargets flow.realBytes flow.wireSeq flow.policy flow.thresholds
        flow.sessionStart clk with
      | mk tail clk' =>
          have hclk : ∃ n, (if tail.isSome then clk' else clk'.later) = clk.after n := by
            cases hp : flow.policy <;> rw [hp] at htail <;> cases htail <;>
              first | exact ⟨0, rfl⟩ | exact ⟨1, rfl⟩
          obtain ⟨n, hn⟩ := hclk
          simp only [hn]
          exact .eof tail n hq hclosed hrun (by rw [htail])
  · exact .idle

/-- The outcomes of firing a slot. -/
inductive Fired (F : F64) (A : Aead) (flow : FlowSlot ρ) (clk : Clock) :
    FlowSlot ρ → Clock → Prop
  | waits (early : clk.now < flow.session.correlator.nextDeparture) :
      Fired F A flow clk flow clk.later
  | emits (frame : MixedFrame) (session' : ShapedSession ρ)
      (due : flow.session.correlator.nextDeparture ≤ clk.now)
      (fixed : session'.FixedRate) (size : frame.len = MixTor.cellBytes)
      (took : TimingCorrelator.Emitted flow.session.correlator.realQueue
        session'.correlator.realQueue
        (TimingCorrelator.slotCoin F flow.session.correlator.config flow.session.correlator.rng
          flow.session.correlator.meanIatMs).1 frame)
      (config : session'.correlator.config = flow.session.correlator.config)
      (meanIatMs : session'.correlator.meanIatMs = flow.session.correlator.meanIatMs)
      (rng : session'.correlator.rng
        = (TimingCorrelator.slotCoin F flow.session.correlator.config
            flow.session.correlator.rng flow.session.correlator.meanIatMs).2)
      (nextDeparture : session'.correlator.nextDeparture
        = TimingCorrelator.nextSlot flow.session.correlator.nextDeparture
            (TimingCorrelator.slotStep F flow.session.correlator.config
              flow.session.correlator.rng flow.session.correlator.meanIatMs).1
            clk.later.now) :
      Fired F A flow clk
        { flow with
          session := session'
          cipher := (encodeFrame A frame flow.cipher).2
          wireSeq := flow.wireSeq + 1
          pending := flow.pending ++ (encodeFrame A frame flow.cipher).1
          emitted := flow.emitted ++ [⟨flow.session.correlator.nextDeparture, frame⟩] }
        clk.later.later

theorem fireSlot_spec {flow : FlowSlot ρ} (hs : flow.Steady) (clk : Clock) :
    Fired F A flow clk (flow.fireSlot F A clk).1 (flow.fireSlot F A clk).2 := by
  unfold fireSlot
  rcases Nat.lt_or_ge clk.now flow.session.correlator.nextDeparture with hlt | hle
  · rw [ShapedSession.tick_of_lt hlt]
    exact .waits hlt
  · obtain ⟨frame, session', htick, hfix, htook, hsize, hcfg, hmean, hrng, hnext⟩ :=
      ShapedSession.tick_of_le (F := F) hs.fixedRate hle
    rw [htick]
    exact .emits frame session' hle hfix (hsize.trans hs.cellBytes) htook hcfg hmean hrng hnext

-- ============================================================================
-- Invariants of a service call
-- ============================================================================

/-- The slot after a call is the flushed slot, kept or dropped. -/
theorem serviceFlow_snd (flow : FlowSlot ρ) (call : ServiceCall) :
    (flow.serviceFlow F A call).2 = ((flow.emit F A call).1.flush call.tryWrite).2 := by
  rw [serviceFlow]
  split <;> rfl

omit [RngCore ρ] in
/-- A stage of a call leaves the clock some readings further on. -/
theorem Pulled.clock {flow flow' : FlowSlot ρ} {clk clk' : Clock}
    (h : Pulled flow clk flow' clk') : ∃ n, clk' = clk.after n := by
  cases h with
  | idle => exact ⟨0, rfl⟩
  | cell => exact ⟨0, rfl⟩
  | eof _ n => exact ⟨n, rfl⟩

theorem Fired.clock {flow flow' : FlowSlot ρ} {clk clk' : Clock}
    (h : Fired F A flow clk flow' clk') : ∃ n, clk' = clk.after n := by
  cases h with
  | waits => exact ⟨1, rfl⟩
  | emits => exact ⟨2, rfl⟩

/-- **Invariant rule for the first half of a call.** What its arrivals, the clock
    start, the pulls and the slots of a steady flow keep holds before the flush;
    every stage sees the clock of the call some readings on. -/
theorem emit_invariant {P : FlowSlot ρ → Prop} (call : ServiceCall)
    (hsteady : ∀ flow, P flow → flow.Steady)
    (harrive : ∀ flow i, P flow → P (flow.arrive (call.arrivals i)))
    (hstart : ∀ flow, P flow → P (flow.startClock F call.clock).1)
    (hpull : ∀ flow n flow' clk', P flow → Pulled flow (call.clock.after n) flow' clk' → P flow')
    (hfire : ∀ flow n flow' clk', P flow → Fired F A flow (call.clock.after n) flow' clk' →
      P flow')
    {flow : FlowSlot ρ} (hP : P flow) :
    P (flow.emit F A call).1 ∧ ∃ n, (flow.emit F A call).2 = call.clock.after n := by
  have hloop : ∀ (gate : Bool) (fuel m n : Nat) (f : FlowSlot ρ), P f →
      P (slotLoop F A gate fuel (fun i => call.arrivals (i + m)) (call.clock.after n) f).1 ∧
        ∃ k, (slotLoop F A gate fuel (fun i => call.arrivals (i + m)) (call.clock.after n) f).2
          = call.clock.after k := by
    intro gate fuel
    induction fuel with
    | zero => exact fun _ n f h => ⟨h, n, rfl⟩
    | succ fuel ih =>
        intro m n f hf
        rw [slotLoop, Clock.later_after]
        split
        · have harr := harrive f (0 + m) hf
          have hpulled := pull_spec (F := F) (hsteady _ harr) gate (call.clock.after (n + 1))
          have hpul := hpull _ _ _ _ harr hpulled
          obtain ⟨j, hj⟩ := hpulled.clock
          simp only [hj, Clock.after_after]
          have hfired := fireSlot_spec (F := F) (A := A) (hsteady _ hpul)
            (call.clock.after (n + 1 + j))
          obtain ⟨k, hk⟩ := hfired.clock
          simp only [hk, Clock.after_after, Nat.add_right_comm _ 1 m, Nat.add_assoc _ m 1]
          exact ih (m + 1) _ _ (hfire _ _ _ _ hpul hfired)
        · exact ⟨hf, n + 1, rfl⟩
  have hst := hstart _ (harrive flow 0 hP)
  obtain ⟨n, hn⟩ : ∃ n, ((flow.arrive (call.arrivals 0)).startClock F call.clock).2
      = call.clock.after n := by
    rw [startClock]
    split
    · exact ⟨0, rfl⟩
    · exact ⟨2, rfl⟩
  rw [emit, runSlots, hn]
  split
  · rw [Clock.later_after]
    exact hloop _ _ 1 _ _ hst
  · exact ⟨hst, n, rfl⟩

/-- What every stage of a service call keeps, the call keeps. -/
theorem serviceFlow_invariant {P : FlowSlot ρ → Prop} (call : ServiceCall)
    (hsteady : ∀ flow, P flow → flow.Steady)
    (harrive : ∀ flow i, P flow → P (flow.arrive (call.arrivals i)))
    (hstart : ∀ flow, P flow → P (flow.startClock F call.clock).1)
    (hpull : ∀ flow n flow' clk', P flow → Pulled flow (call.clock.after n) flow' clk' → P flow')
    (hfire : ∀ flow n flow' clk', P flow → Fired F A flow (call.clock.after n) flow' clk' →
      P flow')
    (hflush : ∀ flow, P flow → P (flow.flush call.tryWrite).2)
    {flow : FlowSlot ρ} (hP : P flow) : P (flow.serviceFlow F A call).2 := by
  rw [serviceFlow_snd]
  exact hflush _ (emit_invariant call hsteady harrive hstart hpull hfire hP).1

/-- A flow registered with a production session is steady, with an empty queue. -/
theorem registered_steady {H : Blake3} {clk clk' : Clock} {seed : EphemeralSeed}
    {initialIatMs : Double} {composerRng : ρ} {session : ShapedSession ρ}
    (hnew : ShapedSession.new F H clk seed (shapedCompositionConfig F initialIatMs) composerRng
      = some (.ok (session, clk')))
    (sessionStart : Instant) (policy : TailPolicy) (thresholds : FuzzedClassThresholds)
    (realHoldUntil : Instant) (cipher : FrameCipher) :
    (registered session sessionStart policy thresholds realHoldUntil cipher).Steady ∧
      (registered session sessionStart policy thresholds realHoldUntil cipher).queue = [] := by
  obtain ⟨cell, hcell, hcomp, hcfg, hq⟩ := ShapedSession.new_eq_ok hnew
  obtain rfl : MixTor.cellBytes = cell := Option.some.inj hcell
  refine ⟨⟨⟨?_, ?_, ?_⟩, ?_⟩, hq⟩
  · exact congrArg TimingCorrelatorConfig.adaptRate hcfg
  · exact hcomp.trans (congrArg (fun c => some c.cellBytes) hcfg.symm)
  · intro p hp
    rw [show (registered session sessionStart policy thresholds realHoldUntil
      cipher).session.correlator.realQueue = [] from hq] at hp
    cases hp
  · exact congrArg TimingCorrelatorConfig.cellBytes hcfg

end FlowSlot

-- ============================================================================
-- Production sessions over a generator that draws one word for ever
-- ============================================================================

theorem steep_config_valid :
    (ShapedSession.correlatorConfig .steep (shapedCompositionConfig .steep (.finite 5))
      cellBytes).Valid := by
  constructor <;> decide +kernel

/-- A session whose slots are all 60 ms long.  With seed byte 29 the generator
    draws zeros and every slot is reserved for a dummy, with 157 it draws one
    half and none is. -/
def steepSession (b : UInt8) : ShapedSession FixedRng where
  composer := .withConfig (shapedCompositionConfig .steep (.finite 5)) ⟨0⟩
  correlator := (TimingCorrelator.start .steep (.const 0) _ steep_config_valid (by decide)
    (ShapedSession.correlatorRng .sumBytes ⟨Vector.replicate 32 b⟩)).1

theorem new_steepSession (b : UInt8) :
    ShapedSession.new .steep .sumBytes (.const 0) ⟨Vector.replicate 32 b⟩
      (shapedCompositionConfig .steep (.finite 5)) (⟨0⟩ : FixedRng)
      = some (.ok (steepSession b, .const 0)) :=
  ShapedSession.new_of_valid rfl steep_config_valid (by decide)

end MixTor
