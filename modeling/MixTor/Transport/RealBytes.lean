/-
  MixTor.Transport.RealBytes

  The real-byte count of a flow (transport.rs, `service_flow`), and the class floor of
  its tail.

  Every pull adds the payload length in the header of the cell it takes, so the count
  is at every point the payload received, as far as a u64 holds it.  The end of the
  reader is seen on an empty channel: by then everything sent has been received, and
  the floor depends on the number of bytes alone, not on how they were cut into cells.
-/

import MixTor.Transport.QueueDepth

namespace MixTor

open Channel
open Crypto (Bytes Aead Blake3)

/-- The payload of cells, in order. -/
def payloadBytes (cells : List Cell) : Bytes := cells.flatMap fun c => (decodeRealCell c.bytes).2

@[simp] theorem payloadBytes_append (cs ds : List Cell) :
    payloadBytes (cs ++ ds) = payloadBytes cs ++ payloadBytes ds := List.flatMap_append

/-- The byte stream of a source whose writes were cut into these sends. -/
def CellSend.stream {σ : Type} (sends : List (CellSend σ)) : Bytes :=
  sends.flatMap fun s => s.payload.2

theorem payloadBytes_encode {σ : Type} [RngCore σ] (sends : List (CellSend σ)) :
    payloadBytes (sends.map CellSend.encode) = CellSend.stream sends := by
  simp only [payloadBytes, CellSend.stream, List.flatMap_map, CellSend.decodeRealCell_encode]

/-- A number of bytes as a saturating u64 counts it. -/
def counted (n : Nat) : Nat := min n (2 ^ 64 - 1)

theorem counted_add (m n : Nat) : counted (counted m + n) = counted (m + n) := by
  simp only [counted]
  omega

theorem counted_mono {m n : Nat} (h : m ≤ n) : counted m ≤ counted n := by
  simp only [counted]
  omega

/-- The lifetime floor of a session that sent `realBytes`. -/
def classFloor (realBytes : Nat) (th : FuzzedClassThresholds) : Duration :=
  (classTargetsFuzzy realBytes th).1

/-- More bytes never have a shorter floor, whatever the thresholds. -/
theorem classFloor_mono (th : FuzzedClassThresholds) {m n : Nat} (h : m ≤ n) :
    classFloor m th ≤ classFloor n th := by
  simp only [classFloor, classTargetsFuzzy, FuzzedClassThresholds.classify]
  by_cases hshort : m ≤ th.shortMax
  · rw [if_pos hshort]
    generalize (if n ≤ th.shortMax then SessionClass.short
      else if n ≤ th.mediumMax then .medium
      else if n ≤ th.longMax then .long else .veryLong) = c
    cases c <;> decide
  · have hshort' : ¬ n ≤ th.shortMax := by omega
    rw [if_neg hshort, if_neg hshort']
    by_cases hmedium : m ≤ th.mediumMax
    · rw [if_pos hmedium]
      split
      · exact Nat.le_refl _
      · split <;> decide
    · have hmedium' : ¬ n ≤ th.mediumMax := by omega
      rw [if_neg hmedium, if_neg hmedium']
      by_cases hlong : m ≤ th.longMax
      · rw [if_pos hlong]
        split <;> decide
      · have hlong' : ¬ n ≤ th.longMax := by omega
        rw [if_neg hlong, if_neg hlong']

/-- What the tail keeps of the floor: under `byClass` the deadline is that far from the
    start of the session, under `epoch` the boundary after it and the end of the reader. -/
def TailAtFloor (policy : TailPolicy) (sessionStart : Instant) (floor : Duration)
    (tail : Option (Instant × Nat)) : Prop :=
  match policy with
  | .byClass => ∃ vol, tail = some (sessionStart + floor, vol)
  | .epoch clock => ∃ eof, tail = some (clock.nextBoundary (max eof (sessionStart + floor)), 0)
  | _ => True

theorem tailTargets_atFloor (realBytes wireSeq : Nat) (policy : TailPolicy)
    (th : FuzzedClassThresholds) (sessionStart : Instant) (clk : Clock) :
    TailAtFloor policy sessionStart (classFloor realBytes th)
      (tailTargets realBytes wireSeq policy th sessionStart clk).1 := by
  cases policy with
  | off => trivial
  | fixed floor => trivial
  | byClass => exact ⟨_, rfl⟩
  | epoch clock => exact ⟨clk.now, tailTargets_epoch realBytes wireSeq clock th sessionStart clk⟩

namespace FlowSlot

variable {ρ : Type} {flow f : FlowSlot ρ}

/-- The count of `f`, which was registered as `flow`. -/
structure Counted (flow f : FlowSlot ρ) : Prop where
  steady : f.Steady
  count : f.realBytes = counted (payloadBytes f.cellRx.received).length
  policy : f.policy = flow.policy
  thresholds : f.thresholds = flow.thresholds
  sessionStart : f.sessionStart = flow.sessionStart
  /-- The end of the reader has been seen on an empty channel, and set the tail. -/
  ended : f.readerDone = true → f.cellRx.queue = [] ∧ f.cellRx.senders = false ∧
    TailAtFloor flow.policy flow.sessionStart (classFloor f.realBytes flow.thresholds) f.tail

theorem Counted.arrive (h : flow.Counted f) (a : Arrival) : flow.Counted (f.arrive a) := by
  obtain ⟨hsteady, hcount, hpolicy, hth, hstart, hended⟩ := h
  rw [FlowSlot.arrive]
  split
  · next hopen =>
    have hrun : f.readerDone ≠ true := fun hdone => by
      rw [(hended hdone).2.1] at hopen
      cases hopen
    refine ⟨⟨hsteady.fixedRate, hsteady.cellBytes⟩, ?_, hpolicy, hth, hstart,
      fun hdone => absurd hdone hrun⟩
    dsimp only
    split <;> exact hcount
  · exact ⟨hsteady, hcount, hpolicy, hth, hstart, hended⟩

/-- A pull counts the payload of the cell it takes; at the end of the reader it fixes
    the tail by the count. -/
theorem Counted.pulled {clk clk' : Clock} {f' : FlowSlot ρ} (h : flow.Counted f)
    (hp : Pulled f clk f' clk') : flow.Counted f' := by
  have hsteady' := (h.steady.pulled hp).1
  obtain ⟨hsteady, hcount, hpolicy, hth, hstart, hended⟩ := h
  cases hp with
  | idle => exact ⟨hsteady, hcount, hpolicy, hth, hstart, hended⟩
  | cell c rest session' unread running =>
      refine ⟨hsteady', ?_, hpolicy, hth, hstart, fun hdone => ?_⟩
      · have hone : payloadBytes [c] = (decodeRealCell c.bytes).2 := List.flatMap_singleton ..
        show counted (f.realBytes + _) = _
        rw [hcount, counted_add, (Chan.tryRecv_of_cons unread).2, payloadBytes_append,
          List.length_append, hone]
      · rw [running] at hdone
        cases hdone
  | eof tail n unread closed running targets =>
      refine ⟨hsteady', hcount, hpolicy, hth, hstart, fun _ => ⟨unread, closed, ?_⟩⟩
      rw [← hpolicy, ← hth, ← hstart, targets]
      exact tailTargets_atFloor ..

theorem Counted.flush (h : flow.Counted f) (w : Nat → TryWrite) : flow.Counted (f.flush w).2 := by
  have hsteady := h.steady.flush w
  obtain ⟨pending, wire, hflush⟩ := flush_eq w f
  rw [hflush] at hsteady ⊢
  exact ⟨hsteady, h.count, h.policy, h.thresholds, h.sessionStart, h.ended⟩

variable [RngCore ρ] {F : F64} {A : Aead}

theorem Counted.startClock (h : flow.Counted f) (clk : Clock) :
    flow.Counted (f.startClock F clk).1 := by
  have hsteady := h.steady.startClock (F := F) clk
  rw [FlowSlot.startClock] at hsteady ⊢
  split
  · exact h
  · next hfirst =>
    rw [if_neg hfirst] at hsteady
    exact ⟨hsteady, h.count, h.policy, h.thresholds, h.sessionStart, h.ended⟩

theorem Counted.fired {clk clk' : Clock} {f' : FlowSlot ρ} (h : flow.Counted f)
    (hf : Fired F A f clk f' clk') : flow.Counted f' := by
  have hsteady := h.steady.fired hf
  cases hf with
  | waits => exact h
  | emits => exact ⟨hsteady, h.count, h.policy, h.thresholds, h.sessionStart, h.ended⟩

/-- A service call keeps the count, whatever the clock, the arrivals, the generator and
    the socket do. -/
theorem Counted.service (h : flow.Counted f) (call : ServiceCall) :
    flow.Counted (f.serviceFlow F A call).2 :=
  serviceFlow_invariant call (fun _ h => h.steady) (fun _ _ h => h.arrive _)
    (fun _ h => h.startClock _) (fun _ _ _ _ h hp => h.pulled hp)
    (fun _ _ _ _ h hf => h.fired hf) (fun _ h => h.flush _) h

omit [RngCore ρ] in
/-- When the reader has ended, everything sent is counted. -/
theorem Counted.total {σ : Type} [RngCore σ] (h : flow.Counted f) (hdone : f.readerDone = true)
    {sends : List (CellSend σ)} (hsent : f.cellRx.sent = sends.map CellSend.encode) :
    f.realBytes = counted (CellSend.stream sends).length ∧
      TailAtFloor flow.policy flow.sessionStart (classFloor f.realBytes flow.thresholds)
        f.tail := by
  obtain ⟨hempty, -, htail⟩ := h.ended hdone
  refine ⟨?_, htail⟩
  rw [h.count, ← payloadBytes_encode, ← hsent, Chan.sent, hempty, List.append_nil]

end FlowSlot

namespace Service

open FlowSlot
open Connections (steepNew)

variable {ρ : Type} [RngCore ρ] {F : F64} {A : Aead}

/-- Every state of a run of a flow of `shaped_forward` has counted what it received. -/
theorem counted_of_run {H : Blake3} {new : NewFlow ρ} {flow : FlowSlot ρ}
    (hflow : shapedForward F H new = some flow) {calls : List ServiceCall} {s : Service ρ}
    (hrun : Machine.run (step F A) (start flow) calls = some s) : flow.Counted s.flow := by
  obtain ⟨hun, -, -, -⟩ := shapedForward_spec (A := A) hflow
  have hfresh : flow.Counted flow := by
    refine ⟨hun.steady, ?_, rfl, rfl, rfl, fun hdone => ?_⟩
    · obtain ⟨session, clock, -, rfl⟩ := shapedForward_eq_some hflow
      rfl
    · rw [hun.running] at hdone
      cases hdone
  refine Machine.run_invariant (I := fun s : Service ρ => flow.Counted s.flow) ?_ hfresh hrun
  intro s call t h hstep
  obtain rfl := step_eq_some hstep
  exact h.service call

/-- **The count at the end of the reader.**  In every run of every flow, when the
    reader has ended the count is the number of bytes sent, as a saturating u64 counts
    it, and the tail is set by the floor of that count; with the same thresholds two
    flows that sent equally much, however fragmented, have one floor, and one that
    sent more never has a shorter one. -/
theorem realBytes_total (A : Aead) (H : Blake3) (new new' : NewFlow ρ) (flow flow' : FlowSlot ρ)
    (hflow : shapedForward F H new = some flow) (hflow' : shapedForward F H new' = some flow')
    (calls calls' : List ServiceCall) (s s' : Service ρ)
    (hrun : Machine.run (step F A) (start flow) calls = some s)
    (hrun' : Machine.run (step F A) (start flow') calls' = some s')
    (hdone : s.flow.readerDone = true) (hdone' : s'.flow.readerDone = true)
    {σ : Type} [RngCore σ] (sends sends' : List (CellSend σ))
    (hsent : s.flow.cellRx.sent = sends.map CellSend.encode)
    (hsent' : s'.flow.cellRx.sent = sends'.map CellSend.encode) :
    s.flow.realBytes = counted (CellSend.stream sends).length ∧
      TailAtFloor new.tail flow.sessionStart (classFloor s.flow.realBytes new.thresholds)
        s.flow.tail ∧
      (new.thresholds = new'.thresholds →
        ((CellSend.stream sends).length = (CellSend.stream sends').length →
          classFloor s.flow.realBytes new.thresholds
            = classFloor s'.flow.realBytes new'.thresholds) ∧
        ((CellSend.stream sends).length ≤ (CellSend.stream sends').length →
          classFloor s.flow.realBytes new.thresholds
            ≤ classFloor s'.flow.realBytes new'.thresholds)) := by
  obtain ⟨hcount, htail⟩ := (counted_of_run hflow hrun).total hdone hsent
  obtain ⟨hcount', -⟩ := (counted_of_run hflow' hrun').total hdone' hsent'
  have hterms : flow.policy = new.tail ∧ flow.thresholds = new.thresholds := by
    obtain ⟨session, clock, -, rfl⟩ := shapedForward_eq_some hflow
    exact ⟨rfl, rfl⟩
  rw [hterms.1, hterms.2] at htail
  refine ⟨hcount, htail, fun hth => ⟨fun heq => ?_, fun hle => ?_⟩⟩
  · rw [hcount, hcount', heq, hth]
  · rw [hcount, hcount', hth]
    exact classFloor_mono _ (counted_mono hle)

/-- Two bytes in one write, and in two with close sentinels around them. -/
def whole : List (CellSend FixedRng) := [.real 1 [7, 8] ⟨0⟩]
def pieces : List (CellSend FixedRng) :=
  [.close 1 ⟨0⟩, .real 1 [7] ⟨0⟩, .close 1 ⟨0⟩, .real 1 [8] ⟨0⟩]

/-- A reader that sends all its cells before the first slot, and ends. -/
def sendAll (sends : List (CellSend FixedRng)) (slots : Nat) : List ServiceCall :=
  callAt 0 .none :: callAt (Duration.fromMillis 60) ⟨sends.map CellSend.encode, true⟩ ::
    (List.range slots).map fun i => callAt (Duration.fromMillis (120 + 60 * i)) .none

theorem shapedForward_steepNew :
    shapedForward .steep .sumBytes steepNew = some (steepFlow 157 .byClass) := by
  rw [shapedForward, steepNew, new_steepSession]
  rfl

/-- Both ways of writing the two bytes have the floor of a short session. -/
theorem realBytes_total_two_fragmentations :
    ∃ s s', Machine.run (step .steep .tagOnly) (start (steepFlow 157 .byClass)) (sendAll whole 1)
        = some s ∧
      Machine.run (step .steep .tagOnly) (start (steepFlow 157 .byClass)) (sendAll pieces 4)
        = some s' ∧
      s.flow.realBytes = 2 ∧
      classFloor s.flow.realBytes steepNew.thresholds
        = classFloor s'.flow.realBytes steepNew.thresholds := by
  have hwhole : (Machine.run (step .steep .tagOnly) (start (steepFlow 157 .byClass))
      (sendAll whole 1)).map (fun s => (s.flow.readerDone, s.flow.cellRx.sent))
        = some (true, whole.map CellSend.encode) := by
    decide +kernel
  have hpieces : (Machine.run (step .steep .tagOnly) (start (steepFlow 157 .byClass))
      (sendAll pieces 4)).map (fun s => (s.flow.readerDone, s.flow.cellRx.sent))
        = some (true, pieces.map CellSend.encode) := by
    decide +kernel
  obtain ⟨s, hrun, hs⟩ := Option.map_eq_some_iff.mp hwhole
  obtain ⟨s', hrun', hs'⟩ := Option.map_eq_some_iff.mp hpieces
  obtain ⟨hcount, -, hfloor⟩ := realBytes_total .tagOnly .sumBytes steepNew steepNew _ _
    shapedForward_steepNew shapedForward_steepNew _ _ s s' hrun hrun' (Prod.mk.inj hs).1
    (Prod.mk.inj hs').1 whole pieces (Prod.mk.inj hs).2 (Prod.mk.inj hs').2
  exact ⟨s, s', hrun, hrun', hcount, (hfloor rfl).1 rfl⟩

end Service

-- ============================================================================
-- A count that has saturated
-- ============================================================================

/-- A cell full of payload. -/
def fullSend : CellSend FixedRng := .real 1 (List.replicate cellPayload 0) ⟨0⟩

theorem stream_fullSend (n : Nat) :
    (CellSend.stream (List.replicate n fullSend)).length = n * cellPayload := by
  simp [CellSend.stream, fullSend, CellSend.payload]

/-- A clock that reserves no slot: its configuration, generator and mean. -/
def freeClock : TimingCorrelatorConfig × FixedRng × Double :=
  ((steepSession 157).correlator.config, (steepSession 157).correlator.rng,
    (steepSession 157).correlator.meanIatMs)

theorem slotCoin_freeClock :
    TimingCorrelator.slotCoin .steep freeClock.1 freeClock.2.1 freeClock.2.2
      = (false, freeClock.2.1) := by
  decide +kernel

namespace FlowSlot

variable {A : Aead} {n k : Nat} {f : FlowSlot FixedRng}

/-- `n` full cells have been sent, the last `k` of them unread, and none waits in the
    correlator. -/
structure Streaming (n k : Nat) (f : FlowSlot FixedRng) : Prop where
  steady : f.Steady
  sent : f.cellRx.sent = List.replicate n fullSend.encode
  unread : f.cellRx.queue.length = k
  senders : f.cellRx.senders = true
  running : f.readerDone = false
  hold : f.realHoldUntil = 0
  started : f.clockStarted = true
  idle : f.queue = []
  config : f.session.correlator.config = freeClock.1
  rng : f.session.correlator.rng = freeClock.2.1
  meanIatMs : f.session.correlator.meanIatMs = freeClock.2.2

theorem Streaming.reserved (h : f.Streaming n k) : f.reserved .steep = false := by
  rw [FlowSlot.reserved, h.config, h.rng, h.meanIatMs, slotCoin_freeClock]

theorem Streaming.room (h : f.Streaming n k) : f.session.hasQueueSpace = true := by
  have hempty : f.session.correlator.realQueue = [] := h.idle
  rw [ShapedSession.hasQueueSpace, TimingCorrelator.hasQueueSpace, hempty, h.config]
  rfl

/-- With room in the correlator a pull takes a cell whenever one is unread. -/
theorem Streaming.pulls (h : f.Streaming n k) (hk : k ≤ 1) : (f.pulls true).toNat = k := by
  rw [FlowSlot.pulls, h.running, h.room, ← h.unread]
  have hone : f.cellRx.queue.length ≤ 1 := h.unread.trans_le hk
  cases hq : f.cellRx.queue with
  | nil => rfl
  | cons c rest =>
      rw [hq, List.length_cons] at hone
      rw [List.length_eq_zero_iff.mp (by omega : rest.length = 0)]
      rfl

/-- One more full cell arrives. -/
theorem Streaming.arrive (h : f.Streaming n 0) :
    (f.arrive ⟨[fullSend.encode], false⟩).Streaming (n + 1) 1 := by
  have hempty : f.cellRx.queue = [] := List.length_eq_zero_iff.mp h.unread
  have hsent := h.sent
  rw [Chan.sent, hempty, List.append_nil] at hsent
  have hoffer : (f.cellRx.offer [fullSend.encode]).queue = [fullSend.encode] := by
    show f.cellRx.queue ++ _ = _
    rw [hempty]
    rfl
  rw [FlowSlot.arrive, if_pos h.senders]
  refine ⟨⟨h.steady.fixedRate, h.steady.cellBytes⟩, ?_, congrArg List.length hoffer, h.senders,
    h.running, h.hold, h.started, h.idle, h.config, h.rng, h.meanIatMs⟩
  rw [List.replicate_succ', ← hsent]
  exact congrArg (f.cellRx.received ++ ·) hoffer

theorem Streaming.slot (h : f.Streaming n k) (hk : k ≤ 1) {clk : Clock}
    (hdue : f.nextSlot ≤ clk.now) : (f.slot .steep A true .none clk).1.Streaming n 0 := by
  obtain ⟨p, clkp, -, hpulled, hlate, hfired⟩ :=
    slot_spec (F := .steep) (A := A) h.steady hdue true .none
  obtain ⟨hqueue, hrec, -⟩ := slot_depth (F := .steep) (A := A) h.steady hdue true .none
  rw [arrive_none] at hpulled hqueue hrec
  rw [h.idle, h.pulls hk, h.reserved] at hqueue
  rw [h.pulls hk] at hrec
  have hp : p.cellRx.sent = List.replicate n fullSend.encode ∧ p.cellRx.senders = true ∧
      p.readerDone = false ∧ p.realHoldUntil = 0 ∧ p.clockStarted = true ∧
      p.session.correlator.config = freeClock.1 ∧ p.session.correlator.rng = freeClock.2.1 ∧
      p.session.correlator.meanIatMs = freeClock.2.2 := by
    cases hpulled with
    | idle =>
        exact ⟨h.sent, h.senders, h.running, h.hold, h.started, h.config, h.rng, h.meanIatMs⟩
    | cell c rest session' _ _ _ same _ =>
        exact ⟨(Chan.tryRecv_sent _).trans h.sent, (Chan.tryRecv_senders _).trans h.senders,
          h.running, h.hold, h.started, same.config.trans h.config, same.rng.trans h.rng,
          same.meanIatMs.trans h.meanIatMs⟩
    | eof _ _ _ closed =>
        rw [h.senders] at closed
        cases closed
  obtain ⟨hsent, hsenders, hrun, hhold, hstarted, hconfig, hrng, hmean⟩ := hp
  have hsteady := h.steady.slot (F := .steep) (A := A) hdue true .none
  have hlen : f.cellRx.received.length + k = n := by
    rw [← h.unread, ← List.length_append, ← Chan.sent, h.sent, List.length_replicate]
  generalize f.slot .steep A true .none clk = r at *
  obtain ⟨f', clk'⟩ := r
  obtain ⟨-, hcell, -⟩ := hfired.depth hlate
  have hlen' : f'.cellRx.received.length + f'.cellRx.queue.length = n := by
    rw [← List.length_append, ← Chan.sent, hcell, hsent, List.length_replicate]
  have hdepth : f'.queue.length = 0 + k - 1 := hqueue
  have hidle : f'.queue = [] := List.length_eq_zero_iff.mp (by omega)
  have hread : f'.cellRx.queue.length = 0 := by
    have hrec' : f'.cellRx.received.length = f.cellRx.received.length + k := hrec
    omega
  cases hfired with
  | waits early => exact absurd hlate (not_le.mpr early)
  | emits frame session' due fixed size took hconfig' hmean' hrng' =>
      rw [hconfig, hmean, hrng, slotCoin_freeClock] at hrng'
      exact ⟨hsteady, hsent, hread, hsenders, hrun, hhold, hstarted, hidle,
        hconfig'.trans hconfig, hrng', hmean'.trans hmean⟩

theorem Streaming.flush (h : f.Streaming n k) (w : Nat → TryWrite) :
    (f.flush w).2.Streaming n k := by
  have hsteady := h.steady.flush w
  obtain ⟨pending, wire, hflush⟩ := flush_eq w f
  rw [hflush] at hsteady ⊢
  exact ⟨hsteady, h.sent, h.unread, h.senders, h.running, h.hold, h.started, h.idle, h.config,
    h.rng, h.meanIatMs⟩

/-- A call at `t` before which one more full cell arrives. -/
def fullCall (t : Instant) : ServiceCall where
  clock := .const t
  arrivals i := if i = 0 then ⟨[fullSend.encode], false⟩ else .none
  tryWrite := .ok

/-- A full cell that arrives before the slot leaves in it. -/
theorem Streaming.service (h : f.Streaming n 0) (hpend : f.pending = []) :
    (f.serviceFlow .steep A (fullCall f.nextSlot)).2.Streaming (n + 1) 0 := by
  have hopen : decide (f.realHoldUntil ≤ (fullCall f.nextSlot).clock.now) = true := by
    rw [h.hold]
    exact decide_eq_true (Nat.zero_le _)
  have hroom : f.pending.length < pendingCap := by
    rw [hpend]
    decide
  refine serviceFlow_due (P := fun g => g.Streaming (n + 1) 0) h.started hroom (Nat.le_refl _)
    ?_ ?_ fun g w hg => hg.flush w
  · intro clk hdue
    rw [hopen]
    exact h.arrive.slot (Nat.le_refl 1) (((h.steady.arrive _).2.2).trans_le hdue)
  · intro g clk i hg hdue
    rw [hopen]
    exact hg.slot (Nat.zero_le 1) hdue

/-- The reader has ended after `n` full cells. -/
structure Streamed (n : Nat) (f : FlowSlot FixedRng) : Prop where
  steady : f.Steady
  sent : f.cellRx.sent = List.replicate n fullSend.encode
  senders : f.cellRx.senders = false
  done : f.readerDone = true

theorem Streamed.slot (h : f.Streamed n) {clk : Clock} (hdue : f.nextSlot ≤ clk.now)
    (gate : Bool) (a : Arrival) : (f.slot .steep A gate a clk).1.Streamed n := by
  have harr := arrive_of_closed h.senders a
  obtain ⟨p, clkp, -, hpulled, -, hfired⟩ :=
    slot_spec (F := .steep) (A := A) h.steady hdue gate a
  have hsteady := h.steady.slot (F := .steep) (A := A) hdue gate a
  rw [harr] at hpulled
  have hidle : p = f := by
    cases hpulled with
    | idle => rfl
    | cell _ _ _ _ running => exact absurd h.done (by rw [running]; exact Bool.false_ne_true)
    | eof _ _ _ _ running => exact absurd h.done (by rw [running]; exact Bool.false_ne_true)
  subst hidle
  generalize p.slot .steep A gate a clk = r at *
  obtain ⟨f', clk'⟩ := r
  cases hfired with
  | waits => exact ⟨hsteady, h.sent, h.senders, h.done⟩
  | emits => exact ⟨hsteady, h.sent, h.senders, h.done⟩

/-- The pull that finds the channel empty and closed. -/
theorem pull_eof {f : FlowSlot FixedRng} (hrun : f.readerDone = false)
    (hroom : f.session.hasQueueSpace = true) (hempty : f.cellRx.queue = [])
    (hclosed : f.cellRx.senders = false) (clk : Clock) :
    (f.pull .steep true clk).1.readerDone = true ∧
      (f.pull .steep true clk).1.cellRx = f.cellRx := by
  rw [pull, if_pos (by rw [hrun, hroom]; rfl)]
  rcases f.cellRx.tryRecv_cases with ⟨c, rest, hq, -⟩ | ⟨-, hopen, -⟩ | ⟨-, -, h⟩
  · rw [hempty] at hq
    cases hq
  · rw [hclosed] at hopen
    cases hopen
  · rw [h]
    exact ⟨rfl, rfl⟩

/-- The slot after the reader has ended sees it. -/
theorem Streaming.lastSlot (h : f.Streaming n 0) {clk : Clock} (hdue : f.nextSlot ≤ clk.now) :
    ((f.arrive ⟨[], true⟩).slot .steep A true ⟨[], true⟩ clk).1.Streamed n := by
  have harr : f.arrive ⟨[], true⟩ = { f with cellRx := f.cellRx.dropSenders } := by
    rw [FlowSlot.arrive, if_pos h.senders, if_pos rfl, Chan.offer_nil]
  have hsteady : (f.arrive ⟨[], true⟩).Steady := (h.steady.arrive _).1
  have hdue' : (f.arrive ⟨[], true⟩).nextSlot ≤ clk.now := (h.steady.arrive _).2.2.trans_le hdue
  obtain ⟨p, clkp, hpull, hpulled, -, hfired⟩ :=
    slot_spec (F := .steep) (A := A) hsteady hdue' true ⟨[], true⟩
  have hagain : (f.arrive ⟨[], true⟩).arrive ⟨[], true⟩ = f.arrive ⟨[], true⟩ :=
    arrive_of_closed (by rw [harr]; rfl) _
  have hempty : f.cellRx.queue = [] := List.length_eq_zero_iff.mp h.unread
  obtain ⟨hdone, hcell⟩ := pull_eof (f := f.arrive ⟨[], true⟩) (by rw [harr]; exact h.running)
    (by rw [harr]; exact h.room) (by rw [harr]; exact hempty) (by rw [harr]; rfl) clk.later
  rw [hagain] at hpull
  rw [hpull] at hdone hcell
  rw [harr] at hcell
  have hend := hsteady.slot (F := .steep) (A := A) hdue' true ⟨[], true⟩
  generalize (f.arrive ⟨[], true⟩).slot .steep A true ⟨[], true⟩ clk = r at *
  obtain ⟨f', clk'⟩ := r
  have hsent : p.cellRx.sent = List.replicate n fullSend.encode := by
    rw [hcell]
    exact h.sent
  have hclosed : p.cellRx.senders = false := by
    rw [hcell]
    rfl
  have hdone' : p.readerDone = true := hdone
  cases hfired with
  | waits => exact ⟨hend, hsent, hclosed, hdone'⟩
  | emits => exact ⟨hend, hsent, hclosed, hdone'⟩

theorem Streaming.close (h : f.Streaming n 0) (hpend : f.pending = []) :
    (f.serviceFlow .steep A (Service.callAt f.nextSlot ⟨[], true⟩)).2.Streamed n := by
  have hopen :
      decide (f.realHoldUntil ≤ (Service.callAt f.nextSlot ⟨[], true⟩).clock.now) = true := by
    rw [h.hold]
    exact decide_eq_true (Nat.zero_le _)
  have hroom : f.pending.length < pendingCap := by
    rw [hpend]
    decide
  refine serviceFlow_due (P := fun g => g.Streamed n) h.started hroom (Nat.le_refl _) ?_
    (fun g clk i hg hdue => hg.slot hdue _ _) ?_
  · intro clk hdue
    rw [hopen]
    exact h.lastSlot hdue
  · rintro g w ⟨hsteady, hsent, hsenders, hdone⟩
    have hsteady' := hsteady.flush w
    obtain ⟨pending, wire, hflush⟩ := flush_eq w g
    rw [hflush] at hsteady' ⊢
    exact ⟨hsteady', hsent, hsenders, hdone⟩

end FlowSlot

namespace Service

open FlowSlot
open Connections (steepNew)

/-- Any number of full cells can be sent. -/
theorem run_streaming (n : Nat) :
    ∃ calls s, Machine.run (step .steep .tagOnly) (start (steepFlow 157 .byClass)) calls = some s ∧
      s.kept = true ∧ s.flow.Streaming n 0 ∧ s.flow.pending = [] := by
  refine Machine.exists_run _ (J := fun n _ (s : Service FixedRng) =>
    s.kept = true ∧ s.flow.Streaming n 0 ∧ s.flow.pending = []) ?_ ?_ n
  · rintro n calls s ⟨hkept, hs, hpend⟩
    have hnext := hs.service (A := .tagOnly) hpend
    obtain ⟨hkeeps, hpend'⟩ := kept_of_running (F := .steep) (A := .tagOnly) (f := s.flow)
      (fullCall s.flow.nextSlot) rfl hnext.running
    exact ⟨fullCall s.flow.nextSlot, _, step_of_kept hkept _, hkeeps, hnext, hpend'⟩
  · have hfirst : (Machine.run (step .steep .tagOnly) (start (steepFlow 157 .byClass))
        [callAt 0 .none]).map (fun s => decide (s.kept = true ∧ s.flow.cellRx.sent = [] ∧
          s.flow.cellRx.queue.length = 0 ∧ s.flow.cellRx.senders = true ∧
          s.flow.readerDone = false ∧ s.flow.realHoldUntil = 0 ∧ s.flow.clockStarted = true ∧
          s.flow.queue = [] ∧ s.flow.session.correlator.config = freeClock.1 ∧
          s.flow.session.correlator.rng = freeClock.2.1 ∧
          s.flow.session.correlator.meanIatMs = freeClock.2.2 ∧ s.flow.pending = []))
          = some true := by
      decide +kernel
    obtain ⟨s, hrun, hs⟩ := Option.map_eq_some_iff.mp hfirst
    obtain ⟨hkept, hsent, hunread, hsenders, hrunning, hhold, hstarted, hidle, hconfig, hrng,
      hmean, hpend⟩ := of_decide_eq_true hs
    exact ⟨_, s, hrun, hkept, ⟨(counted_of_run shapedForward_steepNew hrun).steady, hsent,
      hunread, hsenders, hrunning, hhold, hstarted, hidle, hconfig, hrng, hmean⟩, hpend⟩

/-- **A count that has saturated.**  A run that sends 2^56 full cells and ends: its
    count is not the number of bytes sent. -/
theorem count_saturates :
    shapedForward .steep .sumBytes steepNew = some (steepFlow 157 .byClass) ∧
    ∃ calls s, Machine.run (step .steep .tagOnly) (start (steepFlow 157 .byClass)) calls = some s ∧
      s.flow.readerDone = true ∧
      s.flow.cellRx.sent = (List.replicate (2 ^ 56) fullSend).map CellSend.encode ∧
      s.flow.realBytes ≠ (CellSend.stream (List.replicate (2 ^ 56) fullSend)).length := by
  obtain ⟨calls, s, hrun, hkept, hs, hpend⟩ := run_streaming (2 ^ 56)
  have hend := hs.close (A := .tagOnly) hpend
  have hrun' : Machine.run (step .steep .tagOnly) (start (steepFlow 157 .byClass))
      (calls ++ [callAt s.flow.nextSlot ⟨[], true⟩])
        = some ⟨(s.flow.serviceFlow .steep .tagOnly (callAt s.flow.nextSlot ⟨[], true⟩)).2,
          (s.flow.serviceFlow .steep .tagOnly (callAt s.flow.nextSlot ⟨[], true⟩)).1⟩ := by
    rw [Machine.run_append, hrun, Option.bind_some, Machine.run_cons, step_of_kept hkept,
      Option.bind_some]
    rfl
  have hsent :
      (s.flow.serviceFlow .steep .tagOnly (callAt s.flow.nextSlot ⟨[], true⟩)).2.cellRx.sent
        = (List.replicate (2 ^ 56) fullSend).map CellSend.encode := by
    rw [hend.sent, List.map_replicate]
  refine ⟨shapedForward_steepNew, _, _, hrun', hend.done, hsent, ?_⟩
  obtain ⟨hcount, -⟩ := (counted_of_run shapedForward_steepNew hrun').total hend.done hsent
  have htotal := stream_fullSend (2 ^ 56)
  rw [hcount, htotal]
  exact Nat.ne_of_lt (by decide)

end Service

end MixTor
