/-
  MixTor.Transport.FlowClose

  When a flow is dropped, and what it still holds then.

  A flow ends when it is drained and its tail is met, or unconditionally past
  the backstop.  The backstop of a fixed or class floor is counted from the
  start of the session, so it may lie in the past when the reader ends; a flow
  dropped there can still have real cells in the correlator queue, left behind
  by slots that were reserved for dummies.

  `Safe` is the condition under which a call cannot do that: it ends before the
  backstop, or it cannot see the end of the reader, or no real cell waits.
-/

import MixTor.Lib.Machine
import MixTor.Transport.FlowAccounting

namespace MixTor

open Channel
open Crypto (Bytes Aead FrameCipher Blake3)

/-- A flow and whether the emitter still services it. -/
structure Service (ρ : Type) where
  flow : FlowSlot ρ
  kept : Bool

namespace Service

variable {ρ : Type} [RngCore ρ]

def start (flow : FlowSlot ρ) : Service ρ := ⟨flow, true⟩

def step (F : F64) (A : Aead) (s : Service ρ) (call : ServiceCall) : Option (Service ρ) :=
  if s.kept then
    let r := s.flow.serviceFlow F A call
    some ⟨r.2, r.1⟩
  else none

end Service

namespace FlowSlot

variable {ρ : Type}

/-- Every cell that was sent on the channel has been sealed and written. -/
structure AllWritten (flow : FlowSlot ρ) : Prop where
  queue : flow.queue = []
  pending : flow.pending = []
  cells : realCells flow.emitted = flow.cellRx.sent.map Cell.bytes

-- ============================================================================
-- Calls that cannot cut a flow short
-- ============================================================================

/-- The call ends before the backstop: the one already set, or any that could be
    set in this call, at one of its readings and for a byte total that is at
    least the current one. -/
def BeforeBackstop (flow : FlowSlot ρ) (call : ServiceCall) : Prop :=
  if flow.readerDone then ∀ d, flow.finishBy = some d → call.clock.stop < d
  else ∀ n realBytes wireSeq, flow.realBytes ≤ realBytes →
    call.clock.stop < eofBackstop realBytes wireSeq flow.policy flow.thresholds
      flow.sessionStart (call.clock.after n)

/-- The call cannot see the end of the reader. -/
def ReaderAlive (flow : FlowSlot ρ) (call : ServiceCall) : Prop :=
  flow.readerDone = false ∧ flow.cellRx.senders = true ∧ ∀ i, (call.arrivals i).close = false

/-- No real cell waits before the call or arrives in it. -/
def NothingWaiting (flow : FlowSlot ρ) (call : ServiceCall) : Prop :=
  flow.queue = [] ∧ flow.cellRx.queue = [] ∧ ∀ i, (call.arrivals i).cells = []

/-- The call cannot close the flow over waiting cells. -/
def Safe (flow : FlowSlot ρ) (call : ServiceCall) : Prop :=
  flow.BeforeBackstop call ∨ flow.ReaderAlive call ∨ flow.NothingWaiting call

-- ============================================================================
-- What a call knows about the end of the reader
-- ============================================================================

/-- The byte count is a u64, and the end of the reader is only seen on an empty
    channel whose senders are gone. -/
structure ReaderState (flow : FlowSlot ρ) : Prop where
  realBytes_lt : flow.realBytes ≤ 2 ^ 64 - 1
  closed : flow.readerDone = true → flow.cellRx.queue = [] ∧ flow.cellRx.senders = false

/-- `f` is `flow` at some point of the first half of `call`. -/
structure Within (A : Aead) (cipher₀ : FrameCipher) (call : ServiceCall) (flow f : FlowSlot ρ) :
    Prop where
  accounted : f.Accounted A cipher₀
  reader : f.ReaderState
  policy : f.policy = flow.policy
  thresholds : f.thresholds = flow.thresholds
  sessionStart : f.sessionStart = flow.sessionStart
  realBytes : flow.realBytes ≤ f.realBytes
  /-- The backstop was there before the call, or was set in it. -/
  finishBy : f.readerDone = true →
    (flow.readerDone = true ∧ f.finishBy = flow.finishBy) ∨
      (flow.readerDone = false ∧ ∃ n realBytes wireSeq, flow.realBytes ≤ realBytes ∧
        f.finishBy = some (eofBackstop realBytes wireSeq flow.policy flow.thresholds
          flow.sessionStart (call.clock.after n)))
  running : f.readerDone = false → flow.readerDone = false
  alive : flow.ReaderAlive call → f.readerDone = false ∧ f.cellRx.senders = true
  nothing : flow.NothingWaiting call → f.queue = [] ∧ f.cellRx.queue = []

variable {A : Aead} {cipher₀ : FrameCipher} {call : ServiceCall} {flow f : FlowSlot ρ}

theorem within_self (hacc : flow.Accounted A cipher₀) (hreader : flow.ReaderState) :
    flow.Within A cipher₀ call flow where
  accounted := hacc
  reader := hreader
  policy := rfl
  thresholds := rfl
  sessionStart := rfl
  realBytes := le_rfl
  finishBy h := .inl ⟨h, rfl⟩
  running h := h
  alive h := ⟨h.1, h.2.1⟩
  nothing h := ⟨h.1, h.2.1⟩

theorem arrive_within (i : Nat) (h : flow.Within A cipher₀ call f) :
    flow.Within A cipher₀ call (f.arrive (call.arrivals i)) := by
  have hacc := arrive_accounted (call.arrivals i) h.accounted
  rw [arrive] at hacc ⊢
  split
  · next hs =>
    rw [if_pos hs] at hacc
    refine ⟨hacc, ⟨h.reader.realBytes_lt, ?_⟩, h.policy, h.thresholds, h.sessionStart,
      h.realBytes, h.finishBy, h.running, ?_, ?_⟩
    · -- the reader has not ended while a sender is there
      intro hdone
      have hsend := (h.reader.closed hdone).2
      rw [hs] at hsend
      cases hsend
    · intro hal
      have hclose := hal.2.2 i
      exact ⟨(h.alive hal).1, by simp [hclose, hs]⟩
    · intro hno
      have hcells := hno.2.2 i
      refine ⟨(h.nothing hno).1, ?_⟩
      have hq := (h.nothing hno).2
      split <;> simp [hcells, hq]
  · exact h

theorem pulled_within {n : Nat} {f' : FlowSlot ρ} {clk' : Clock}
    (h : flow.Within A cipher₀ call f) (hp : Pulled f (call.clock.after n) f' clk') :
    flow.Within A cipher₀ call f' := by
  have hacc := pulled_accounted h.accounted hp
  cases hp with
  | idle => exact h
  | cell c rest session' unread running fixed same queued =>
      have hle := h.realBytes
      have hlt := h.reader.realBytes_lt
      refine ⟨hacc, ⟨Nat.min_le_right _ _, ?_⟩, h.policy, h.thresholds, h.sessionStart, ?_, ?_,
        h.running, ?_, ?_⟩
      · intro hdone
        rw [show f.readerDone = true from hdone] at running
        cases running
      · show flow.realBytes ≤ min _ _
        omega
      · intro hdone
        rw [show f.readerDone = true from hdone] at running
        cases running
      · intro hal
        exact ⟨running, by simp [(h.alive hal).2]⟩
      · intro hno
        rw [(h.nothing hno).2] at unread
        cases unread
  | eof tail m unread closed running _ =>
      refine ⟨hacc, ⟨h.reader.realBytes_lt, fun _ => ⟨unread, closed⟩⟩, h.policy, h.thresholds,
        h.sessionStart, h.realBytes, fun _ => .inr ⟨h.running running, n, f.realBytes, f.wireSeq,
          h.realBytes, ?_⟩, nofun, ?_, h.nothing⟩
      · rw [← h.policy, ← h.thresholds, ← h.sessionStart]
      · intro hal
        rw [(h.alive hal).2] at closed
        cases closed

theorem fired_within [RngCore ρ] {F : F64} {n : Nat} {f' : FlowSlot ρ} {clk' : Clock}
    (h : flow.Within A cipher₀ call f) (hf : Fired F A f (call.clock.after n) f' clk') :
    flow.Within A cipher₀ call f' := by
  have hacc := fired_accounted h.accounted hf
  cases hf with
  | waits _ => exact h
  | emits frame session' due fixed size took _ _ _ _ =>
      refine ⟨hacc, ⟨h.reader.realBytes_lt, h.reader.closed⟩, h.policy, h.thresholds,
        h.sessionStart, h.realBytes, h.finishBy, h.running, h.alive, ?_⟩
      intro hno
      refine ⟨?_, (h.nothing hno).2⟩
      have hq : f.session.correlator.realQueue = [] := (h.nothing hno).1
      cases took with
      | real p _ head =>
          rw [hq] at head
          cases head
      | dummy b _ same => exact same.trans hq

theorem startClock_within [RngCore ρ] {F : F64} (h : flow.Within A cipher₀ call f) :
    flow.Within A cipher₀ call (f.startClock F call.clock).1 := by
  have hacc : (f.startClock F call.clock).1.Accounted A cipher₀ :=
    startClock_accounted call.clock h.accounted
  rw [startClock] at hacc ⊢
  split
  · exact h
  · next hs =>
    rw [if_neg hs] at hacc
    exact ⟨hacc, ⟨h.reader.realBytes_lt, h.reader.closed⟩, h.policy, h.thresholds,
      h.sessionStart, h.realBytes, h.finishBy, h.running, h.alive, h.nothing⟩

-- ============================================================================
-- Closing a flow whose peer keeps reading
-- ============================================================================

/-- A flush only moves bytes from `pending` to the wire. -/
theorem flush_eq (w : Nat → TryWrite) (f : FlowSlot ρ) :
    ∃ pending wire, (f.flush w).2 = { f with pending, wire } := by
  rw [flush]
  split
  · exact ⟨_, _, rfl⟩
  · split <;> exact ⟨_, _, rfl⟩

/-- A peer that takes everything leaves nothing pending. -/
theorem flush_ok (f : FlowSlot ρ) :
    (f.flush .ok).1 = true ∧ (f.flush .ok).2.pending = [] ∧ (f.flush .ok).2.queue = f.queue ∧
      (f.flush .ok).2.cellRx = f.cellRx ∧ (f.flush .ok).2.readerDone = f.readerDone ∧
      (f.flush .ok).2.finishBy = f.finishBy := by
  rw [flush]
  split
  · next hemp => exact ⟨rfl, hemp, rfl, rfl, rfl, rfl⟩
  · next hne =>
    obtain ⟨b, bs, hb⟩ := List.exists_cons_of_ne_nil hne
    have hlen : f.pending.length = bs.length + 1 := by rw [hb, List.length_cons]
    rw [hlen]
    refine ⟨rfl, ?_, rfl, rfl, rfl, rfl⟩
    show f.pending.drop (bs.length + 1) = []
    rw [← hlen, List.drop_length]

/-- A finished flow is drained or past its backstop. -/
theorem finished_eq_true {clk : Clock} (h : f.finished clk = true) :
    f.readerDone = true ∧
      (f.queue = [] ∧ f.pending = [] ∨ ∃ d, f.finishBy = some d ∧ d ≤ clk.stop) := by
  rw [finished] at h
  split at h
  · next hdone =>
    refine ⟨hdone, ?_⟩
    simp only [Bool.or_eq_true, Bool.and_eq_true] at h
    rcases h with ⟨⟨hq, hpend⟩, -⟩ | hpast
    · left
      have hlen : f.session.correlator.realQueue.length = 0 := by
        simpa [ShapedSession.queueDepth, TimingCorrelator.queueDepth] using hq
      exact ⟨List.length_eq_zero_iff.mp hlen, List.isEmpty_iff.mp hpend⟩
    · right
      cases hfb : f.finishBy with
      | none =>
          rw [hfb] at hpast
          cases hpast
      | some d =>
          rw [hfb] at hpast
          refine ⟨d, rfl, (of_decide_eq_true hpast).trans ?_⟩
          split
          · exact clk.now_le_stop
          · exact clk.later.now_le_stop
  · cases h

/-- Inside a safe call, a flow whose reader has ended and which is past its
    backstop holds no real cell. -/
theorem within_queue_nil (hsafe : flow.Safe call) (h : flow.Within A cipher₀ call f)
    (hdone : f.readerDone = true) {d : Instant} (hfb : f.finishBy = some d)
    (hpast : d ≤ call.clock.stop) : f.queue = [] := by
  rcases hsafe with hbefore | halive | hnothing
  · exfalso
    rw [BeforeBackstop] at hbefore
    rcases h.finishBy hdone with ⟨hflow, heq⟩ | ⟨hflow, n, realBytes, wireSeq, hle, heq⟩
    · rw [if_pos hflow] at hbefore
      exact absurd (hbefore d (heq ▸ hfb)) (not_lt.mpr hpast)
    · rw [if_neg (by simp [hflow])] at hbefore
      have hlt := hbefore n realBytes wireSeq hle
      rw [heq] at hfb
      obtain rfl := Option.some.inj hfb
      exact absurd hlt (not_lt.mpr hpast)
  · rw [(h.alive halive).1] at hdone
    cases hdone
  · exact (h.nothing hnothing).1

variable [RngCore ρ] {F : F64}

/-- What the first half of a call leaves. -/
theorem emit_within (call : ServiceCall) (hacc : flow.Accounted A cipher₀)
    (hreader : flow.ReaderState) :
    flow.Within A cipher₀ call (flow.emit F A call).1 ∧
      ∃ n, (flow.emit F A call).2 = call.clock.after n :=
  emit_invariant call (fun _ h => h.accounted.steady) (fun _ i h => arrive_within i h)
    (fun _ h => startClock_within h) (fun _ _ _ _ h hp => pulled_within h hp)
    (fun _ _ _ _ h hf => fired_within h hf) (within_self hacc hreader)

/-- A call keeps what is known about the end of the reader. -/
theorem serviceFlow_readerState (call : ServiceCall) (hacc : flow.Accounted A cipher₀)
    (hreader : flow.ReaderState) : (flow.serviceFlow F A call).2.ReaderState := by
  obtain ⟨hwithin, -⟩ := emit_within (F := F) call hacc hreader
  obtain ⟨pending, wire, hflush⟩ := flush_eq call.tryWrite (flow.emit F A call).1
  rw [serviceFlow_snd, hflush]
  exact ⟨hwithin.reader.realBytes_lt, hwithin.reader.closed⟩

/-- A safe call to a draining peer drops the flow only when every cell is written. -/
theorem serviceFlow_allWritten (hacc : flow.Accounted A cipher₀) (hreader : flow.ReaderState)
    (hdrain : call.tryWrite = .ok) (hsafe : flow.Safe call) :
    (flow.serviceFlow F A call).2.ReaderState ∧
      ((flow.serviceFlow F A call).1 = false → (flow.serviceFlow F A call).2.AllWritten) := by
  obtain ⟨hwithin, n, hclk⟩ := emit_within (F := F) call hacc hreader
  have hacc' := serviceFlow_accounted (F := F) call hacc
  have hstate := serviceFlow_readerState (F := F) call hacc hreader
  rw [serviceFlow_snd, hdrain] at hacc' hstate ⊢
  have hres : (flow.serviceFlow F A call).1
      = !((flow.emit F A call).1.flush .ok).2.finished (flow.emit F A call).2 := by
    rw [serviceFlow, hdrain, if_pos (flush_ok _).1]
  rw [hres]
  generalize (flow.emit F A call).1 = f at *
  obtain ⟨-, hpend, hqueue, hrx, hdone, hfb⟩ := flush_ok f
  refine ⟨hstate, fun hdrop => ?_⟩
  rw [Bool.not_eq_false'] at hdrop
  obtain ⟨hend, hwhy⟩ := finished_eq_true hdrop
  have hq : f.queue = [] := by
    rcases hwhy with ⟨hq, -⟩ | ⟨d, hd, hpast⟩
    · exact hqueue ▸ hq
    · rw [hclk, Clock.after_stop] at hpast
      exact within_queue_nil hsafe hwithin (hdone ▸ hend) (hfb ▸ hd) hpast
  refine ⟨hqueue ▸ hq, hpend, ?_⟩
  have hcells := hacc'.cells
  rw [hqueue, hq, List.map_nil, List.append_nil] at hcells
  rw [hcells, Chan.sent, (hstate.closed hend).1, List.append_nil]

end FlowSlot

namespace Service

open FlowSlot

variable {ρ : Type} [RngCore ρ] {F : F64} {A : Aead}

/-- **Closing keeps every cell.** In a run of a production flow whose peer takes
    everything and whose calls are all safe, the flow is dropped only when every
    cell ever sent on its channel has been written. -/
theorem allWritten_when_dropped (H : Blake3) (clk clk' : Clock) (seed : EphemeralSeed)
    (initialIatMs : Double) (composerRng : ρ) (session : ShapedSession ρ)
    (hnew : ShapedSession.new F H clk seed (shapedCompositionConfig F initialIatMs) composerRng
      = some (.ok (session, clk')))
    (sessionStart : Instant) (policy : TailPolicy) (thresholds : FuzzedClassThresholds)
    (realHoldUntil : Instant) (cipher : FrameCipher) (calls : List ServiceCall)
    (hdrain : ∀ call ∈ calls, call.tryWrite = .ok)
    (hsafe : Machine.Meets (step F A) (fun s call => s.flow.Safe call)
      (start (.registered session sessionStart policy thresholds realHoldUntil cipher)) calls) :
    Machine.Always (step F A) (fun s => s.kept = false → s.flow.AllWritten)
      (start (.registered session sessionStart policy thresholds realHoldUntil cipher)) calls := by
  have hreg := registered_accounted (A := A) hnew sessionStart policy thresholds realHoldUntil
    cipher
  have hinv : ∀ (s : Service ρ) (call : ServiceCall) (t : Service ρ),
      (s.flow.Accounted A cipher ∧ s.flow.ReaderState ∧ (s.kept = false → s.flow.AllWritten)) →
      (s.flow.Safe call ∧ call.tryWrite = .ok) → step F A s call = some t →
      t.flow.Accounted A cipher ∧ t.flow.ReaderState ∧ (t.kept = false → t.flow.AllWritten) := by
    rintro s call t ⟨hacc, hreader, -⟩ ⟨hcall, hok⟩ hstep
    rw [step] at hstep
    split at hstep
    · obtain rfl := Option.some.inj hstep
      exact ⟨serviceFlow_accounted call hacc, serviceFlow_allWritten hacc hreader hok hcall⟩
    · cases hstep
  have hstart : (FlowSlot.registered session sessionStart policy thresholds realHoldUntil
      cipher).ReaderState := ⟨Nat.zero_le _, fun h => absurd h Bool.false_ne_true⟩
  exact (Machine.always_of_meets hinv ⟨hreg, hstart, fun h => absurd h.symm Bool.false_ne_true⟩
    (hsafe.and (Machine.meets_of_mem (fun call hcall _ => hdrain call hcall) _))).mono
      fun _ h => h.2.2

omit [RngCore ρ] in
/-- Without tail cover, a call in which time stands still ends before the backstop. -/
theorem safe_of_off {flow : FlowSlot ρ} {call : ServiceCall} (t : Instant)
    (hstate : (flow.policy, flow.readerDone) = (.off, false))
    (hclk : call.clock = .const t) : flow.Safe call := by
  obtain ⟨hpolicy, hrun⟩ := Prod.mk.inj hstate
  left
  rw [BeforeBackstop, if_neg (by simp [hrun])]
  intro n realBytes wireSeq _
  rw [hpolicy, hclk]
  show t < t + Duration.fromSecs 5
  exact Nat.lt_add_of_pos_right (by decide)

/-- A flow over the generator that draws the word of seed byte `b`. -/
def steepFlow (b : UInt8) (policy : TailPolicy) : FlowSlot FixedRng :=
  .registered (steepSession b) 0 policy ⟨1, 2, 3⟩ 0 (.new (Vector.replicate 32 9))

/-- A call at a fixed time with a draining peer. -/
def callAt (t : Instant) (a : Arrival) : ServiceCall := ⟨.const t, fun _ => a, .ok⟩

/-- The last cell of a reader, and its end. -/
def lastCell : Arrival := ⟨[(encodeRealCell 1 [42] (⟨0⟩ : FixedRng)).1], true⟩

/-- The cell leaves in the first slot, the second sees the end of the reader and
    the flow is dropped. -/
theorem allWritten_when_dropped_two_calls :
    (Machine.run (step .steep .tagOnly) (start (steepFlow 157 .off))
        [callAt 0 lastCell, callAt 120000000 .none]).map (fun s => s.kept) = some false ∧
      Machine.Always (step .steep .tagOnly) (fun s => s.kept = false → s.flow.AllWritten)
        (start (steepFlow 157 .off)) [callAt 0 lastCell, callAt 120000000 .none] := by
  refine ⟨by decide +kernel, allWritten_when_dropped .sumBytes (.const 0) (.const 0)
    ⟨Vector.replicate 32 157⟩ (.finite 5) ⟨0⟩ (steepSession 157) (new_steepSession 157) 0 .off
    ⟨1, 2, 3⟩ 0
    (.new (Vector.replicate 32 9)) _ ?_ ?_⟩
  · intro call hcall
    rcases List.mem_pair.mp hcall with rfl | rfl <;> rfl
  · intro s₁ h₁
    refine ⟨safe_of_off 0 rfl rfl, fun s₂ _ => ⟨safe_of_off 120000000 ?_ rfl, trivial⟩⟩
    have hstate : (step .steep .tagOnly (start (steepFlow 157 .off)) (callAt 0 lastCell)).map
        (fun s => (s.flow.policy, s.flow.readerDone)) = some (.off, false) := by
      decide +kernel
    rw [show step .steep .tagOnly (start (steepFlow 157 .off)) (callAt 0 lastCell) = some s₁
      from h₁] at hstate
    exact Option.some.inj hstate

/-- A session that is ten seconds old, with a floor of 1 ms, so that its backstop
    has passed when the reader ends.  The last cell is pulled in a slot reserved
    for a dummy, and the next slot, reserved too, sees the end of the reader. -/
def lateEofCalls : List ServiceCall :=
  [callAt 0 .none, callAt (Duration.fromMillis 10000) lastCell,
    callAt (Duration.fromMillis 10060) .none]

/-- The flow is dropped with the cell in its queue. -/
theorem dropped_with_cell_queued :
    (Machine.run (step .steep .tagOnly)
        (start (steepFlow 29 (.fixed (Duration.fromMillis 1)))) lateEofCalls).map
      (fun s => (s.kept, s.flow.queue.length, s.flow.cellRx.sent.length,
        (realCells s.flow.emitted).length)) = some (false, 1, 1, 0) ∧
    ¬ Machine.Always (step .steep .tagOnly) (fun s => s.kept = false → s.flow.AllWritten)
      (start (steepFlow 29 (.fixed (Duration.fromMillis 1)))) lateEofCalls := by
  have hrun : (Machine.run (step .steep .tagOnly)
        (start (steepFlow 29 (.fixed (Duration.fromMillis 1)))) lateEofCalls).map
      (fun s => (s.kept, s.flow.queue.length, s.flow.cellRx.sent.length,
        (realCells s.flow.emitted).length)) = some (false, 1, 1, 0) := by
    decide +kernel
  refine ⟨hrun, fun h => ?_⟩
  obtain ⟨s, hs, hstate⟩ := Option.map_eq_some_iff.mp hrun
  obtain ⟨hkept, hrest⟩ := Prod.mk.inj hstate
  have hqueue := ((h.last hs) hkept).queue
  have hlen := (Prod.mk.inj hrest).1
  rw [hqueue] at hlen
  cases hlen

end Service

end MixTor
