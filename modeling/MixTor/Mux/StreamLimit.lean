/-
  MixTor.Mux.StreamLimit

  The process-wide cap on bridge streams (transport.rs).

  Every client wire has its demux, and all of them share the counter
  `GLOBAL_BRIDGE_STREAMS`.  A new stream counts itself with `fetch_add` before it
  looks at what was there, and a stream that is refused takes itself back with
  `fetch_sub`.  The count of a stream that is not refused is held by a
  `BridgeStreamGuard` in the relay task.

  The relay task ends with the first of its two halves, `bridge_stream_writer` and
  `bridge_stream_reader`, and the other one goes on with its half of the bridge
  connection.  So what is counted are relay tasks, and a connection can outlive
  its count.
-/

import MixTor.Mux.MuxTraffic
import MixTor.Mux.StreamStart
import MixTor.Lib.Tally

namespace MixTor

open Channel
open Crypto (Bytes)
open Tally (tally tally_set le_tally)

/-- What is left of the tasks behind one relay. -/
structure RelayTask where
  /-- The relay task runs, and holds its `BridgeStreamGuard`. -/
  guarded : Bool
  /-- `bridge_stream_reader` has ended. -/
  readerEnded : Bool
  deriving DecidableEq, Repr

/-- A client wire at the server. -/
structure ServerWire where
  demux : Demux
  /-- One for each relay of the demux. -/
  tasks : List RelayTask
  /-- The loop has counted a stream that it refuses. -/
  refusing : Bool

structure StreamServer where
  /-- `GLOBAL_BRIDGE_STREAMS`. -/
  counter : Nat
  /-- The counter was decremented at zero. -/
  underflowed : Bool
  wires : List ServerWire

/-- A half of the bridge connection is held: the write half by a writer that is not
    over, or the read half by the reader. -/
def Bridge.Held (b : Bridge) (t : RelayTask) : Prop :=
  b.relay.connected = true ∧ (¬ b.relay.Over ∨ t.readerEnded = false)

instance (r : BridgeRelay) : Decidable r.Over :=
  inferInstanceAs (Decidable (r.phase = .shut ∨ r.phase = .ended))

instance (b : Bridge) (t : RelayTask) : Decidable (b.Held t) :=
  inferInstanceAs (Decidable (b.relay.connected = true ∧ (¬ b.relay.Over ∨ t.readerEnded = false)))

/-- The relay task returns when one of its halves has, or without a connection. -/
def Bridge.Returns (b : Bridge) (t : RelayTask) : Prop :=
  t.guarded = true ∧ (b.relay.Over ∨ b.relay.connected = true ∧ t.readerEnded = true)

/-- The relay is counted, or holds a half of its connection. -/
def Bridge.Live (b : Bridge) (t : RelayTask) : Prop := t.guarded = true ∨ b.Held t

instance (b : Bridge) (t : RelayTask) : Decidable (b.Live t) :=
  inferInstanceAs (Decidable (t.guarded = true ∨ b.Held t))

instance (b : Bridge) (t : RelayTask) : Decidable (b.Returns t) :=
  inferInstanceAs (Decidable (t.guarded = true ∧
    (b.relay.Over ∨ b.relay.connected = true ∧ t.readerEnded = true)))

namespace ServerWire

def new (tail : TailPolicy) (now : Instant) : ServerWire := ⟨.new tail now, [], false⟩

/-- The connections with a half that is held. -/
def held (v : ServerWire) : Nat :=
  tally (fun p => if Bridge.Held p.1 p.2 then 1 else 0) (v.demux.bridges.zip v.tasks)

/-- The relays that are live. -/
def live (v : ServerWire) : Nat :=
  tally (fun p => if Bridge.Live p.1 p.2 then 1 else 0) (v.demux.bridges.zip v.tasks)

/-- The guards that live. -/
def guards (v : ServerWire) : Nat := tally (fun t => t.guarded.toNat) v.tasks

theorem guards_setTask {v : ServerWire} {relay : Nat} {t : RelayTask}
    (ht : v.tasks[relay]? = some t) (t' : RelayTask) :
    guards { v with tasks := v.tasks.set relay t' } + t.guarded.toNat
      = v.guards + t'.guarded.toNat := tally_set ht t'

theorem guards_spawn (v : ServerWire) (demux : Demux) :
    guards { v with demux, tasks := v.tasks ++ [⟨true, false⟩] } = v.guards + 1 :=
  Tally.tally_append

end ServerWire

/-- The loop finds no sender for a cell and room on the wire: it asks the counter. -/
def Demux.Asks (d : Demux) (streamId : UInt16) (data : Bytes) : Prop :=
  data ≠ [] ∧ d.streamMap.lookup streamId = none ∧ d.streamMap.entries.length < maxStreamsPerWire

instance (d : Demux) (streamId : UInt16) (data : Bytes) : Decidable (d.Asks streamId data) :=
  inferInstanceAs (Decidable (data ≠ [] ∧ d.streamMap.lookup streamId = none ∧
    d.streamMap.entries.length < maxStreamsPerWire))

namespace StreamServer

def new : StreamServer := ⟨0, false, []⟩

def held (s : StreamServer) : Nat := tally ServerWire.held s.wires

def live (s : StreamServer) : Nat := tally ServerWire.live s.wires

def fetchAdd (s : StreamServer) : StreamServer := { s with counter := s.counter + 1 }

def fetchSub (s : StreamServer) : StreamServer :=
  { s with counter := s.counter - 1, underflowed := s.underflowed || s.counter == 0 }

def setWire (s : StreamServer) (wire : Nat) (v : ServerWire) : StreamServer :=
  { s with wires := s.wires.set wire v }

inductive Event where
  /-- A client has shaken hands. -/
  | accept (tail : TailPolicy) (now : Instant)
  /-- The demux of a wire reads a real cell. -/
  | cell (wire : Nat) (cell : Cell)
  /-- The demux of a wire takes back the count of a stream it refuses. -/
  | refuses (wire : Nat)
  /-- The uplink of a wire ends. -/
  | wireEnds (wire : Nat)
  /-- A relay moves, or time passes for a wire. -/
  | server (wire : Nat) (e : Demux.Event)
  /-- The reader of a relay ends: its bridge closes, a read fails or nobody takes its
      cells any more. -/
  | readerEnds (wire relay : Nat)
  /-- A relay task returns and drops its guard. -/
  | relayReturns (wire relay : Nat)

def onWire (s : StreamServer) (wire : Nat) (f : ServerWire → Option StreamServer) :
    Option StreamServer :=
  (s.wires[wire]?).bind f

/-- What the tasks of one relay do. -/
def onTask (s : StreamServer) (wire relay : Nat)
    (f : ServerWire → Bridge → RelayTask → Option StreamServer) : Option StreamServer :=
  s.onWire wire fun v => (v.demux.bridges[relay]?).bind fun b => (v.tasks[relay]?).bind (f v b)

/-- The demux of a wire takes a cell. -/
def readCell (s : StreamServer) (wire : Nat) (v : ServerWire) (streamId : UInt16) (data : Bytes) :
    Option StreamServer :=
  (v.demux.readCell streamId data s.counter).map fun demux =>
    if v.demux.Asks streamId data then
      if maxGlobalBridgeStreams ≤ s.counter then
        s.fetchAdd.setWire wire { v with demux, refusing := true }
      else s.fetchAdd.setWire wire { v with demux, tasks := v.tasks ++ [⟨true, false⟩] }
    else s.setWire wire { v with demux }

def step (s : StreamServer) : Event → Option StreamServer
  | .accept tail now => some { s with wires := s.wires ++ [.new tail now] }
  | .cell wire cell =>
      s.onWire wire fun v =>
        if v.refusing then none
        else s.readCell wire v (decodeRealCell cell.bytes).1 (decodeRealCell cell.bytes).2
  | .refuses wire =>
      s.onWire wire fun v =>
        if v.refusing then some (s.fetchSub.setWire wire { v with refusing := false }) else none
  | .wireEnds wire =>
      s.onWire wire fun v =>
        if v.refusing || v.demux.ended then none
        else some (s.setWire wire { v with demux := v.demux.hangUp })
  | .server wire e =>
      s.onWire wire fun v =>
        if e.isLocal then
          (v.demux.step e).map fun demux => s.setWire wire { v with demux }
        else none
  | .readerEnds wire relay =>
      s.onTask wire relay fun v b t =>
        if b.relay.connected then
          some (s.setWire wire { v with tasks := v.tasks.set relay { t with readerEnded := true } })
        else none
  | .relayReturns wire relay =>
      s.onTask wire relay fun v b t =>
        if b.Returns t then
          some (s.fetchSub.setWire wire
            { v with tasks := v.tasks.set relay { t with guarded := false } })
        else none

/-- The cap holds for what it is meant to bound, and the counter never underflows. -/
structure Bounded (s : StreamServer) : Prop where
  held : s.held ≤ maxGlobalBridgeStreams
  counter : s.underflowed = false

/-- No relay task that has returned has left a half of its connection behind. -/
def NoneLeft (s : StreamServer) : Prop :=
  ∀ v ∈ s.wires, ∀ p ∈ v.demux.bridges.zip v.tasks, p.2.guarded = false → ¬ p.1.Held p.2

/-- The counter lets a stream in only while no relay task that has returned has left a
    half of its connection behind. -/
def NoEarlyReturn (s : StreamServer) : Event → Prop
  | .cell wire cell =>
      ∀ v ∈ s.wires[wire]?,
        v.demux.Asks (decodeRealCell cell.bytes).1 (decodeRealCell cell.bytes).2 →
          s.counter < maxGlobalBridgeStreams → s.NoneLeft
  | _ => True

/-- A relay task returns only when neither half of its connection is held any more. -/
def ReturnsLast (s : StreamServer) : Event → Prop
  | .relayReturns wire relay =>
      ∀ v ∈ s.wires[wire]?, ∀ b ∈ v.demux.bridges[relay]?, ∀ t ∈ v.tasks[relay]?, ¬ b.Held t
  | _ => True

variable {s s' : StreamServer}

/-- The steps, case by case. -/
inductive Stepped (s : StreamServer) : Event → StreamServer → Prop where
  | accepts (tail : TailPolicy) (now : Instant) :
      Stepped s (.accept tail now) { s with wires := s.wires ++ [.new tail now] }
  | reads {wire : Nat} {cell : Cell} {v : ServerWire} {demux : Demux} {streamId : UInt16}
      {data : Bytes} (hv : s.wires[wire]? = some v) (hasks : ¬ v.demux.Asks streamId data)
      (hrouted : (v.demux.record streamId data).Routed streamId data s.counter demux) :
      Stepped s (.cell wire cell) (s.setWire wire { v with demux })
  | counts {wire : Nat} {cell : Cell} {v : ServerWire} {demux : Demux} {streamId : UInt16}
      {data : Bytes} (hv : s.wires[wire]? = some v)
      (hcell : decodeRealCell cell.bytes = (streamId, data))
      (hroom : s.counter < maxGlobalBridgeStreams)
      (hasks : v.demux.Asks streamId data)
      (hrouted : (v.demux.record streamId data).Routed streamId data s.counter demux) :
      Stepped s (.cell wire cell)
        (s.fetchAdd.setWire wire { v with demux, tasks := v.tasks ++ [⟨true, false⟩] })
  | refused {wire : Nat} {cell : Cell} {v : ServerWire} {demux : Demux} {streamId : UInt16}
      {data : Bytes} (hv : s.wires[wire]? = some v) (hidle : v.refusing = false)
      (hfull : maxGlobalBridgeStreams ≤ s.counter) (hasks : v.demux.Asks streamId data)
      (hrouted : (v.demux.record streamId data).Routed streamId data s.counter demux) :
      Stepped s (.cell wire cell) (s.fetchAdd.setWire wire { v with demux, refusing := true })
  | refuses {wire : Nat} {v : ServerWire} (hv : s.wires[wire]? = some v)
      (hrefusing : v.refusing = true) :
      Stepped s (.refuses wire) (s.fetchSub.setWire wire { v with refusing := false })
  | wireEnds {wire : Nat} {v : ServerWire} (hv : s.wires[wire]? = some v) :
      Stepped s (.wireEnds wire) (s.setWire wire { v with demux := v.demux.hangUp })
  | server {wire : Nat} {e : Demux.Event} {v : ServerWire} {demux : Demux}
      (hv : s.wires[wire]? = some v) (hlocal : e.isLocal = true)
      (hstep : v.demux.step e = some demux) :
      Stepped s (.server wire e) (s.setWire wire { v with demux })
  | readerEnds {wire relay : Nat} {v : ServerWire} {b : Bridge} {t : RelayTask}
      (hv : s.wires[wire]? = some v) (hb : v.demux.bridges[relay]? = some b)
      (ht : v.tasks[relay]? = some t) :
      Stepped s (.readerEnds wire relay)
        (s.setWire wire { v with tasks := v.tasks.set relay { t with readerEnded := true } })
  | relayReturns {wire relay : Nat} {v : ServerWire} {b : Bridge} {t : RelayTask}
      (hv : s.wires[wire]? = some v) (hb : v.demux.bridges[relay]? = some b)
      (ht : v.tasks[relay]? = some t) (hreturns : b.Returns t) :
      Stepped s (.relayReturns wire relay) (s.fetchSub.setWire wire
        { v with tasks := v.tasks.set relay { t with guarded := false } })

theorem onTask_eq_some {wire relay : Nat}
    {f : ServerWire → Bridge → RelayTask → Option StreamServer}
    (h : s.onTask wire relay f = some s') :
    ∃ v b t, s.wires[wire]? = some v ∧ v.demux.bridges[relay]? = some b ∧
      v.tasks[relay]? = some t ∧ f v b t = some s' := by
  obtain ⟨v, hv, h⟩ := Option.bind_eq_some_iff.mp h
  obtain ⟨b, hb, h⟩ := Option.bind_eq_some_iff.mp h
  obtain ⟨t, ht, h⟩ := Option.bind_eq_some_iff.mp h
  exact ⟨v, b, t, hv, hb, ht, h⟩

theorem step_stepped {e : Event} (h : s.step e = some s') : s.Stepped e s' := by
  cases e with
  | accept tail now =>
      obtain rfl := Option.some.inj h
      exact .accepts tail now
  | cell wire cell =>
      obtain ⟨v, hv, h⟩ := Option.bind_eq_some_iff.mp h
      split at h
      · cases h
      · next hidle =>
        obtain ⟨demux, hread, rfl⟩ := Option.map_eq_some_iff.mp h
        obtain ⟨-, hrouted⟩ := Demux.readCell_eq_some hread
        split
        · next hasks =>
          split
          · next hfull => exact .refused hv (Bool.not_eq_true _ ▸ hidle) hfull hasks hrouted
          · next hroom => exact .counts hv rfl (Nat.lt_of_not_le hroom) hasks hrouted
        · next hasks => exact .reads hv hasks hrouted
  | refuses wire =>
      obtain ⟨v, hv, h⟩ := Option.bind_eq_some_iff.mp h
      split at h
      · next hrefusing =>
        obtain rfl := Option.some.inj h
        exact .refuses hv hrefusing
      · cases h
  | wireEnds wire =>
      obtain ⟨v, hv, h⟩ := Option.bind_eq_some_iff.mp h
      split at h
      · cases h
      · obtain rfl := Option.some.inj h
        exact .wireEnds hv
  | server wire e =>
      obtain ⟨v, hv, h⟩ := Option.bind_eq_some_iff.mp h
      split at h
      · next hlocal =>
        obtain ⟨demux, hstep, rfl⟩ := Option.map_eq_some_iff.mp h
        exact .server hv hlocal hstep
      · cases h
  | readerEnds wire relay =>
      obtain ⟨v, b, t, hv, hb, ht, h⟩ := onTask_eq_some h
      split at h
      · obtain rfl := Option.some.inj h
        exact .readerEnds hv hb ht
      · cases h
  | relayReturns wire relay =>
      obtain ⟨v, b, t, hv, hb, ht, h⟩ := onTask_eq_some h
      split at h
      · next hreturns =>
        obtain rfl := Option.some.inj h
        exact .relayReturns hv hb ht hreturns
      · cases h

-- ============================================================================
-- What is counted
-- ============================================================================

/-- The streams that are counted and refused. -/
def pending (s : StreamServer) : Nat := tally (fun v => v.refusing.toNat) s.wires

/-- The guards that live. -/
def guards (s : StreamServer) : Nat := tally ServerWire.guards s.wires

/-- The counter is the number of guards and of refusals under way. -/
structure Counted (s : StreamServer) : Prop where
  counter : s.counter = s.guards + s.pending
  guards : s.guards ≤ maxGlobalBridgeStreams
  sound : s.underflowed = false

theorem counted_new : new.Counted where
  counter := rfl
  guards := Nat.zero_le _
  sound := rfl

theorem guards_set {wire : Nat} {v : ServerWire} (hv : s.wires[wire]? = some v)
    (v' : ServerWire) : (s.setWire wire v').guards + v.guards = s.guards + v'.guards :=
  tally_set hv v'

theorem pending_set {wire : Nat} {v : ServerWire} (hv : s.wires[wire]? = some v)
    (v' : ServerWire) :
    (s.setWire wire v').pending + v.refusing.toNat = s.pending + v'.refusing.toNat :=
  tally_set hv v'

/-- A change of a wire that counts nothing. -/
theorem Counted.setWire (h : s.Counted) {wire : Nat} {v v' : ServerWire}
    (hv : s.wires[wire]? = some v) (hguards : v'.guards = v.guards)
    (hrefusing : v'.refusing = v.refusing) : (s.setWire wire v').Counted := by
  have hg := guards_set hv v'
  have hp := pending_set hv v'
  rw [hguards] at hg
  rw [hrefusing] at hp
  have hcounter := h.counter
  have hbound := h.guards
  constructor
  · show s.counter = _
    omega
  · omega
  · exact h.sound

/-- A stream is counted, with a guard or for a refusal. -/
theorem Counted.fetchAdd (h : s.Counted) {wire : Nat} {v v' : ServerWire}
    (hv : s.wires[wire]? = some v)
    (hone : v'.guards + v'.refusing.toNat = v.guards + v.refusing.toNat + 1)
    (hcap : v'.guards ≤ v.guards ∨ s.counter < maxGlobalBridgeStreams ∧ v'.guards = v.guards + 1) :
    (s.fetchAdd.setWire wire v').Counted := by
  have hcounter := h.counter
  have hbound := h.guards
  have hg : (s.fetchAdd.setWire wire v').guards + v.guards = s.guards + v'.guards :=
    guards_set hv v'
  have hp : (s.fetchAdd.setWire wire v').pending + v.refusing.toNat
      = s.pending + v'.refusing.toNat := pending_set hv v'
  constructor
  · show s.counter + 1 = _
    omega
  · omega
  · exact h.sound

/-- What was counted is taken back. -/
theorem Counted.fetchSub (h : s.Counted) {wire : Nat} {v v' : ServerWire}
    (hv : s.wires[wire]? = some v)
    (hone : v'.guards + v'.refusing.toNat + 1 = v.guards + v.refusing.toNat)
    (hless : v'.guards ≤ v.guards) : (s.fetchSub.setWire wire v').Counted := by
  have hcounter := h.counter
  have hbound := h.guards
  have hg : (s.fetchSub.setWire wire v').guards + v.guards = s.guards + v'.guards :=
    guards_set hv v'
  have hp : (s.fetchSub.setWire wire v').pending + v.refusing.toNat
      = s.pending + v'.refusing.toNat := pending_set hv v'
  have hpos : s.counter ≠ 0 := by
    have hguards : v.guards ≤ s.guards := le_tally hv
    have hpending : v.refusing.toNat ≤ s.pending := le_tally (f := fun v => v.refusing.toNat) hv
    omega
  constructor
  · show s.counter - 1 = _
    omega
  · omega
  · show (s.underflowed || s.counter == 0) = false
    rw [h.sound, Bool.false_or, beq_eq_false_iff_ne]
    exact hpos

/-- **Whatever the order of the endings**, the counter counts the guards and the
    refusals under way, so it is never decremented at zero. -/
theorem step_counted {e : Event} (h : s.Counted) (hstep : s.step e = some s') : s'.Counted := by
  cases step_stepped hstep with
  | accepts tail now =>
      have hg : tally ServerWire.guards (s.wires ++ [.new tail now]) = s.guards := by
        rw [Tally.tally_append]
        rfl
      have hp : tally (fun v => v.refusing.toNat) (s.wires ++ [.new tail now]) = s.pending := by
        rw [Tally.tally_append]
        rfl
      exact ⟨h.counter.trans (by rw [← hg, ← hp]; rfl), hg.trans_le h.guards, h.sound⟩
  | reads hv | wireEnds hv | server hv => exact h.setWire hv rfl rfl
  | @readerEnds wire relay v b t hv hb ht =>
      have hsame := ServerWire.guards_setTask ht { t with readerEnded := true }
      exact h.setWire hv (Nat.add_right_cancel hsame) rfl
  | @counts wire cell v demux streamId data hv hcell hroom =>
      have hmore := v.guards_spawn demux
      refine h.fetchAdd hv ?_ (.inr ⟨hroom, hmore⟩)
      rw [hmore]
      exact Nat.add_right_comm ..
  | @refused wire cell v demux streamId data hv hidle =>
      refine h.fetchAdd hv ?_ (.inl (Nat.le_refl _))
      show v.guards + 1 = v.guards + v.refusing.toNat + 1
      rw [hidle]
      rfl
  | @refuses wire v hv hrefusing =>
      refine h.fetchSub hv ?_ (Nat.le_refl _)
      show v.guards + 0 + 1 = v.guards + v.refusing.toNat
      rw [hrefusing]
      rfl
  | @relayReturns wire relay v b t hv hb ht hreturns =>
      have hset := ServerWire.guards_setTask ht { t with guarded := false }
      rw [hreturns.1] at hset
      have hless :
          ServerWire.guards { v with tasks := v.tasks.set relay { t with guarded := false } } + 1
            = v.guards := hset
      refine h.fetchSub hv ?_ (by exact Nat.le_of_succ_le (Nat.le_of_eq hless))
      rw [← hless]
      exact Nat.add_right_comm ..

theorem always_counted (events : List Event) : Machine.Always step Counted new events :=
  Machine.always_of_invariant (fun _ _ _ => step_counted) counted_new events

-- ============================================================================
-- What is held
-- ============================================================================

end StreamServer

/-- A cell spawns a relay where it asks the counter and finds room. -/
theorem Demux.routed_spawns {d d' : Demux} {streamId : UInt16} {data : Bytes} {prev : Nat}
    (h : (d.record streamId data).Routed streamId data prev d') :
    d'.bridges.length = d.bridges.length +
      if d.Asks streamId data ∧ prev < maxGlobalBridgeStreams then 1 else 0 := by
  have hlen : ∀ {v : Demux}, v.bridges.map Bridge.standing = d.bridges.map Bridge.standing →
      v.bridges.length = d.bridges.length := fun hst => by simpa using congrArg List.length hst
  have hrec : (d.record streamId data).bridges.map Bridge.standing
      = d.bridges.map Bridge.standing := by rw [record_bridges]
  have hknown : ∀ {i}, (d.record streamId data).streamMap.lookup streamId = some i →
      ¬ d.Asks streamId data := by
    intro i hl hasks
    rw [record_streamMap, hasks.2.1] at hl
    cases hl
  cases h with
  | closes hdata =>
      rw [if_neg fun hasks => hasks.1.1 hdata]
      exact hlen ((standing_closeStream _ _).trans hrec)
  | gone _ hl =>
      rw [if_neg fun hasks => hknown hl hasks.1]
      exact hlen ((standing_closeStream _ _).trans hrec)
  | dangles _ hl | full _ hl =>
      rw [if_neg fun hasks => hknown hl hasks.1]
      exact hlen hrec
  | sends _ hl =>
      rw [if_neg fun hasks => hknown hl hasks.1, modifyRelay, List.length_modify]
      exact hlen hrec
  | wireCap hdata hl hcap =>
      rw [record_streamMap] at hcap
      rw [if_neg fun hasks => Nat.not_lt.mpr hcap hasks.1.2.2]
      exact hlen ((standing_hangUp _).trans hrec)
  | globalCap hdata hl hcap =>
      rw [if_neg fun hasks => Nat.not_lt.mpr hcap hasks.2]
      exact hlen hrec
  | opens hdata hl hwire hglobal =>
      rw [record_streamMap] at hl hwire
      rw [if_pos ⟨⟨hdata, hl, hwire⟩, hglobal⟩, modifyRelay, List.length_modify, openBridge,
        List.length_append, List.length_singleton, record_bridges]

/-- A relay later on: what is over stays over, and a connection stays one. -/
structure Bridge.Later (b b' : Bridge) : Prop where
  ended : b.relay.Over → b'.relay.Over ∧ b'.relay.connected = b.relay.connected
  connected : b.relay.connected = true → b'.relay.connected = true

namespace Bridge

variable {b b' : Bridge}

theorem Later.refl (b : Bridge) : b.Later b := ⟨fun h => ⟨h, rfl⟩, fun h => h⟩

theorem later_of_standing (h : b'.standing = b.standing) : b.Later b' where
  ended hover := ⟨over_of_standing h hover, connected_of_standing h⟩
  connected hconn := (connected_of_standing h).trans hconn

/-- A half that is held later is held now, once the relay is over or connected. -/
theorem Later.held (h : b.Later b') {t t' : RelayTask}
    (hsettled : b.relay.Over ∨ b.relay.connected = true)
    (hread : t'.readerEnded = false → t.readerEnded = false) (hheld : b'.Held t') : b.Held t := by
  obtain ⟨hconn, hhalf⟩ := hheld
  constructor
  · rcases hsettled with hover | hconnected
    · exact (h.ended hover).2 ▸ hconn
    · exact hconnected
  · rcases hhalf with hwriter | hreader
    · exact .inl fun hover => hwriter (h.ended hover).1
    · exact .inr (hread hreader)

end Bridge

/-- What becomes of the tasks of a relay.  If relay tasks return `last`, neither half is
    held then. -/
inductive RelayTask.Moved (last : Prop) (b : Bridge) (t : RelayTask) : RelayTask → Prop where
  | stays : Moved last b t t
  | readerEnds : Moved last b t { t with readerEnded := true }
  | returns (hreturns : b.Returns t) (hlast : last → ¬ b.Held t) :
      Moved last b t { t with guarded := false }

/-- No task starts again. -/
theorem RelayTask.Moved.back {last : Prop} {b : Bridge} {t t' : RelayTask}
    (h : t.Moved last b t') : (t'.readerEnded = false → t.readerEnded = false) ∧
      (t'.guarded = true → t.guarded = true) := by
  cases h with
  | stays => exact ⟨fun hread => hread, fun hcounted => hcounted⟩
  | readerEnds => exact ⟨fun hread => (nomatch hread), fun hcounted => hcounted⟩
  | returns => exact ⟨fun hread => hread, fun hcounted => nomatch hcounted⟩

namespace ServerWire

/-- A wire after a step that has spawned `k` relays. -/
structure Evolved (k : Nat) (last : Prop) (v v' : ServerWire) : Prop where
  bridges : v'.demux.bridges.length = v.demux.bridges.length + k
  tasks : v'.tasks.length = v.tasks.length + k
  old : ∀ {i : Nat} {b b' : Bridge} {t t' : RelayTask}, v.demux.bridges[i]? = some b →
    v'.demux.bridges[i]? = some b' → v.tasks[i]? = some t → v'.tasks[i]? = some t' →
      b.Later b' ∧ t.Moved last b t'
  new : ∀ {i : Nat} {t' : RelayTask}, v.tasks.length ≤ i → v'.tasks[i]? = some t' →
    t'.guarded = true

variable {v v' : ServerWire} {demux : Demux} {k : Nat} {last : Prop}

/-- Only the relays move. -/
theorem evolved_of_later (hlen : demux.bridges.length = v.demux.bridges.length)
    (hlater : ∀ {i : Nat} {b b' : Bridge}, v.demux.bridges[i]? = some b →
      demux.bridges[i]? = some b' → b.Later b') : v.Evolved 0 last { v with demux } where
  bridges := hlen
  tasks := rfl
  old hb hb' ht ht' := by
    obtain rfl := Option.some.inj (ht.symm.trans ht')
    exact ⟨hlater hb hb', .stays⟩
  new hi ht' := absurd (List.getElem?_eq_some_iff.mp ht').1 (Nat.not_lt.mpr hi)

theorem Evolved.refl (v : ServerWire) : v.Evolved 0 last v := by
  apply evolved_of_later rfl
  intro i b b' hb hb'
  obtain rfl := Option.some.inj (hb.symm.trans hb')
  exact .refl b

/-- A relay that a cell finds is as it was. -/
theorem later_of_routed {streamId : UInt16} {data : Bytes} {prev : Nat}
    (hrouted : (v.demux.record streamId data).Routed streamId data prev demux) {i : Nat}
    {b b' : Bridge} (hb : v.demux.bridges[i]? = some b) (hb' : demux.bridges[i]? = some b') :
    b.Later b' := by
  obtain ⟨b₁, hb₁, hst⟩ := Demux.routed_kept hrouted hb
  obtain rfl := Option.some.inj (hb₁.symm.trans hb')
  exact Bridge.later_of_standing hst

/-- A cell that is not counted leaves the relays where they are. -/
theorem evolved_reads {streamId : UInt16} {data : Bytes} {prev : Nat}
    (hrouted : (v.demux.record streamId data).Routed streamId data prev demux)
    (hnone : ¬ (v.demux.Asks streamId data ∧ prev < maxGlobalBridgeStreams)) :
    v.Evolved 0 last { v with demux } := by
  have hlen := Demux.routed_spawns hrouted
  rw [if_neg hnone] at hlen
  exact evolved_of_later hlen (later_of_routed hrouted)

/-- A cell that is counted spawns a relay, whose task holds the guard. -/
theorem evolved_counts {streamId : UInt16} {data : Bytes} {prev : Nat}
    (hrouted : (v.demux.record streamId data).Routed streamId data prev demux)
    (hasks : v.demux.Asks streamId data) (hroom : prev < maxGlobalBridgeStreams) :
    v.Evolved 1 last { v with demux, tasks := v.tasks ++ [⟨true, false⟩] } where
  bridges := by
    have hlen := Demux.routed_spawns hrouted
    rwa [if_pos ⟨hasks, hroom⟩] at hlen
  tasks := List.length_append
  old hb hb' ht ht' := by
    rw [List.getElem?_append_left (List.getElem?_eq_some_iff.mp ht).1] at ht'
    obtain rfl := Option.some.inj (ht.symm.trans ht')
    exact ⟨later_of_routed hrouted hb hb', .stays⟩
  new hi ht' := by
    rw [List.getElem?_append_right hi] at ht'
    rw [List.mem_singleton.mp (List.mem_of_getElem? ht')]

theorem evolved_local {e : Demux.Event} (hlocal : e.isLocal = true)
    (hstep : v.demux.step e = some demux) : v.Evolved 0 last { v with demux } := by
  rcases Demux.local_cases hlocal hstep with ⟨now, rfl⟩ | ⟨i, b₀, r, hb₀, hmoved, rfl⟩
  · exact { Evolved.refl v with }
  · apply evolved_of_later (List.length_modify ..)
    intro j b b' hb hb'
    rcases Keyed.modify_cases hb' with ⟨-, hold⟩ | ⟨rfl, b₁, hb₁, rfl⟩
    · obtain rfl := Option.some.inj (hb.symm.trans hold)
      exact .refl b
    · obtain rfl := Option.some.inj (hb₀.symm.trans hb)
      exact ⟨hmoved.over, hmoved.connected⟩

theorem evolved_hangUp (v : ServerWire) : v.Evolved 0 last { v with demux := v.demux.hangUp } := by
  apply evolved_of_later (List.length_map _)
  intro i b b' hb hb'
  rw [Demux.hangUp, List.getElem?_map, hb] at hb'
  obtain rfl := Option.some.inj hb'
  exact Bridge.later_of_standing rfl

/-- The tasks of one relay move. -/
theorem evolved_task {relay : Nat} {b : Bridge} {t t' : RelayTask}
    (hb : v.demux.bridges[relay]? = some b) (ht : v.tasks[relay]? = some t)
    (hmoved : t.Moved last b t') :
    v.Evolved 0 last { v with tasks := v.tasks.set relay t' } where
  bridges := rfl
  tasks := List.length_set
  old {i b₀ b₀' t₀ t₀'} hb₀ hb₀' ht₀ ht₀' := by
    obtain rfl := Option.some.inj (hb₀.symm.trans hb₀')
    by_cases hi : relay = i
    · subst hi
      obtain rfl := Option.some.inj (hb.symm.trans hb₀)
      obtain rfl := Option.some.inj (ht.symm.trans ht₀)
      rw [List.getElem?_set_self (List.getElem?_eq_some_iff.mp ht).1] at ht₀'
      obtain rfl := Option.some.inj ht₀'
      exact ⟨.refl _, hmoved⟩
    · rw [List.getElem?_set_ne hi] at ht₀'
      obtain rfl := Option.some.inj (ht₀.symm.trans ht₀')
      exact ⟨.refl _, .stays⟩
  new hi ht' := by
    have hlt := (List.getElem?_eq_some_iff.mp ht').1
    rw [List.length_set] at hlt
    exact absurd hlt (Nat.not_lt.mpr hi)

/-- Every relay has its tasks, and `D` holds of those that are no longer counted. -/
structure Manned (D : Bridge → RelayTask → Prop) (v : ServerWire) : Prop where
  tasks : v.tasks.length = v.demux.bridges.length
  uncounted : ∀ {i : Nat} {b : Bridge} {t : RelayTask}, v.demux.bridges[i]? = some b →
    v.tasks[i]? = some t → t.guarded = false → D b t

variable {D : Bridge → RelayTask → Prop}

theorem manned_new (tail : TailPolicy) (now : Instant) : (new tail now).Manned D where
  tasks := rfl
  uncounted hb := nomatch hb

/-- `D` is kept if it holds when a relay task returns, and later on. -/
theorem Manned.evolved (h : v.Manned D) (hev : v.Evolved k last v')
    (hD : ∀ {b b' : Bridge} {t t' : RelayTask}, b.Later b' → t.Moved last b t' →
      (t.guarded = false → D b t) → t'.guarded = false → D b' t') : v'.Manned D where
  tasks := by rw [hev.tasks, hev.bridges, h.tasks]
  uncounted {i b' t'} hb' ht' hguarded := by
    by_cases hi : i < v.tasks.length
    · have hi' : i < v.demux.bridges.length := h.tasks ▸ hi
      have ht := List.getElem?_eq_getElem hi
      have hb := List.getElem?_eq_getElem hi'
      obtain ⟨hlater, hmoved⟩ := hev.old hb hb' ht ht'
      exact hD hlater hmoved (h.uncounted hb ht) hguarded
    · rw [hev.new (Nat.le_of_not_lt hi) ht'] at hguarded
      cases hguarded

/-- A relay task that has returned was connected, or the relay is over. -/
def Settled (b : Bridge) (_t : RelayTask) : Prop := b.relay.Over ∨ b.relay.connected = true

theorem Manned.settled (h : v.Manned Settled) (hev : v.Evolved k last v') : v'.Manned Settled := by
  apply h.evolved hev
  intro b b' t t' hlater hmoved hold hguarded
  have hsettled : b.relay.Over ∨ b.relay.connected = true := by
    cases hmoved with
    | stays | readerEnds => exact hold hguarded
    | returns hreturns => exact hreturns.2.imp_right And.left
  exact hsettled.imp (fun hover => (hlater.ended hover).1) hlater.connected

/-- Neither half is held. -/
def Unheld (b : Bridge) (t : RelayTask) : Prop := Settled b t ∧ ¬ b.Held t

theorem Manned.unheld (h : v.Manned Unheld) (hev : v.Evolved k True v') : v'.Manned Unheld := by
  apply h.evolved hev
  intro b b' t t' hlater hmoved hold hguarded
  have hnow : Settled b t ∧ ¬ b.Held t := by
    cases hmoved with
    | stays | readerEnds => exact hold hguarded
    | returns hreturns hlast => exact ⟨hreturns.2.imp_right And.left, hlast trivial⟩
  exact ⟨hnow.1.imp (fun hover => (hlater.ended hover).1) hlater.connected,
    fun hheld => hnow.2 (hlater.held hnow.1 hmoved.back.1 hheld)⟩

/-- What is live after a step was live before it, or was spawned in it. -/
theorem Manned.live_le (h : v.Manned Settled) (hev : v.Evolved k last v') :
    v'.live ≤ v.live + k := by
  apply Tally.tally_le_add
  · intro p _
    split <;> decide
  · rw [List.length_zip, List.length_zip, hev.tasks, hev.bridges, h.tasks, Nat.min_self,
      Nat.min_self]
  · rintro i ⟨b, t⟩ ⟨b', t'⟩ hp hp'
    obtain ⟨hb, ht⟩ := List.getElem?_zip_eq_some.mp hp
    obtain ⟨hb', ht'⟩ := List.getElem?_zip_eq_some.mp hp'
    obtain ⟨hlater, hmoved⟩ := hev.old hb hb' ht ht'
    have hlive : b'.Live t' → b.Live t := by
      intro hlive
      by_cases hguarded : t.guarded = true
      · exact .inl hguarded
      · have hsettled := h.uncounted hb ht (Bool.not_eq_true _ ▸ hguarded)
        rcases hlive with hcounted | hheld
        · exact absurd (hmoved.back.2 hcounted) hguarded
        · exact .inr (hlater.held hsettled hmoved.back.1 hheld)
    by_cases hnow : b'.Live t'
    · show (if b'.Live t' then 1 else 0) ≤ if b.Live t then 1 else 0
      rw [if_pos hnow, if_pos (hlive hnow)]
    · show (if b'.Live t' then 1 else 0) ≤ _
      rw [if_neg hnow]
      exact Nat.zero_le _

theorem held_le_live (v : ServerWire) : v.held ≤ v.live := by
  apply Tally.tally_mono
  intro p _
  by_cases hheld : Bridge.Held p.1 p.2
  · rw [if_pos hheld, if_pos (show Bridge.Live p.1 p.2 from .inr hheld)]
  · rw [if_neg hheld]
    exact Nat.zero_le _

/-- Where no half is left behind, what is live is counted. -/
theorem live_le_guards
    (hnone : ∀ p ∈ v.demux.bridges.zip v.tasks, p.2.guarded = false → ¬ p.1.Held p.2) :
    v.live ≤ v.guards := by
  apply Tally.tally_zip_le
  rintro ⟨b, t⟩ hp
  cases hguarded : t.guarded with
  | true =>
      split
      · exact Nat.le_refl 1
      · exact Nat.zero_le _
  | false =>
      have hdead : ¬ b.Live t := by
        rintro (hcounted | hheld)
        · rw [hguarded] at hcounted
          cases hcounted
        · exact hnone (b, t) hp hguarded hheld
      rw [if_neg hdead]
      exact Nat.zero_le _

end ServerWire

namespace StreamServer

variable {s s' : StreamServer}

/-- A step adds a wire, or changes one and spawns at most one relay there, which the
    counter has let in. -/
theorem step_evolved (last : Prop) {e : Event} (hstep : s.step e = some s')
    (hlast : last → s.ReturnsLast e) :
    (∃ tail now, s'.wires = s.wires ++ [.new tail now]) ∨
      ∃ (wire k : Nat) (v v' : ServerWire), s.wires[wire]? = some v ∧
        s'.wires = s.wires.set wire v' ∧ v.Evolved k last v' ∧
        (k = 0 ∨ k = 1 ∧ s.counter < maxGlobalBridgeStreams ∧
          (s.NoEarlyReturn e → s.NoneLeft)) := by
  cases step_stepped hstep with
  | accepts tail now => exact .inl ⟨tail, now, rfl⟩
  | @reads wire cell v demux streamId data hv hasks hrouted =>
      have hev : v.Evolved 0 last { v with demux } :=
        ServerWire.evolved_reads hrouted fun hboth => hasks hboth.1
      exact .inr ⟨_, 0, _, _, hv, rfl, hev, .inl rfl⟩
  | @counts wire cell v demux streamId data hv hcell hroom hasks hrouted =>
      have hev : v.Evolved 1 last { v with demux, tasks := v.tasks ++ [⟨true, false⟩] } :=
        ServerWire.evolved_counts hrouted hasks hroom
      refine .inr ⟨_, 1, _, _, hv, rfl, hev, .inr ⟨rfl, hroom, fun hc => ?_⟩⟩
      apply hc _ hv _ hroom
      rw [hcell]
      exact hasks
  | @refused wire cell v demux streamId data hv _ hfull _ hrouted =>
      have hev : v.Evolved 0 last { v with demux } :=
        ServerWire.evolved_reads hrouted fun hboth => Nat.not_lt.mpr hfull hboth.2
      exact .inr ⟨_, 0, _, _, hv, rfl, { hev with }, .inl rfl⟩
  | @refuses wire v hv =>
      have hev : v.Evolved 0 last v := .refl v
      exact .inr ⟨_, 0, _, _, hv, rfl, { hev with }, .inl rfl⟩
  | wireEnds hv => exact .inr ⟨_, 0, _, _, hv, rfl, ServerWire.evolved_hangUp _, .inl rfl⟩
  | server hv hlocal hlocalStep =>
      exact .inr ⟨_, 0, _, _, hv, rfl, ServerWire.evolved_local hlocal hlocalStep, .inl rfl⟩
  | readerEnds hv hb ht =>
      exact .inr ⟨_, 0, _, _, hv, rfl, ServerWire.evolved_task hb ht .readerEnds, .inl rfl⟩
  | @relayReturns wire relay v b t hv hb ht hreturns =>
      have hmoved : t.Moved last b { t with guarded := false } :=
        .returns hreturns fun h => hlast h _ hv _ hb _ ht
      exact .inr ⟨_, 0, _, _, hv, rfl, ServerWire.evolved_task hb ht hmoved, .inl rfl⟩

/-- What a step keeps of every wire. -/
theorem step_manned (last : Prop) {D : Bridge → RelayTask → Prop} {e : Event}
    (hevolved : ∀ {k : Nat} {v v' : ServerWire}, v.Manned D → v.Evolved k last v' → v'.Manned D)
    (h : ∀ v ∈ s.wires, v.Manned D) (hlast : last → s.ReturnsLast e)
    (hstep : s.step e = some s') : ∀ v ∈ s'.wires, v.Manned D := by
  intro v hmem
  rcases step_evolved last hstep hlast with
    ⟨tail, now, hwires⟩ | ⟨wire, k, v₀, v', hv, hwires, hev, -⟩
  · rw [hwires] at hmem
    rcases List.mem_append.mp hmem with hold | hnew
    · exact h v hold
    · rw [List.mem_singleton.mp hnew]
      exact ServerWire.manned_new tail now
  · rw [hwires] at hmem
    rcases List.mem_or_eq_of_mem_set hmem with hold | rfl
    · exact h v hold
    · exact hevolved (h v₀ (List.mem_of_getElem? hv)) hev

/-- Where no half is left behind, the counter covers what is live. -/
theorem NoneLeft.live_le_counter (h : s.NoneLeft) (hcounted : s.Counted) :
    s.live ≤ s.counter := by
  calc s.live
    _ ≤ s.guards := Tally.tally_mono fun v hv => v.live_le_guards (h v hv)
    _ ≤ s.guards + s.pending := Nat.le_add_right _ _
    _ = s.counter := hcounted.counter.symm

/-- What is live stays within the cap. -/
theorem step_live {e : Event} (h : s.live ≤ maxGlobalBridgeStreams) (hcounted : s.Counted)
    (hmanned : ∀ v ∈ s.wires, v.Manned ServerWire.Settled) (hc : s.NoEarlyReturn e)
    (hstep : s.step e = some s') : s'.live ≤ maxGlobalBridgeStreams := by
  rcases step_evolved False hstep False.elim with
    ⟨tail, now, hwires⟩ | ⟨wire, k, v, v', hv, hwires, hev, hk⟩
  · rw [live, hwires, Tally.tally_append]
    exact h
  · have hset := tally_set (f := ServerWire.live) hv v'
    rw [← hwires] at hset
    have hle := (hmanned v (List.mem_of_getElem? hv)).live_le hev
    have hroom : s.live + k ≤ maxGlobalBridgeStreams := by
      rcases hk with rfl | ⟨rfl, hcounter, hnone⟩
      · exact h
      · exact ((hnone hc).live_le_counter hcounted).trans_lt hcounter
    rw [live] at hroom ⊢
    omega

/-- What holds as long as no stream is let in over a half that was left behind. -/
structure Roomy (s : StreamServer) : Prop where
  counted : s.Counted
  live : s.live ≤ maxGlobalBridgeStreams
  manned : ∀ v ∈ s.wires, v.Manned ServerWire.Settled

theorem roomy_new : new.Roomy where
  counted := counted_new
  live := Nat.zero_le _
  manned _ hmem := absurd hmem List.not_mem_nil

theorem step_roomy {e : Event} (h : s.Roomy) (hc : s.NoEarlyReturn e)
    (hstep : s.step e = some s') : s'.Roomy where
  counted := step_counted h.counted hstep
  live := step_live h.live h.counted h.manned hc hstep
  manned := step_manned False ServerWire.Manned.settled h.manned False.elim hstep

/-- **The counter bounds the connections as long as no stream is let in over a half that
    a relay task has left behind.**  Any number of wires and streams, any order of their
    endings. -/
theorem bounded_of_noEarlyReturn (events : List Event)
    (hc : Machine.Meets step NoEarlyReturn new events) :
    Machine.Always step Bounded new events := by
  apply (Machine.always_of_meets (fun _ _ _ h hc hstep => step_roomy h hc hstep) roomy_new hc).mono
  rintro s ⟨hcounted, hlive, -⟩
  have hheld : s.held ≤ s.live := Tally.tally_mono fun v _ => v.held_le_live
  exact ⟨hheld.trans hlive, hcounted.sound⟩

/-- Relay tasks that return last leave no half behind. -/
theorem noneLeft_of_manned (h : ∀ v ∈ s.wires, v.Manned ServerWire.Unheld) : s.NoneLeft := by
  rintro v hv p hp hguarded
  obtain ⟨i, hi⟩ := List.getElem?_of_mem hp
  obtain ⟨hb, ht⟩ := List.getElem?_zip_eq_some.mp hi
  exact ((h v hv).uncounted hb ht hguarded).2

/-- **The counter alone would do if relay tasks returned last.** -/
theorem noEarlyReturn_of_returnsLast (events : List Event)
    (hlast : Machine.Meets step ReturnsLast new events) :
    Machine.Meets step NoEarlyReturn new events := by
  apply hlast.imp_of_invariant (I := fun s => ∀ v ∈ s.wires, v.Manned ServerWire.Unheld)
  · exact fun s e s' h hc hstep =>
      step_manned True ServerWire.Manned.unheld h (fun _ => hc) hstep
  · intro s e hmanned _
    cases e with
    | cell wire cell => exact fun _ _ _ _ => noneLeft_of_manned hmanned
    | accept | refuses | wireEnds | server | readerEnds | relayReturns => trivial
  · exact fun _ hmem => absurd hmem List.not_mem_nil

instance (s : StreamServer) : Decidable s.NoneLeft :=
  inferInstanceAs (Decidable (∀ v ∈ s.wires, ∀ p ∈ v.demux.bridges.zip v.tasks,
    p.2.guarded = false → ¬ p.1.Held p.2))

instance (s : StreamServer) : DecidablePred s.NoEarlyReturn
  | .cell wire cell => inferInstanceAs (Decidable (∀ v ∈ s.wires[wire]?,
      v.demux.Asks (decodeRealCell cell.bytes).1 (decodeRealCell cell.bytes).2 →
        s.counter < maxGlobalBridgeStreams → s.NoneLeft))
  | .accept .. | .refuses .. | .wireEnds .. | .server .. | .readerEnds .. | .relayReturns .. =>
      isTrue trivial

/-- A client sends one cell and leaves.  The writer shuts its half down, the relay task
    returns, and the reader waits for the bridge. -/
def clientLeaves : List Event :=
  [.accept .off 0, .cell 0 (Demux.dataCell 7), .server 0 (.poll 0), .server 0 (.poll 0),
    .wireEnds 0, .server 0 (.poll 0), .server 0 (.poll 0), .relayReturns 0 0]

/-- The bridge has closed too when the next client sends its cell. -/
def nextClient : List Event :=
  clientLeaves ++ [.readerEnds 0 0, .accept .off 0, .cell 1 (Demux.dataCell 7)]

theorem bounded_of_noEarlyReturn_next_client :
    (Machine.run step new nextClient).map (fun s => (s.counter, s.held)) = some (1, 0) ∧
      Machine.Always step Bounded new nextClient :=
  ⟨by decide +kernel, bounded_of_noEarlyReturn nextClient (by decide +kernel)⟩

-- ============================================================================
-- What the counter forgets
-- ============================================================================

/-- The same at wires that came `n` later. -/
def Event.shift (n : Nat) : Event → Event
  | .accept tail now => .accept tail now
  | .cell wire c => .cell (n + wire) c
  | .refuses wire => .refuses (n + wire)
  | .wireEnds wire => .wireEnds (n + wire)
  | .server wire e => .server (n + wire) e
  | .readerEnds wire relay => .readerEnds (n + wire) relay
  | .relayReturns wire relay => .relayReturns (n + wire) relay

/-- The wires `ws` came first. -/
def behind (ws : List ServerWire) (s : StreamServer) : StreamServer :=
  { s with wires := ws ++ s.wires }

theorem setWire_behind (ws : List ServerWire) (s : StreamServer) (wire : Nat) (v : ServerWire) :
    (s.behind ws).setWire (ws.length + wire) v = (s.setWire wire v).behind ws := by
  show StreamServer.mk _ _ ((ws ++ s.wires).set (ws.length + wire) v) = _
  rw [List.set_append_right _ _ (Nat.le_add_right ..), Nat.add_sub_cancel_left]
  rfl

theorem onWire_behind {ws : List ServerWire} {wire : Nat} {f g : ServerWire → Option StreamServer}
    (hfg : ∀ v, g v = (f v).map (behind ws)) :
    (s.behind ws).onWire (ws.length + wire) g = (s.onWire wire f).map (behind ws) := by
  have hget : (s.behind ws).wires[ws.length + wire]? = s.wires[wire]? := by
    show (ws ++ s.wires)[ws.length + wire]? = _
    rw [List.getElem?_append_right (Nat.le_add_right ..), Nat.add_sub_cancel_left]
  rw [onWire, onWire, hget]
  cases s.wires[wire]? with
  | none => rfl
  | some v => exact hfg v

theorem onTask_behind {ws : List ServerWire} {wire relay : Nat}
    {f g : ServerWire → Bridge → RelayTask → Option StreamServer}
    (hfg : ∀ v b t, g v b t = (f v b t).map (behind ws)) :
    (s.behind ws).onTask (ws.length + wire) relay g = (s.onTask wire relay f).map (behind ws) := by
  apply onWire_behind
  intro v
  cases v.demux.bridges[relay]? with
  | none => rfl
  | some b =>
      cases v.tasks[relay]? with
      | none => rfl
      | some t => exact hfg v b t

theorem readCell_behind (ws : List ServerWire) (s : StreamServer) (wire : Nat) (v : ServerWire)
    (streamId : UInt16) (data : Bytes) :
    (s.behind ws).readCell (ws.length + wire) v streamId data
      = (s.readCell wire v streamId data).map (behind ws) := by
  rw [readCell, readCell, Option.map_map]
  congr 1
  funext demux
  show ite _ _ _ = behind ws (ite _ _ _)
  by_cases hasks : v.demux.Asks streamId data
  · rw [if_pos hasks, if_pos hasks]
    by_cases hfull : maxGlobalBridgeStreams ≤ s.counter
    · rw [if_pos hfull, if_pos (by exact hfull)]
      exact setWire_behind ws s.fetchAdd wire _
    · rw [if_neg hfull, if_neg (by exact hfull)]
      exact setWire_behind ws s.fetchAdd wire _
  · rw [if_neg hasks, if_neg hasks]
    exact setWire_behind ws s wire _

/-- Wires do not meet but in the counter. -/
theorem step_behind (ws : List ServerWire) (s : StreamServer) (e : Event) :
    (s.behind ws).step (e.shift ws.length) = (s.step e).map (behind ws) := by
  cases e with
  | accept tail now =>
      show some (StreamServer.mk _ _ ((ws ++ s.wires) ++ [_])) = some _
      rw [List.append_assoc]
      rfl
  | cell wire cell =>
      apply onWire_behind
      intro v
      split
      · rfl
      · exact readCell_behind ws s wire v _ _
  | refuses wire =>
      apply onWire_behind
      intro v
      split
      · exact congrArg some (setWire_behind ws s.fetchSub wire _)
      · rfl
  | wireEnds wire =>
      apply onWire_behind
      intro v
      split
      · rfl
      · exact congrArg some (setWire_behind ws s wire _)
  | server wire e =>
      apply onWire_behind
      intro v
      split
      · rw [Option.map_map]
        congr 1
        funext demux
        exact setWire_behind ws s wire _
      · rfl
  | readerEnds wire relay =>
      apply onTask_behind
      intro v b t
      split
      · exact congrArg some (setWire_behind ws s wire _)
      · rfl
  | relayReturns wire relay =>
      apply onTask_behind
      intro v b t
      split
      · exact congrArg some (setWire_behind ws s.fetchSub wire _)
      · rfl

theorem run_behind (ws : List ServerWire) (events : List Event) (s : StreamServer) :
    Machine.run step (s.behind ws) (events.map (Event.shift ws.length))
      = (Machine.run step s events).map (behind ws) := by
  induction events generalizing s with
  | nil => rfl
  | cons e events ih =>
      rw [List.map_cons, Machine.run_cons, Machine.run_cons, step_behind]
      cases s.step e with
      | none => rfl
      | some s' => exact ih s'

/-- One client after the other. -/
def clientsLeave (n : Nat) : List Event :=
  (List.range n).flatMap fun i => clientLeaves.map (Event.shift i)

/-- What a client leaves behind is held, and not counted. -/
theorem run_clientLeaves : ∃ v, Machine.run step new clientLeaves = some ⟨0, false, [v]⟩ ∧
    v.held = 1 := by
  have hends : (Machine.run step new clientLeaves).map
      (fun s => (s.counter, s.underflowed, s.wires.map ServerWire.held))
        = some (0, false, [1]) := by
    decide +kernel
  obtain ⟨s, hrun, hstate⟩ := Option.map_eq_some_iff.mp hends
  obtain ⟨hcounter, hrest⟩ := Prod.mk.inj hstate
  obtain ⟨hsound, hwires⟩ := Prod.mk.inj hrest
  obtain ⟨v, hv, hheld⟩ := List.map_eq_singleton_iff.mp hwires
  refine ⟨v, hrun.trans (congrArg some ?_), hheld⟩
  calc s = ⟨s.counter, s.underflowed, s.wires⟩ := rfl
    _ = ⟨0, false, [v]⟩ := by rw [hcounter, hsound, hv]

theorem run_clientsLeave {v : ServerWire}
    (hv : Machine.run step new clientLeaves = some ⟨0, false, [v]⟩) (n : Nat) :
    Machine.run step new (clientsLeave n) = some ⟨0, false, List.replicate n v⟩ := by
  induction n with
  | zero => rfl
  | succ n ih =>
      have hnext := run_behind (List.replicate n v) clientLeaves new
      rw [List.length_replicate, hv] at hnext
      have hstart : new.behind (List.replicate n v) = ⟨0, false, List.replicate n v⟩ := by
        rw [behind, new, List.append_nil]
      rw [clientsLeave, List.range_succ, List.flatMap_append, Machine.run_append, ← clientsLeave,
        ih]
      rw [hstart] at hnext
      rw [List.flatMap_singleton, Option.bind_some, hnext, Option.map_some, behind,
        List.replicate_succ']

/-- As many connections as clients are held, with the counter at zero. -/
theorem held_clientsLeave (n : Nat) :
    ∃ s, Machine.run step new (clientsLeave n) = some s ∧ s.counter = 0 ∧ s.held = n := by
  obtain ⟨v, hv, hheld⟩ := run_clientLeaves
  refine ⟨_, run_clientsLeave hv n, rfl, ?_⟩
  show tally ServerWire.held (List.replicate n v) = n
  rw [Tally.tally_replicate, hheld, Nat.mul_one]

theorem not_bounded_clientsLeave {n : Nat} (hn : maxGlobalBridgeStreams < n) :
    ¬ Machine.Always step Bounded new (clientsLeave n) := by
  intro h
  obtain ⟨s, hrun, -, hheld⟩ := held_clientsLeave n
  have hbound := (h.last hrun).held
  rw [hheld] at hbound
  exact Nat.not_lt.mpr hbound hn

/-- One connection more than the cap. -/
theorem early_return_exceeds_cap :
    (∃ s, Machine.run step new (clientsLeave 4097) = some s ∧ s.counter = 0 ∧ s.held = 4097) ∧
      ¬ Machine.Always step Bounded new (clientsLeave 4097) :=
  ⟨held_clientsLeave 4097, not_bounded_clientsLeave (by decide)⟩

end StreamServer

end MixTor
