/-
  MixTor.Mux.Demux

  The server side of a mux wire: `mux_demux_to_bridges` (transport.rs) with the
  relays it spawns.

  The loop reads one real cell after the other.  The close sentinel drops the
  sender of a stream; any other cell goes to the relay of its stream, which is
  spawned where there is none.  Relays run on their own between the cells, in
  any order.

  What the code does not keep is kept beside it: how often each stream id was
  closed, the data cells between two closes, and the cells that reached no relay.
-/

import MixTor.Mux.BridgeRelay
import MixTor.Transport.Tail
import Mathlib.Logic.Function.Basic

namespace MixTor

open Channel
open Crypto (Bytes)

/-- Max concurrent mux streams a single client wire may open. -/
def maxStreamsPerWire : Nat := 512

/-- Process-wide cap on live bridge streams. -/
def maxGlobalBridgeStreams : Nat := 4096

/-- A spawned relay, its stream id and how often the id had been closed before. -/
structure Bridge where
  streamId : UInt16
  era : Nat
  relay : BridgeRelay
  deriving DecidableEq, Repr

structure Demux where
  tail : TailPolicy
  now : Instant
  /-- The index in `bridges` of the relay behind each sender. -/
  streamMap : StreamMap Nat
  /-- Every relay ever spawned. -/
  bridges : List Bridge
  /-- The loop has returned. -/
  ended : Bool
  /-- Close sentinels of each stream id. -/
  era : UInt16 → Nat
  /-- Data cells of each stream id and era. -/
  uplink : UInt16 → Nat → List Bytes
  /-- Data cells that were handed to no relay. -/
  dropped : List (UInt16 × Bytes)

namespace Demux

def new (tail : TailPolicy) (now : Instant) : Demux where
  tail
  now
  streamMap := ∅
  bridges := []
  ended := false
  era _ := 0
  uplink _ _ := []
  dropped := []

/-- The instant before which a stream opened now must not connect. -/
def gateUntil (d : Demux) : Instant :=
  match d.tail with
  | .epoch clock => clock.nextBoundary d.now
  | _ => d.now

def modifyRelay (d : Demux) (i : Nat) (f : BridgeRelay → BridgeRelay) : Demux :=
  { d with bridges := d.bridges.modify i fun b => { b with relay := f b.relay } }

/-- `stream_map.remove`, which drops the sender. -/
def closeStream (d : Demux) (streamId : UInt16) : Demux :=
  match d.streamMap.lookup streamId with
  | none => d
  | some i => { d.modifyRelay i .close with streamMap := d.streamMap.erase streamId }

def dropCell (d : Demux) (streamId : UInt16) (data : Bytes) : Demux :=
  { d with dropped := d.dropped ++ [(streamId, data)] }

/-- The non-blocking route to relay `i`. -/
def sendTo (d : Demux) (i : Nat) (streamId : UInt16) (data : Bytes) : Demux :=
  match d.bridges[i]? with
  | none => d
  | some b =>
      match b.relay.dataRx.trySend data with
      | .ok rx => d.modifyRelay i fun r => { r with dataRx := rx }
      | .error .closed => (d.closeStream streamId).dropCell streamId data
      | .error .full => d.dropCell streamId data

/-- Spawn the relay of a new stream. -/
def openBridge (d : Demux) (streamId : UInt16) : Demux :=
  { d with
    bridges := d.bridges ++ [⟨streamId, d.era streamId, .spawn d.gateUntil⟩]
    streamMap := d.streamMap.insert streamId d.bridges.length }

/-- The loop returns: every sender is dropped. -/
def hangUp (d : Demux) : Demux :=
  { d with
    ended := true
    streamMap := ∅
    bridges := d.bridges.map fun b => { b with relay := b.relay.close } }

/-- The loop body for a real cell.  `prev` is what the global counter held. -/
def demuxCell (d : Demux) (streamId : UInt16) (data : Bytes) (prev : Nat) : Demux :=
  if data = [] then d.closeStream streamId
  else match d.streamMap.lookup streamId with
    | some i => d.sendTo i streamId data
    | none =>
        if maxStreamsPerWire ≤ d.streamMap.entries.length then
          d.hangUp.dropCell streamId data
        else if maxGlobalBridgeStreams ≤ prev then d.dropCell streamId data
        else (d.openBridge streamId).sendTo d.bridges.length streamId data

/-- Note what a cell says about its stream. -/
def record (d : Demux) (streamId : UInt16) (data : Bytes) : Demux :=
  let era := d.era streamId
  if data = [] then { d with era := Function.update d.era streamId (era + 1) }
  else
    let cells := d.uplink streamId
    { d with
      uplink := Function.update d.uplink streamId (Function.update cells era (cells era ++ [data])) }

/-- One relay moves. -/
def onRelay (d : Demux) (i : Nat) (f : BridgeRelay → Option BridgeRelay) : Option Demux :=
  (d.bridges[i]?).bind fun b => (f b.relay).map fun r => d.modifyRelay i fun _ => r

inductive Event where
  /-- The loop reads a real cell; `prev` is what the global counter holds then. -/
  | cell (cell : Cell) (prev : Nat)
  /-- The wire ends: clean EOF or an error. -/
  | wireEnds
  | advance (elapsed : Duration)
  | poll (i : Nat)
  | deadline (i : Nat)
  | connectFails (i : Nat)
  | writeFails (i n : Nat)

/-- The loop takes a real cell that decodes to `(streamId, data)`. -/
def readCell (d : Demux) (streamId : UInt16) (data : Bytes) (prev : Nat) : Option Demux :=
  if d.ended then none else some ((d.record streamId data).demuxCell streamId data prev)

def step (d : Demux) : Event → Option Demux
  | .cell cell prev =>
      d.readCell (decodeRealCell cell.bytes).1 (decodeRealCell cell.bytes).2 prev
  | .wireEnds => if d.ended then none else some d.hangUp
  | .advance elapsed => some { d with now := d.now + elapsed }
  | .poll i => d.onRelay i fun r => r.poll d.now
  | .deadline i => d.onRelay i fun r => r.fireDeadline d.now
  | .connectFails i => d.onRelay i fun r => r.connectFails
  | .writeFails i n => d.onRelay i fun r => r.writeFails n

-- ============================================================================
-- What the loop body does
-- ============================================================================

/-- The loop body, case by case. -/
inductive Routed (d : Demux) (streamId : UInt16) (data : Bytes) (prev : Nat) : Demux → Prop where
  | closes (hdata : data = []) : Routed d streamId data prev (d.closeStream streamId)
  /-- Never happens in a run: see `always_linked`. -/
  | dangles {i : Nat} (hdata : data ≠ []) (hl : d.streamMap.lookup streamId = some i)
      (hb : d.bridges[i]? = none) : Routed d streamId data prev d
  | sends {i : Nat} {b : Bridge} {rx : Chan Bytes streamChannelCap} (hdata : data ≠ [])
      (hl : d.streamMap.lookup streamId = some i) (hb : d.bridges[i]? = some b)
      (hsend : b.relay.dataRx.trySend data = .ok rx) :
      Routed d streamId data prev (d.modifyRelay i fun r => { r with dataRx := rx })
  | gone {i : Nat} {b : Bridge} (hdata : data ≠ [])
      (hl : d.streamMap.lookup streamId = some i) (hb : d.bridges[i]? = some b)
      (hsend : b.relay.dataRx.trySend data = .error .closed) :
      Routed d streamId data prev ((d.closeStream streamId).dropCell streamId data)
  | full {i : Nat} {b : Bridge} (hdata : data ≠ [])
      (hl : d.streamMap.lookup streamId = some i) (hb : d.bridges[i]? = some b)
      (hsend : b.relay.dataRx.trySend data = .error .full) :
      Routed d streamId data prev (d.dropCell streamId data)
  | wireCap (hdata : data ≠ []) (hl : d.streamMap.lookup streamId = none)
      (hcap : maxStreamsPerWire ≤ d.streamMap.entries.length) :
      Routed d streamId data prev (d.hangUp.dropCell streamId data)
  | globalCap (hdata : data ≠ []) (hl : d.streamMap.lookup streamId = none)
      (hcap : maxGlobalBridgeStreams ≤ prev) :
      Routed d streamId data prev (d.dropCell streamId data)
  | opens {rx : Chan Bytes streamChannelCap} (hdata : data ≠ [])
      (hl : d.streamMap.lookup streamId = none)
      (hwire : d.streamMap.entries.length < maxStreamsPerWire)
      (hglobal : prev < maxGlobalBridgeStreams) (hsend : Chan.new.trySend data = .ok rx) :
      Routed d streamId data prev
        ((d.openBridge streamId).modifyRelay d.bridges.length fun r => { r with dataRx := rx })

variable {d d' : Demux} {streamId : UInt16} {data : Bytes} {prev : Nat}

theorem getElem?_modifyRelay_self {i : Nat} {b : Bridge} (hb : d.bridges[i]? = some b)
    (f : BridgeRelay → BridgeRelay) :
    (d.modifyRelay i f).bridges[i]? = some { b with relay := f b.relay } := by
  show (d.bridges.modify i _)[i]? = _
  rw [List.getElem?_modify_eq, hb]
  rfl

theorem getElem?_modifyRelay_ne {i j : Nat} (hij : i ≠ j) (f : BridgeRelay → BridgeRelay) :
    (d.modifyRelay i f).bridges[j]? = d.bridges[j]? :=
  List.getElem?_modify_ne _ _ hij

/-- A relay after a move is the relay that moved, or one that did not. -/
theorem mem_modifyRelay {i : Nat} {f : BridgeRelay → BridgeRelay} {b' : Bridge}
    (hb' : b' ∈ (d.modifyRelay i f).bridges) :
    (∃ b, d.bridges[i]? = some b ∧ b' = { b with relay := f b.relay }) ∨
      ∃ j, i ≠ j ∧ d.bridges[j]? = some b' := by
  obtain ⟨j, hj⟩ := List.getElem?_of_mem hb'
  by_cases hij : i = j
  · subst hij
    have hlt : i < d.bridges.length := by
      have hlen := (List.getElem?_eq_some_iff.mp hj).1
      rwa [modifyRelay, List.length_modify] at hlen
    have hb : d.bridges[i]? = some d.bridges[i] := List.getElem?_eq_getElem hlt
    rw [getElem?_modifyRelay_self hb] at hj
    exact .inl ⟨_, hb, (Option.some.inj hj).symm⟩
  · rw [getElem?_modifyRelay_ne hij] at hj
    exact .inr ⟨j, hij, hj⟩

/-- The relays of a demux with a new one. -/
theorem getElem?_openBridge_last (d : Demux) (streamId : UInt16) :
    (d.openBridge streamId).bridges[d.bridges.length]? =
      some ⟨streamId, d.era streamId, .spawn d.gateUntil⟩ :=
  List.getElem?_concat_length

theorem getElem?_openBridge_of_lt {j : Nat} (hj : j < d.bridges.length) (streamId : UInt16) :
    (d.openBridge streamId).bridges[j]? = d.bridges[j]? :=
  List.getElem?_append_left hj

theorem demuxCell_routed (d : Demux) (streamId : UInt16) (data : Bytes) (prev : Nat) :
    d.Routed streamId data prev (d.demuxCell streamId data prev) := by
  rw [demuxCell]
  split
  · next hdata => exact .closes hdata
  · next hdata =>
    split
    · next i hl =>
      rw [sendTo]
      split
      · next hb => exact .dangles hdata hl hb
      · next b hb =>
        split
        · next rx hsend => exact .sends hdata hl hb hsend
        · next hsend => exact .gone hdata hl hb hsend
        · next hsend => exact .full hdata hl hb hsend
    · next hl =>
      split
      · next hcap => exact .wireCap hdata hl hcap
      · next hwire =>
        split
        · next hcap => exact .globalCap hdata hl hcap
        · next hglobal =>
          -- the channel of a new relay takes the first cell
          obtain ⟨rx, hsend⟩ := Chan.trySend_of_room
            (c := (Chan.new : Chan Bytes streamChannelCap)) data rfl (by decide)
          rw [sendTo, getElem?_openBridge_last]
          show d.Routed streamId data prev
            (match (Chan.new : Chan Bytes streamChannelCap).trySend data with
            | .ok rx => (d.openBridge streamId).modifyRelay d.bridges.length fun r =>
                { r with dataRx := rx }
            | .error .closed => ((d.openBridge streamId).closeStream streamId).dropCell streamId data
            | .error .full => (d.openBridge streamId).dropCell streamId data)
          rw [hsend]
          exact .opens hdata hl (Nat.lt_of_not_le hwire) (Nat.lt_of_not_le hglobal) hsend

@[simp] theorem record_streamMap (d : Demux) (streamId : UInt16) (data : Bytes) :
    (d.record streamId data).streamMap = d.streamMap := by
  rw [record]
  split <;> rfl

@[simp] theorem record_bridges (d : Demux) (streamId : UInt16) (data : Bytes) :
    (d.record streamId data).bridges = d.bridges := by
  rw [record]
  split <;> rfl

@[simp] theorem record_dropped (d : Demux) (streamId : UInt16) (data : Bytes) :
    (d.record streamId data).dropped = d.dropped := by
  rw [record]
  split <;> rfl

@[simp] theorem closeStream_dropped (d : Demux) (streamId : UInt16) :
    (d.closeStream streamId).dropped = d.dropped := by
  rw [closeStream]
  split <;> rfl

@[simp] theorem record_ended (d : Demux) (streamId : UInt16) (data : Bytes) :
    (d.record streamId data).ended = d.ended := by
  rw [record]
  split <;> rfl

@[simp] theorem closeStream_ended (d : Demux) (streamId : UInt16) :
    (d.closeStream streamId).ended = d.ended := by
  rw [closeStream]
  split <;> rfl

theorem lookup_closeStream_of_ne (d : Demux) {s : UInt16} (hs : s ≠ streamId) :
    (d.closeStream streamId).streamMap.lookup s = d.streamMap.lookup s := by
  rw [closeStream]
  split
  · rfl
  · exact AList.lookup_erase_ne hs

theorem onRelay_eq_some {i : Nat} {f : BridgeRelay → Option BridgeRelay}
    (h : d.onRelay i f = some d') :
    ∃ b r, d.bridges[i]? = some b ∧ f b.relay = some r ∧ d' = d.modifyRelay i fun _ => r := by
  obtain ⟨b, hb, h⟩ := Option.bind_eq_some_iff.mp h
  obtain ⟨r, hr, rfl⟩ := Option.map_eq_some_iff.mp h
  exact ⟨b, r, hb, hr, rfl⟩

theorem readCell_eq_some (h : d.readCell streamId data prev = some d') :
    d.ended = false ∧ (d.record streamId data).Routed streamId data prev d' := by
  rw [readCell] at h
  split at h
  · cases h
  · next hended =>
    obtain rfl := Option.some.inj h
    exact ⟨Bool.not_eq_true _ ▸ hended, demuxCell_routed ..⟩

-- ============================================================================
-- Every sender has its relay
-- ============================================================================

/-- Every sender belongs to a relay of its stream id, one that `P` holds of. -/
def MappedTo (P : BridgeRelay → Prop) (d : Demux) : Prop :=
  ∀ streamId i, d.streamMap.lookup streamId = some i →
    ∃ b, d.bridges[i]? = some b ∧ b.streamId = streamId ∧ P b.relay

variable {P : BridgeRelay → Prop}

theorem mappedTo_new (tail : TailPolicy) (now : Instant) : (new tail now).MappedTo P := by
  intro streamId i h
  rw [new, AList.lookup_empty] at h
  cases h

/-- A change of one relay that keeps `P` keeps the map. -/
theorem MappedTo.modifyRelay (h : d.MappedTo P) {i : Nat} {f : BridgeRelay → BridgeRelay}
    (hf : ∀ b, d.bridges[i]? = some b → P b.relay → P (f b.relay)) :
    (d.modifyRelay i f).MappedTo P := by
  intro id j hl
  obtain ⟨b, hb, hid, hP⟩ := h id j hl
  by_cases hij : i = j
  · subst hij
    exact ⟨_, getElem?_modifyRelay_self hb f, hid, hf b hb hP⟩
  · exact ⟨b, (getElem?_modifyRelay_ne hij f).trans hb, hid, hP⟩

/-- Closing one stream leaves the relays of the others alone. -/
theorem MappedTo.closeStream (h : d.MappedTo P) (streamId : UInt16) :
    (d.closeStream streamId).MappedTo P := by
  rw [Demux.closeStream]
  split
  · exact h
  · next i hi =>
    intro id j hl
    obtain ⟨c, hc, hcid, -⟩ := h streamId i hi
    have hne : id ≠ streamId := by
      rintro rfl
      have hnone : (d.streamMap.erase id).lookup id = none := AList.lookup_erase id _
      rw [hnone] at hl
      cases hl
    have hl' : d.streamMap.lookup id = some j := (AList.lookup_erase_ne hne).symm.trans hl
    obtain ⟨b, hb, hid, hP⟩ := h id j hl'
    have hij : i ≠ j := by
      rintro rfl
      rw [hc] at hb
      obtain rfl := Option.some.inj hb
      exact hne (hid.symm.trans hcid)
    exact ⟨b, (getElem?_modifyRelay_ne hij _).trans hb, hid, hP⟩

/-- A new relay is mapped behind the old ones. -/
theorem MappedTo.openBridge (h : d.MappedTo P) {rx : Chan Bytes streamChannelCap}
    (streamId : UInt16) (hnew : P { BridgeRelay.spawn d.gateUntil with dataRx := rx }) :
    ((d.openBridge streamId).modifyRelay d.bridges.length fun r =>
      { r with dataRx := rx }).MappedTo P := by
  intro id j hl
  by_cases hid : id = streamId
  · subst hid
    have hinsert : (d.streamMap.insert id d.bridges.length).lookup id = some d.bridges.length :=
      AList.lookup_insert _
    obtain rfl := Option.some.inj (hinsert.symm.trans hl)
    exact ⟨_, getElem?_modifyRelay_self (d.getElem?_openBridge_last id) _, rfl, hnew⟩
  · have hl' : d.streamMap.lookup id = some j := (AList.lookup_insert_ne hid).symm.trans hl
    obtain ⟨b, hb, hbid, hP⟩ := h id j hl'
    have hlt : j < d.bridges.length := (List.getElem?_eq_some_iff.mp hb).1
    have hold := (getElem?_openBridge_of_lt hlt streamId).trans hb
    exact ⟨b, (getElem?_modifyRelay_ne (Nat.ne_of_gt hlt) _).trans hold, hbid, hP⟩

theorem mappedTo_hangUp (d : Demux) : d.hangUp.MappedTo P := by
  intro id j hl
  rw [hangUp, AList.lookup_empty] at hl
  cases hl

theorem record_mappedTo (h : d.MappedTo P) (streamId : UInt16) (data : Bytes) :
    (d.record streamId data).MappedTo P := by
  intro id i hl
  rw [record_streamMap] at hl
  rw [record_bridges]
  exact h id i hl

/-- The loop body keeps the map if `P` holds of a new relay with its first cell
    and of a relay that is sent one more. -/
theorem MappedTo.routed (h : d.MappedTo P)
    (hnew : ∀ gateUntil rx, Chan.new.trySend data = .ok rx →
      P { BridgeRelay.spawn gateUntil with dataRx := rx })
    (hsent : ∀ r rx, r.dataRx.trySend data = .ok rx → P r → P { r with dataRx := rx })
    (hrouted : (d.record streamId data).Routed streamId data prev d') : d'.MappedTo P := by
  have hmapped := record_mappedTo h streamId data
  cases hrouted with
  | closes | gone => exact hmapped.closeStream streamId
  | dangles | full | globalCap => exact hmapped
  | wireCap => exact mappedTo_hangUp _
  | opens _ _ _ _ hsend => exact hmapped.openBridge streamId (hnew _ _ hsend)
  | sends _ _ hb hsend =>
      apply hmapped.modifyRelay
      intro b' hb' hP
      obtain rfl := Option.some.inj (hb.symm.trans hb')
      exact hsent _ _ hsend hP

theorem MappedTo.onRelay (h : d.MappedTo P) {i : Nat} {f : BridgeRelay → Option BridgeRelay}
    (hf : ∀ r r', f r = some r' → P r → P r') (hstep : d.onRelay i f = some d') :
    d'.MappedTo P := by
  obtain ⟨b, r, hb, hr, rfl⟩ := onRelay_eq_some hstep
  apply h.modifyRelay
  intro b' hb' hP
  obtain rfl := Option.some.inj (hb.symm.trans hb')
  exact hf _ r hr hP

/-- When the wire ends no sender is left. -/
theorem wireEnds_mappedTo (hstep : d.step .wireEnds = some d') : d'.MappedTo P := by
  rw [step] at hstep
  split at hstep
  · cases hstep
  · obtain rfl := Option.some.inj hstep
    exact mappedTo_hangUp d

theorem step_linked {e : Event} (h : d.MappedTo fun _ => True) (hstep : d.step e = some d') :
    d'.MappedTo fun _ => True := by
  cases e with
  | cell cell prev =>
      exact h.routed (fun _ _ _ => trivial) (fun _ _ _ _ => trivial) (readCell_eq_some hstep).2
  | wireEnds => exact wireEnds_mappedTo hstep
  | advance elapsed =>
      obtain rfl := Option.some.inj hstep
      exact h
  | poll | deadline | connectFails | writeFails =>
      rw [step] at hstep
      exact h.onRelay (fun _ _ _ _ => trivial) hstep

/-- Along every run, whatever fails, every sender belongs to a relay of its
    stream id. -/
theorem always_linked (tail : TailPolicy) (now : Instant) (events : List Event) :
    Machine.Always step (MappedTo fun _ => True) (new tail now) events :=
  Machine.always_of_invariant (fun _ _ _ => step_linked) (mappedTo_new tail now) events

-- ============================================================================
-- The map while no bridge I/O fails
-- ============================================================================

/-- Every sender belongs to an open relay of its stream id. -/
def Mapped (d : Demux) : Prop := d.MappedTo BridgeRelay.Open

/-- A step in which no bridge I/O fails. -/
def Event.NoFailure : Event → Prop
  | .connectFails _ | .writeFails _ _ => False
  | _ => True

instance : DecidablePred Event.NoFailure
  | .connectFails _ | .writeFails _ _ => isFalse id
  | .cell _ _ | .wireEnds | .advance _ | .poll _ | .deadline _ => isTrue trivial

theorem Mapped.routed (h : d.Mapped)
    (hrouted : (d.record streamId data).Routed streamId data prev d') : d'.Mapped := by
  refine MappedTo.routed h (fun _ _ hsend => BridgeRelay.open_of_new _ hsend) ?_ hrouted
  intro r rx hsend hopen
  obtain ⟨-, -, -, -, hs, hr⟩ := Chan.trySend_eq_ok hsend
  exact ⟨hs.trans hopen.senders, hr, hopen.notOver⟩

theorem step_mapped {e : Event} (h : d.Mapped) (hok : e.NoFailure)
    (hstep : d.step e = some d') : d'.Mapped := by
  cases e with
  | cell cell prev => exact Mapped.routed h (readCell_eq_some hstep).2
  | wireEnds => exact wireEnds_mappedTo hstep
  | advance elapsed =>
      obtain rfl := Option.some.inj hstep
      exact h
  | poll i => exact h.onRelay (fun _ _ hpoll hopen => hopen.poll hpoll) hstep
  | deadline i => exact h.onRelay (fun _ _ hfire hopen => hopen.fireDeadline hfire) hstep
  | connectFails | writeFails => cases hok

end Demux

end MixTor
