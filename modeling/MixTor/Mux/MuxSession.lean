/-
  MixTor.Mux.MuxSession

  A mux wire from end to end (transport.rs): the client's `MuxWire`, the circuits
  on it with their `mux_tor_reader` and `mux_tor_writer` tasks, the server's
  demux with its relays and their `bridge_stream_reader` tasks, and the real
  cells on the way in both directions.

  Cells are kept as they decode.  The two lists are the cells a sender has put
  into its cell channel and the far side has not read yet, in order; that a flow
  delivers such cells in order is shown for the flow itself.  The wire stays up:
  neither flow is dropped, so a send on a cell channel does not fail.
-/

import MixTor.Mux.Demux

namespace MixTor

open Channel
open Crypto (Bytes)

/-- A circuit that was given a stream. -/
structure TorCircuit where
  streamId : UInt16
  /-- Its `mux_tor_reader` runs: the local connection has not ended. -/
  reading : Bool
  deriving DecidableEq, Repr

structure MuxSession where
  client : MuxWire
  circuits : List TorCircuit
  uplink : List (UInt16 × Bytes)
  server : Demux
  downlink : List (UInt16 × Bytes)
  /-- The relays whose `bridge_stream_reader` has ended. -/
  readersEnded : List Nat

/-- What happens on the server between two cells. -/
def Demux.Event.isLocal : Demux.Event → Bool
  | .cell _ _ | .wireEnds => false
  | .advance _ | .poll _ | .deadline _ | .connectFails _ | .writeFails _ _ => true

namespace MuxSession

/-- A wire after the handshake, with no circuit on it. -/
def new (serverPub : Crypto.Key) (tail : TailPolicy) (now : Instant) : MuxSession where
  client := .connect serverPub
  circuits := []
  uplink := []
  server := .new tail now
  downlink := []
  readersEnded := []

inductive Event where
  /-- `add_stream` for a new circuit. -/
  | openCircuit
  /-- The reader of a circuit sends a chunk. -/
  | readerSends (circuit : Nat) (data : Bytes)
  /-- The reader of a circuit sees the end of its connection. -/
  | readerEof (circuit : Nat)
  /-- A read of the reader of a circuit fails. -/
  | readerFails (circuit : Nat)
  /-- The writer of a stream takes a chunk. -/
  | writerTakes (streamId : UInt16)
  /-- The writer of a stream ends at a failed write. -/
  | writerFails (streamId : UInt16)
  /-- The demux reads the next cell; `prev` is what the global counter holds. -/
  | serverReads (prev : Nat)
  /-- A relay moves, or time passes on the server. -/
  | server (e : Demux.Event)
  /-- The bridge behind a relay sends a chunk. -/
  | bridgeSends (relay : Nat) (data : Bytes)
  /-- The bridge behind a relay closes. -/
  | bridgeEof (relay : Nat)
  /-- A read from the bridge fails. -/
  | bridgeFails (relay : Nat)
  /-- `receive_mux_inbound` reads the next cell. -/
  | clientReads

/-- What `bridge_stream_reader` of a relay does while it runs. -/
def onBridge (w : MuxSession) (relay : Nat) (f : UInt16 → MuxSession) : Option MuxSession :=
  (w.server.bridges[relay]?).bind fun b =>
    if b.relay.connected = true ∧ relay ∉ w.readersEnded then some (f b.streamId) else none

/-- What `mux_tor_reader` of a circuit does while it runs. -/
def onCircuit (w : MuxSession) (circuit : Nat) (f : UInt16 → MuxSession) : Option MuxSession :=
  (w.circuits[circuit]?).bind fun t => if t.reading = true then some (f t.streamId) else none

/-- The reader of a circuit has ended. -/
def stopReading (w : MuxSession) (circuit : Nat) (streamId : UInt16) : MuxSession :=
  { w with circuits := w.circuits.set circuit ⟨streamId, false⟩ }

def step (w : MuxSession) : Event → Option MuxSession
  | .openCircuit =>
      match w.client.addStream with
      | none => some w
      | some (streamId, client) =>
          some { w with client, circuits := w.circuits ++ [⟨streamId, true⟩] }
  | .readerSends circuit data =>
      if data ≠ [] ∧ data.length ≤ cellPayload then
        w.onCircuit circuit fun streamId => { w with uplink := w.uplink ++ [(streamId, data)] }
      else none
  | .readerEof circuit =>
      w.onCircuit circuit fun streamId =>
        { w.stopReading circuit streamId with uplink := w.uplink ++ [(streamId, [])] }
  | .readerFails circuit => w.onCircuit circuit (w.stopReading circuit)
  | .writerTakes streamId =>
      (w.client.step (.takeDown streamId)).map fun client => { w with client }
  | .writerFails streamId =>
      (w.client.step (.dropDown streamId)).map fun client => { w with client }
  | .serverReads prev =>
      match w.uplink with
      | [] => none
      | (streamId, data) :: rest =>
          (w.server.readCell streamId data prev).map fun server => { w with
            uplink := rest
            server
            -- the close sentinel is sent back
            downlink := if data = [] then w.downlink ++ [(streamId, [])] else w.downlink }
  | .server e =>
      if e.isLocal then (w.server.step e).map fun server => { w with server } else none
  | .bridgeSends relay data =>
      if data ≠ [] ∧ data.length ≤ cellPayload then
        w.onBridge relay fun streamId => { w with downlink := w.downlink ++ [(streamId, data)] }
      else none
  | .bridgeEof relay =>
      w.onBridge relay fun streamId => { w with
        downlink := w.downlink ++ [(streamId, [])]
        readersEnded := relay :: w.readersEnded }
  | .bridgeFails relay =>
      w.onBridge relay fun _ => { w with readersEnded := relay :: w.readersEnded }
  | .clientReads =>
      match w.downlink with
      | [] => none
      | (streamId, data) :: rest =>
          some { w with client := w.client.receive streamId data, downlink := rest }

variable {w w' : MuxSession}

theorem onCircuit_eq_some {circuit : Nat} {f : UInt16 → MuxSession}
    (h : w.onCircuit circuit f = some w') :
    ∃ streamId, w.circuits[circuit]? = some ⟨streamId, true⟩ ∧ w' = f streamId := by
  obtain ⟨t, ht, h⟩ := Option.bind_eq_some_iff.mp h
  split at h
  · next hreading =>
    refine ⟨t.streamId, ?_, (Option.some.inj h).symm⟩
    rw [ht, ← hreading]
  · cases h

theorem onBridge_eq_some {relay : Nat} {f : UInt16 → MuxSession}
    (h : w.onBridge relay f = some w') : ∃ streamId, w' = f streamId := by
  obtain ⟨b, -, h⟩ := Option.bind_eq_some_iff.mp h
  split at h
  · exact ⟨b.streamId, (Option.some.inj h).symm⟩
  · cases h

end MuxSession

-- ============================================================================
-- What each side does to its map
-- ============================================================================

namespace MuxWire

variable {w : MuxWire} {s : UInt16}

/-- A stream is in the map after it was added, or was there before. -/
theorem mem_of_mem_addStream {w' : MuxWire} {streamId : UInt16}
    (h : w.addStream = some (streamId, w')) (hs : s ∈ w'.streamMap) :
    s = streamId ∨ s ∈ w.streamMap := by
  rw [addStream] at h
  split at h
  · cases h
  · obtain ⟨r, -, hr⟩ := Option.map_eq_some_iff.mp h
    obtain ⟨rfl, rfl⟩ := Prod.mk.inj hr
    exact (AList.mem_insert _).mp hs

/-- A received cell adds no stream, and a close removes its own. -/
theorem mem_of_mem_receive {streamId : UInt16} {data : Bytes}
    (hs : s ∈ (w.receive streamId data).streamMap) :
    s ∈ w.streamMap ∧ (data = [] → s ≠ streamId) := by
  rw [receive] at hs
  split at hs
  · obtain ⟨hne, hmem⟩ := AList.mem_erase.mp hs
    exact ⟨hmem, fun _ => hne⟩
  · next hdata =>
    refine ⟨?_, fun hnil => absurd hnil hdata⟩
    split at hs
    · exact hs
    · split at hs
      · exact AList.mem_replace.mp hs
      · exact (AList.mem_erase.mp hs).2
      · exact hs

theorem mem_of_mem_updateStream {streamId : UInt16}
    {f : Chan Bytes streamChannelCap → Chan Bytes streamChannelCap}
    (hs : s ∈ (w.updateStream streamId f).streamMap) : s ∈ w.streamMap := by
  rw [updateStream] at hs
  split at hs
  · exact hs
  · exact AList.mem_replace.mp hs

end MuxWire

namespace Demux

variable {d d' : Demux} {streamId s : UInt16} {data : Bytes} {prev : Nat}

theorem mem_of_mem_closeStream (hs : s ∈ (d.closeStream streamId).streamMap) :
    s ∈ d.streamMap ∧ s ≠ streamId := by
  rw [closeStream] at hs
  split at hs
  · next hl =>
    refine ⟨hs, ?_⟩
    rintro rfl
    exact AList.lookup_eq_none.mp hl hs
  · obtain ⟨hne, hmem⟩ := AList.mem_erase.mp hs
    exact ⟨hmem, hne⟩

/-- A stream is in the map after a cell only if it was there before, or if the
    cell is data of that stream; a close removes its own. -/
theorem mem_of_mem_routed (h : d.Routed streamId data prev d') (hs : s ∈ d'.streamMap) :
    s ∈ d.streamMap ∧ (data = [] → s ≠ streamId) ∨ s = streamId ∧ data ≠ [] := by
  cases h with
  | closes =>
      obtain ⟨hmem, hne⟩ := mem_of_mem_closeStream hs
      exact .inl ⟨hmem, fun _ => hne⟩
  | dangles hdata | sends hdata | full hdata | globalCap hdata =>
      exact .inl ⟨hs, fun hnil => absurd hnil hdata⟩
  | gone hdata =>
      exact .inl ⟨(mem_of_mem_closeStream hs).1, fun hnil => absurd hnil hdata⟩
  | wireCap => exact absurd hs (AList.notMem_empty s)
  | opens hdata =>
      rcases (AList.mem_insert _).mp hs with hnew | hold
      · exact .inr ⟨hnew, hdata⟩
      · exact .inl ⟨hold, fun hnil => absurd hnil hdata⟩

/-- A move of a relay leaves the map alone. -/
theorem onRelay_streamMap {i : Nat} {f : BridgeRelay → Option BridgeRelay}
    (h : d.onRelay i f = some d') : d'.streamMap = d.streamMap ∧ d'.ended = d.ended := by
  obtain ⟨b, r, -, -, rfl⟩ := onRelay_eq_some h
  exact ⟨rfl, rfl⟩

/-- What happens between two cells leaves the map alone. -/
theorem local_frame {e : Event} (hlocal : e.isLocal = true) (h : d.step e = some d') :
    d'.streamMap = d.streamMap ∧ d'.ended = d.ended := by
  cases e with
  | cell | wireEnds => cases hlocal
  | advance elapsed =>
      obtain rfl := Option.some.inj h
      exact ⟨rfl, rfl⟩
  | poll | deadline | connectFails | writeFails =>
      rw [step] at h
      exact onRelay_streamMap h

end Demux

-- ============================================================================
-- What a step does
-- ============================================================================

namespace MuxSession

variable {w w' : MuxSession}

/-- The steps of a session, case by case. -/
inductive Stepped (w : MuxSession) : Event → MuxSession → Prop where
  | saturated (hadd : w.client.addStream = none) : Stepped w .openCircuit w
  | opened {streamId : UInt16} {client : MuxWire}
      (hadd : w.client.addStream = some (streamId, client)) :
      Stepped w .openCircuit
        { w with client, circuits := w.circuits ++ [⟨streamId, true⟩] }
  | readerSends {circuit : Nat} {data : Bytes} {streamId : UInt16}
      (hc : w.circuits[circuit]? = some ⟨streamId, true⟩) (hdata : data ≠ []) :
      Stepped w (.readerSends circuit data)
        { w with uplink := w.uplink ++ [(streamId, data)] }
  | readerEof {circuit : Nat} {streamId : UInt16}
      (hc : w.circuits[circuit]? = some ⟨streamId, true⟩) :
      Stepped w (.readerEof circuit)
        { w.stopReading circuit streamId with uplink := w.uplink ++ [(streamId, [])] }
  | readerFails {circuit : Nat} {streamId : UInt16}
      (hc : w.circuits[circuit]? = some ⟨streamId, true⟩) :
      Stepped w (.readerFails circuit) (w.stopReading circuit streamId)
  | writerTakes (streamId : UInt16) :
      Stepped w (.writerTakes streamId)
        { w with client := w.client.updateStream streamId fun rx => rx.tryRecv.2 }
  | writerFails (streamId : UInt16) :
      Stepped w (.writerFails streamId)
        { w with client := w.client.updateStream streamId Chan.dropReceiver }
  | serverReads {prev : Nat} {streamId : UInt16} {data : Bytes} {rest : List (UInt16 × Bytes)}
      {server : Demux} (hup : w.uplink = (streamId, data) :: rest)
      (hrouted : (w.server.record streamId data).Routed streamId data prev server) :
      Stepped w (.serverReads prev) { w with
        uplink := rest
        server
        downlink := if data = [] then w.downlink ++ [(streamId, [])] else w.downlink }
  | server {e : Demux.Event} {server : Demux} (hmap : server.streamMap = w.server.streamMap)
      (hended : server.ended = w.server.ended) : Stepped w (.server e) { w with server }
  | bridgeSends {relay : Nat} {data : Bytes} (streamId : UInt16) :
      Stepped w (.bridgeSends relay data)
        { w with downlink := w.downlink ++ [(streamId, data)] }
  | bridgeEof {relay : Nat} (streamId : UInt16) :
      Stepped w (.bridgeEof relay) { w with
        downlink := w.downlink ++ [(streamId, [])]
        readersEnded := relay :: w.readersEnded }
  | bridgeFails (relay : Nat) :
      Stepped w (.bridgeFails relay) { w with readersEnded := relay :: w.readersEnded }
  | clientReads {streamId : UInt16} {data : Bytes} {rest : List (UInt16 × Bytes)}
      (hdown : w.downlink = (streamId, data) :: rest) :
      Stepped w .clientReads
        { w with client := w.client.receive streamId data, downlink := rest }

theorem step_stepped {e : Event} (h : w.step e = some w') : w.Stepped e w' := by
  cases e with
  | openCircuit =>
      rw [step] at h
      split at h
      · next hadd =>
        obtain rfl := Option.some.inj h
        exact .saturated hadd
      · next streamId client hadd =>
        obtain rfl := Option.some.inj h
        exact .opened hadd
  | readerSends circuit data =>
      rw [step] at h
      split at h
      · next hdata =>
        obtain ⟨streamId, hc, rfl⟩ := onCircuit_eq_some h
        exact .readerSends hc hdata.1
      · cases h
  | readerEof circuit =>
      rw [step] at h
      obtain ⟨streamId, hc, rfl⟩ := onCircuit_eq_some h
      exact .readerEof hc
  | readerFails circuit =>
      rw [step] at h
      obtain ⟨streamId, hc, rfl⟩ := onCircuit_eq_some h
      exact .readerFails hc
  | writerTakes streamId =>
      obtain rfl := Option.some.inj h
      exact .writerTakes streamId
  | writerFails streamId =>
      obtain rfl := Option.some.inj h
      exact .writerFails streamId
  | serverReads prev =>
      rw [step] at h
      split at h
      · cases h
      · next streamId data rest hup =>
        obtain ⟨server, hserver, rfl⟩ := Option.map_eq_some_iff.mp h
        exact .serverReads hup (Demux.readCell_eq_some hserver).2
  | server e =>
      rw [step] at h
      split at h
      · next hlocal =>
        obtain ⟨server, hserver, rfl⟩ := Option.map_eq_some_iff.mp h
        obtain ⟨hmap, hended⟩ := Demux.local_frame hlocal hserver
        exact .server hmap hended
      · cases h
  | bridgeSends relay data =>
      rw [step] at h
      split at h
      · obtain ⟨streamId, rfl⟩ := onBridge_eq_some h
        exact .bridgeSends streamId
      · cases h
  | bridgeEof relay =>
      rw [step] at h
      obtain ⟨streamId, rfl⟩ := onBridge_eq_some h
      exact .bridgeEof streamId
  | bridgeFails relay =>
      rw [step] at h
      obtain ⟨streamId, rfl⟩ := onBridge_eq_some h
      exact .bridgeFails relay
  | clientReads =>
      rw [step] at h
      split at h
      · cases h
      · next streamId data rest hdown =>
        obtain rfl := Option.some.inj h
        exact .clientReads hdown

end MuxSession

end MixTor
