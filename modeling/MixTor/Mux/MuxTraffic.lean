/-
  MixTor.Mux.MuxTraffic

  What travels over a mux wire, and for whom (transport.rs).

  The parties are those of a session: the client's map and its circuits, each
  with `mux_tor_reader` and `mux_tor_writer`, the server's demux with its relays
  and their `bridge_stream_reader` tasks, and the cells on the way.  Here every
  circuit keeps the channel its writer reads, which outlives its entry in the
  map, and every cell and every relay is marked with the circuit it is there for:
  a cell from the server with the circuit whose cell spawned the relay it comes
  from, a close that is sent back with the circuit that sent it.

  Three histories are kept beside the state: what the circuits have sent, what
  was read from the bridges, and which cell reached which circuit.
-/

import MixTor.Mux.MuxSession
import MixTor.Lib.Keyed

namespace MixTor

open Channel
open Crypto (Bytes)

/-- A circuit with its two tasks. -/
structure MuxCircuit where
  streamId : UInt16
  /-- Its `mux_tor_reader` runs. -/
  reading : Bool
  /-- The chunks its reader has sent. -/
  sent : List Bytes
  /-- The channel to its writer. -/
  downRx : Chan Bytes streamChannelCap
  /-- Its `mux_tor_writer` runs. -/
  writing : Bool
  /-- What was written to the local connection, one entry a `write_all`. -/
  written : List Bytes
  deriving DecidableEq, Repr

/-- A real cell on the way, and the circuit it is there for. -/
structure TaggedCell where
  circuit : Nat
  streamId : UInt16
  data : Bytes
  deriving DecidableEq, Repr

/-- The read half of the upstream connection of a relay. -/
structure Upstream where
  /-- The circuit whose cell spawned the relay. -/
  owner : Nat
  readerEnded : Bool
  deriving DecidableEq, Repr

/-- A chunk read from the upstream connection of a relay. -/
structure Reply where
  relay : Nat
  streamId : UInt16
  data : Bytes
  deriving DecidableEq, Repr

structure MuxTraffic where
  nextId : UInt16
  /-- The circuit behind each sender. -/
  streamMap : StreamMap Nat
  circuits : List MuxCircuit
  uplink : List TaggedCell
  server : Demux
  /-- One for each relay. -/
  upstreams : List Upstream
  downlink : List TaggedCell
  replies : List Reply
  /-- For every cell that was delivered to a circuit or took it out of the map: the
      circuit the cell was there for, and the circuit it reached. -/
  routed : List (Nat × Nat)

namespace MuxCircuit

def opened (streamId : UInt16) : MuxCircuit := ⟨streamId, true, [], .new, true, []⟩

/-- The sender in the map is dropped. -/
def close (t : MuxCircuit) : MuxCircuit := { t with downRx := t.downRx.dropSenders }

/-- One step of the writer, or `none` while it waits. -/
def poll (t : MuxCircuit) : Option MuxCircuit :=
  if t.writing then
    match t.downRx.tryRecv with
    | (.ok data, rx) => some { t with downRx := rx, written := t.written ++ [data] }
    | (.empty, _) => none
    | (.disconnected, rx) => some { t with downRx := rx.dropReceiver, writing := false }
  else none

/-- A `write_all` of the writer fails after `n` bytes. -/
def writeFails (t : MuxCircuit) (n : Nat) : Option MuxCircuit :=
  if t.writing then
    match t.downRx.tryRecv with
    | (.ok data, rx) =>
        some { t with
          downRx := rx.dropReceiver
          written := t.written ++ [data.take n]
          writing := false }
    | _ => none
  else none

variable {t t' : MuxCircuit}

/-- The outcomes of a step of the writer: it takes a chunk, or ends when its channel is
    closed and empty. -/
inductive Polled (t : MuxCircuit) : MuxCircuit → Prop where
  | takes {data : Bytes} {rx : Chan Bytes streamChannelCap} (hwriting : t.writing = true)
      (hrecv : t.downRx.tryRecv = (.ok data, rx)) :
      Polled t { t with downRx := rx, written := t.written ++ [data] }
  | ends (hwriting : t.writing = true) (hq : t.downRx.queue = []) (hs : t.downRx.senders = false) :
      Polled t { t with downRx := t.downRx.dropReceiver, writing := false }

theorem polled_of_poll (h : t.poll = some t') : t.Polled t' := by
  rw [poll] at h
  split at h
  · next hwriting =>
    split at h
    · next data rx hrecv =>
      obtain rfl := Option.some.inj h
      exact .takes hwriting hrecv
    · cases h
    · next rx hrecv =>
      obtain rfl := Option.some.inj h
      obtain ⟨rfl, hq, hs⟩ := Chan.tryRecv_eq_disconnected hrecv
      exact .ends hwriting hq hs
  · cases h

/-- A write that fails breaks off the next chunk. -/
theorem writeFails_eq_some {n : Nat} (h : t.writeFails n = some t') :
    ∃ data rx, t.writing = true ∧ t.downRx.tryRecv = (.ok data, rx) ∧
      t' = { t with
        downRx := rx.dropReceiver
        written := t.written ++ [data.take n]
        writing := false } := by
  rw [writeFails] at h
  split at h
  · next hwriting =>
    split at h
    · next data rx hrecv => exact ⟨data, rx, hwriting, hrecv, (Option.some.inj h).symm⟩
    · cases h
  · cases h

/-- The writer leaves the reader alone, and what was handed to it. -/
theorem poll_frame (h : t.poll = some t') :
    t'.streamId = t.streamId ∧ t'.reading = t.reading ∧ t'.sent = t.sent ∧
      t'.downRx.sent = t.downRx.sent := by
  cases polled_of_poll h with
  | takes _ hrecv =>
      have hsent := Chan.tryRecv_sent t.downRx
      rw [hrecv] at hsent
      exact ⟨rfl, rfl, rfl, hsent⟩
  | ends => exact ⟨rfl, rfl, rfl, rfl⟩

theorem writeFails_frame {n : Nat} (h : t.writeFails n = some t') :
    t'.streamId = t.streamId ∧ t'.reading = t.reading ∧ t'.sent = t.sent ∧
      t'.downRx.sent = t.downRx.sent := by
  obtain ⟨data, rx, -, hrecv, rfl⟩ := writeFails_eq_some h
  have hsent := Chan.tryRecv_sent t.downRx
  rw [hrecv] at hsent
  exact ⟨rfl, rfl, rfl, hsent⟩

end MuxCircuit

namespace MuxTraffic

/-- A wire after the handshake. -/
def new (tail : TailPolicy) (now : Instant) : MuxTraffic where
  nextId := 1
  streamMap := ∅
  circuits := []
  uplink := []
  server := .new tail now
  upstreams := []
  downlink := []
  replies := []
  routed := []

inductive Event where
  /-- `add_stream` for a new circuit. -/
  | openCircuit
  | readerSends (circuit : Nat) (data : Bytes)
  | readerEof (circuit : Nat)
  | readerFails (circuit : Nat)
  | writerPolls (circuit : Nat)
  | writerFails (circuit n : Nat)
  /-- The demux reads the next cell; `prev` is what the global counter holds. -/
  | serverReads (prev : Nat)
  /-- A relay moves, or time passes on the server. -/
  | server (e : Demux.Event)
  /-- The uplink of the wire ends: the demux returns. -/
  | wireEnds
  | bridgeSends (relay : Nat) (data : Bytes)
  | bridgeEof (relay : Nat)
  | bridgeFails (relay : Nat)
  /-- `receive_mux_inbound` reads the next cell. -/
  | clientReads

/-- `add_stream`: the id and the counter behind it, or `none` on a saturated wire. -/
def addStream (w : MuxTraffic) : Option (UInt16 × UInt16) :=
  if 65535 - 1 ≤ w.streamMap.entries.length then none
  else MuxWire.nextFree w.streamMap 65536 w.nextId

/-- What the reader of a circuit does while it runs. -/
def onReader (w : MuxTraffic) (circuit : Nat) (f : MuxCircuit → MuxTraffic) : Option MuxTraffic :=
  (w.circuits[circuit]?).bind fun t => if t.reading = true then some (f t) else none

/-- What the writer of a circuit does. -/
def onWriter (w : MuxTraffic) (circuit : Nat) (f : MuxCircuit → Option MuxCircuit) :
    Option MuxTraffic :=
  (w.circuits[circuit]?).bind fun t =>
    (f t).map fun t' => { w with circuits := w.circuits.modify circuit fun _ => t' }

/-- What `bridge_stream_reader` of a relay does while it runs. -/
def onBridge (w : MuxTraffic) (relay : Nat) (f : Bridge → Upstream → MuxTraffic) :
    Option MuxTraffic :=
  (w.server.bridges[relay]?).bind fun b => (w.upstreams[relay]?).bind fun u =>
    if b.relay.connected = true ∧ u.readerEnded = false then some (f b u) else none

/-- The reader of a relay ends. -/
def endReader (w : MuxTraffic) (relay : Nat) : MuxTraffic :=
  { w with upstreams := w.upstreams.modify relay fun u => { u with readerEnded := true } }

/-- The demux takes a cell. -/
def demux (w : MuxTraffic) (cell : TaggedCell) (server : Demux) : MuxTraffic :=
  { w with
    server
    upstreams :=
      if w.server.bridges.length < server.bridges.length then w.upstreams ++ [⟨cell.circuit, false⟩]
      else w.upstreams
    -- the close sentinel is sent back
    downlink := if cell.data = [] then w.downlink ++ [cell] else w.downlink }

/-- `stream_map.remove` at the client. -/
def removeStream (w : MuxTraffic) (streamId : UInt16) (circuit : Nat) : MuxTraffic :=
  { w with
    streamMap := w.streamMap.erase streamId
    circuits := w.circuits.modify circuit .close }

/-- The inbound task routes one real cell. -/
def receive (w : MuxTraffic) (cell : TaggedCell) : MuxTraffic :=
  match w.streamMap.lookup cell.streamId with
  | none => w
  | some c =>
      if cell.data = [] then
        { w.removeStream cell.streamId c with routed := w.routed ++ [(cell.circuit, c)] }
      else match w.circuits[c]? with
        | none => w
        | some t =>
            match t.downRx.trySend cell.data with
            | .ok rx => { w with
                circuits := w.circuits.modify c fun t => { t with downRx := rx }
                routed := w.routed ++ [(cell.circuit, c)] }
            | .error .closed =>
                { w.removeStream cell.streamId c with routed := w.routed ++ [(cell.circuit, c)] }
            | .error .full => w  -- the cell is dropped

def step (w : MuxTraffic) : Event → Option MuxTraffic
  | .openCircuit =>
      match w.addStream with
      | none => some w
      | some (streamId, nextId) =>
          some { w with
            nextId
            streamMap := w.streamMap.insert streamId w.circuits.length
            circuits := w.circuits ++ [.opened streamId] }
  | .readerSends circuit data =>
      if data ≠ [] ∧ data.length ≤ cellPayload then
        w.onReader circuit fun t =>
          { w with
            circuits := w.circuits.modify circuit fun t => { t with sent := t.sent ++ [data] }
            uplink := w.uplink ++ [⟨circuit, t.streamId, data⟩] }
      else none
  | .readerEof circuit =>
      w.onReader circuit fun t =>
        { w with
          circuits := w.circuits.modify circuit fun t => { t with reading := false }
          uplink := w.uplink ++ [⟨circuit, t.streamId, []⟩] }
  | .readerFails circuit =>
      w.onReader circuit fun _ =>
        { w with circuits := w.circuits.modify circuit fun t => { t with reading := false } }
  | .writerPolls circuit => w.onWriter circuit MuxCircuit.poll
  | .writerFails circuit n => w.onWriter circuit fun t => t.writeFails n
  | .serverReads prev =>
      match w.uplink with
      | [] => none
      | cell :: rest =>
          (w.server.readCell cell.streamId cell.data prev).map
            (demux { w with uplink := rest } cell)
  | .server e =>
      if e.isLocal then (w.server.step e).map fun server => { w with server } else none
  | .wireEnds => if w.server.ended then none else some { w with server := w.server.hangUp }
  | .bridgeSends relay data =>
      if data ≠ [] ∧ data.length ≤ cellPayload then
        w.onBridge relay fun b u => { w with
          downlink := w.downlink ++ [⟨u.owner, b.streamId, data⟩]
          replies := w.replies ++ [⟨relay, b.streamId, data⟩] }
      else none
  | .bridgeEof relay =>
      w.onBridge relay fun b u =>
        { w.endReader relay with downlink := w.downlink ++ [⟨u.owner, b.streamId, []⟩] }
  | .bridgeFails relay => w.onBridge relay fun _ _ => w.endReader relay
  | .clientReads =>
      match w.downlink with
      | [] => none
      | cell :: rest => some (receive { w with downlink := rest } cell)

-- ============================================================================
-- What a step does
-- ============================================================================

/-- The steps, case by case. -/
inductive Stepped (w : MuxTraffic) : Event → MuxTraffic → Prop where
  | saturated (hadd : w.addStream = none) : Stepped w .openCircuit w
  | opened {streamId nextId : UInt16} (hadd : w.addStream = some (streamId, nextId)) :
      Stepped w .openCircuit { w with
        nextId
        streamMap := w.streamMap.insert streamId w.circuits.length
        circuits := w.circuits ++ [.opened streamId] }
  | readerSends {circuit : Nat} {data : Bytes} {t : MuxCircuit} (ht : w.circuits[circuit]? = some t)
      (hreading : t.reading = true) (hdata : data ≠ []) :
      Stepped w (.readerSends circuit data) { w with
        circuits := w.circuits.modify circuit fun t => { t with sent := t.sent ++ [data] }
        uplink := w.uplink ++ [⟨circuit, t.streamId, data⟩] }
  | readerEof {circuit : Nat} {t : MuxCircuit} (ht : w.circuits[circuit]? = some t)
      (hreading : t.reading = true) :
      Stepped w (.readerEof circuit) { w with
        circuits := w.circuits.modify circuit fun t => { t with reading := false }
        uplink := w.uplink ++ [⟨circuit, t.streamId, []⟩] }
  | readerFails {circuit : Nat} {t : MuxCircuit} (ht : w.circuits[circuit]? = some t)
      (hreading : t.reading = true) :
      Stepped w (.readerFails circuit)
        { w with circuits := w.circuits.modify circuit fun t => { t with reading := false } }
  | writerPolls {circuit : Nat} {t t' : MuxCircuit} (ht : w.circuits[circuit]? = some t)
      (hpoll : t.poll = some t') :
      Stepped w (.writerPolls circuit)
        { w with circuits := w.circuits.modify circuit fun _ => t' }
  | writerFails {circuit n : Nat} {t t' : MuxCircuit} (ht : w.circuits[circuit]? = some t)
      (hfail : t.writeFails n = some t') :
      Stepped w (.writerFails circuit n)
        { w with circuits := w.circuits.modify circuit fun _ => t' }
  | serverReads {prev : Nat} {cell : TaggedCell} {rest : List TaggedCell} {server : Demux}
      (hup : w.uplink = cell :: rest) (hrunning : w.server.ended = false)
      (hrouted : (w.server.record cell.streamId cell.data).Routed cell.streamId cell.data prev
        server) :
      Stepped w (.serverReads prev) (demux { w with uplink := rest } cell server)
  | server {e : Demux.Event} {server : Demux} (hlocal : e.isLocal = true)
      (hstep : w.server.step e = some server) : Stepped w (.server e) { w with server }
  | wireEnds : Stepped w .wireEnds { w with server := w.server.hangUp }
  | bridgeSends {relay : Nat} {data : Bytes} {b : Bridge} {u : Upstream}
      (hb : w.server.bridges[relay]? = some b) (hu : w.upstreams[relay]? = some u)
      (hconn : b.relay.connected = true) (hrun : u.readerEnded = false) (hdata : data ≠ []) :
      Stepped w (.bridgeSends relay data) { w with
        downlink := w.downlink ++ [⟨u.owner, b.streamId, data⟩]
        replies := w.replies ++ [⟨relay, b.streamId, data⟩] }
  | bridgeEof {relay : Nat} {b : Bridge} {u : Upstream}
      (hb : w.server.bridges[relay]? = some b) (hu : w.upstreams[relay]? = some u)
      (hconn : b.relay.connected = true) (hrun : u.readerEnded = false) :
      Stepped w (.bridgeEof relay)
        { w.endReader relay with downlink := w.downlink ++ [⟨u.owner, b.streamId, []⟩] }
  | bridgeFails (relay : Nat) : Stepped w (.bridgeFails relay) (w.endReader relay)
  | clientReads {cell : TaggedCell} {rest : List TaggedCell} (hdown : w.downlink = cell :: rest) :
      Stepped w .clientReads (receive { w with downlink := rest } cell)

variable {w w' : MuxTraffic}

theorem onReader_eq_some {circuit : Nat} {f : MuxCircuit → MuxTraffic}
    (h : w.onReader circuit f = some w') :
    ∃ t, w.circuits[circuit]? = some t ∧ t.reading = true ∧ w' = f t := by
  obtain ⟨t, ht, h⟩ := Option.bind_eq_some_iff.mp h
  split at h
  · next hreading => exact ⟨t, ht, hreading, (Option.some.inj h).symm⟩
  · cases h

theorem onWriter_eq_some {circuit : Nat} {f : MuxCircuit → Option MuxCircuit}
    (h : w.onWriter circuit f = some w') :
    ∃ t t', w.circuits[circuit]? = some t ∧ f t = some t' ∧
      w' = { w with circuits := w.circuits.modify circuit fun _ => t' } := by
  obtain ⟨t, ht, h⟩ := Option.bind_eq_some_iff.mp h
  obtain ⟨t', ht', rfl⟩ := Option.map_eq_some_iff.mp h
  exact ⟨t, t', ht, ht', rfl⟩

theorem onBridge_eq_some {relay : Nat} {f : Bridge → Upstream → MuxTraffic}
    (h : w.onBridge relay f = some w') :
    ∃ b u, w.server.bridges[relay]? = some b ∧ w.upstreams[relay]? = some u ∧
      b.relay.connected = true ∧ u.readerEnded = false ∧ w' = f b u := by
  obtain ⟨b, hb, h⟩ := Option.bind_eq_some_iff.mp h
  obtain ⟨u, hu, h⟩ := Option.bind_eq_some_iff.mp h
  split at h
  · next hrun => exact ⟨b, u, hb, hu, hrun.1, hrun.2, (Option.some.inj h).symm⟩
  · cases h

theorem step_stepped {e : Event} (h : w.step e = some w') : w.Stepped e w' := by
  cases e with
  | openCircuit =>
      rw [step] at h
      split at h
      · next hadd =>
        obtain rfl := Option.some.inj h
        exact .saturated hadd
      · next streamId nextId hadd =>
        obtain rfl := Option.some.inj h
        exact .opened hadd
  | readerSends circuit data =>
      rw [step] at h
      split at h
      · next hdata =>
        obtain ⟨t, ht, hreading, rfl⟩ := onReader_eq_some h
        exact .readerSends ht hreading hdata.1
      · cases h
  | readerEof circuit =>
      rw [step] at h
      obtain ⟨t, ht, hreading, rfl⟩ := onReader_eq_some h
      exact .readerEof ht hreading
  | readerFails circuit =>
      rw [step] at h
      obtain ⟨t, ht, hreading, rfl⟩ := onReader_eq_some h
      exact .readerFails ht hreading
  | writerPolls circuit =>
      rw [step] at h
      obtain ⟨t, t', ht, hpoll, rfl⟩ := onWriter_eq_some h
      exact .writerPolls ht hpoll
  | writerFails circuit n =>
      rw [step] at h
      obtain ⟨t, t', ht, hfail, rfl⟩ := onWriter_eq_some h
      exact .writerFails ht hfail
  | serverReads prev =>
      rw [step] at h
      split at h
      · cases h
      · next cell rest hup =>
        obtain ⟨server, hserver, rfl⟩ := Option.map_eq_some_iff.mp h
        obtain ⟨hrunning, hrouted⟩ := Demux.readCell_eq_some hserver
        exact .serverReads hup hrunning hrouted
  | server e =>
      rw [step] at h
      split at h
      · next hlocal =>
        obtain ⟨server, hserver, rfl⟩ := Option.map_eq_some_iff.mp h
        exact .server hlocal hserver
      · cases h
  | wireEnds =>
      rw [step] at h
      split at h
      · cases h
      · obtain rfl := Option.some.inj h
        exact .wireEnds
  | bridgeSends relay data =>
      rw [step] at h
      split at h
      · next hdata =>
        obtain ⟨b, u, hb, hu, hconn, hrun, rfl⟩ := onBridge_eq_some h
        exact .bridgeSends hb hu hconn hrun hdata.1
      · cases h
  | bridgeEof relay =>
      rw [step] at h
      obtain ⟨b, u, hb, hu, hconn, hrun, rfl⟩ := onBridge_eq_some h
      exact .bridgeEof hb hu hconn hrun
  | bridgeFails relay =>
      rw [step] at h
      obtain ⟨b, u, -, -, -, -, rfl⟩ := onBridge_eq_some h
      exact .bridgeFails relay
  | clientReads =>
      rw [step] at h
      split at h
      · cases h
      · next cell rest hdown =>
        obtain rfl := Option.some.inj h
        exact .clientReads hdown

/-- What the inbound task does with a cell, case by case. -/
inductive Received (w : MuxTraffic) (cell : TaggedCell) : MuxTraffic → Prop where
  | absent (hl : w.streamMap.lookup cell.streamId = none) : Received w cell w
  | closes {c : Nat} (hl : w.streamMap.lookup cell.streamId = some c) (hdata : cell.data = []) :
      Received w cell
        { w.removeStream cell.streamId c with routed := w.routed ++ [(cell.circuit, c)] }
  | dangles {c : Nat} (hl : w.streamMap.lookup cell.streamId = some c) (hdata : cell.data ≠ [])
      (hc : w.circuits[c]? = none) : Received w cell w
  | delivers {c : Nat} {t : MuxCircuit} {rx : Chan Bytes streamChannelCap}
      (hl : w.streamMap.lookup cell.streamId = some c) (hdata : cell.data ≠ [])
      (ht : w.circuits[c]? = some t) (hsend : t.downRx.trySend cell.data = .ok rx) :
      Received w cell { w with
        circuits := w.circuits.modify c fun t => { t with downRx := rx }
        routed := w.routed ++ [(cell.circuit, c)] }
  | gone {c : Nat} {t : MuxCircuit} (hl : w.streamMap.lookup cell.streamId = some c)
      (hdata : cell.data ≠ []) (ht : w.circuits[c]? = some t)
      (hsend : t.downRx.trySend cell.data = .error .closed) :
      Received w cell
        { w.removeStream cell.streamId c with routed := w.routed ++ [(cell.circuit, c)] }
  | full {c : Nat} {t : MuxCircuit} (hl : w.streamMap.lookup cell.streamId = some c)
      (hdata : cell.data ≠ []) (ht : w.circuits[c]? = some t)
      (hsend : t.downRx.trySend cell.data = .error .full) : Received w cell w

theorem receive_received (w : MuxTraffic) (cell : TaggedCell) :
    w.Received cell (w.receive cell) := by
  rw [receive]
  split
  · next hl => exact .absent hl
  · next c hl =>
    split
    · next hdata => exact .closes hl hdata
    · next hdata =>
      split
      · next hc => exact .dangles hl hdata hc
      · next t ht =>
        split
        · next rx hsend => exact .delivers hl hdata ht hsend
        · next hsend => exact .gone hl hdata ht hsend
        · next hsend => exact .full hl hdata ht hsend

/-- The stream id of every circuit, in the order they were opened. -/
def ids (w : MuxTraffic) : List UInt16 := w.circuits.map MuxCircuit.streamId

theorem getElem?_ids {c : Nat} {t : MuxCircuit} (ht : w.circuits[c]? = some t) :
    w.ids[c]? = some t.streamId := by
  rw [ids, List.getElem?_map, ht, Option.map_some]

theorem ids_modify {i : Nat} {f : MuxCircuit → MuxCircuit}
    (hf : ∀ t, w.circuits[i]? = some t → (f t).streamId = t.streamId) :
    (w.circuits.modify i f).map MuxCircuit.streamId = w.ids :=
  Keyed.map_modify_same hf

theorem receive_delivers {cell : TaggedCell} {c : Nat} {t : MuxCircuit}
    {rx : Chan Bytes streamChannelCap} (hl : w.streamMap.lookup cell.streamId = some c)
    (hdata : cell.data ≠ []) (ht : w.circuits[c]? = some t)
    (hsend : t.downRx.trySend cell.data = .ok rx) :
    w.receive cell = { w with
      circuits := w.circuits.modify c fun t => { t with downRx := rx }
      routed := w.routed ++ [(cell.circuit, c)] } := by
  rw [receive, hl]
  simp only [if_neg hdata, ht, hsend]

/-- Only a new circuit adds an id. -/
theorem Stepped.ids_eq {e : Event} (h : w.Stepped e w') (hopen : e ≠ .openCircuit) :
    w'.ids = w.ids := by
  cases h with
  | saturated | opened => exact absurd rfl hopen
  | readerSends | readerEof | readerFails => exact ids_modify (by exact fun t _ => rfl)
  | writerPolls ht hpoll =>
      apply ids_modify
      intro t ht'
      obtain rfl := Option.some.inj (ht.symm.trans ht')
      exact (MuxCircuit.poll_frame hpoll).1
  | writerFails ht hfail =>
      apply ids_modify
      intro t ht'
      obtain rfl := Option.some.inj (ht.symm.trans ht')
      exact (MuxCircuit.writeFails_frame hfail).1
  | serverReads | server | wireEnds | bridgeSends | bridgeEof | bridgeFails => rfl
  | @clientReads cell rest =>
      generalize hw' : receive { w with downlink := rest } cell = v
      have hrec := receive_received { w with downlink := rest } cell
      rw [hw'] at hrec
      cases hrec with
      | absent | dangles | full => rfl
      | closes | gone => exact ids_modify (by exact fun t _ => rfl)
      | delivers => exact ids_modify (by exact fun t _ => rfl)

/-- No circuit is forgotten. -/
theorem step_ids {e : Event} (h : w.step e = some w') : w.ids <+: w'.ids := by
  have hstepped := step_stepped h
  by_cases hopen : e = .openCircuit
  · subst hopen
    cases hstepped with
    | saturated => exact List.prefix_rfl
    | opened =>
        rw [ids, ids, List.map_append]
        exact List.prefix_append _ _
  · rw [hstepped.ids_eq hopen]

theorem run_ids {events : List Event} (h : Machine.run step w events = some w') :
    w.ids <+: w'.ids :=
  Machine.run_invariant (I := fun v => w.ids <+: v.ids)
    (fun _ _ _ hv hstep => hv.trans (step_ids hstep)) List.prefix_rfl h

theorem getElem?_of_extends {α : Type} {xs ys : List α} (h : xs <+: ys) {c : Nat} {x : α}
    (hc : xs[c]? = some x) : ys[c]? = some x := by
  obtain ⟨more, rfl⟩ := h
  rw [List.getElem?_append_left (List.getElem?_eq_some_iff.mp hc).1, hc]

end MuxTraffic

-- ============================================================================
-- What moves at the server
-- ============================================================================

namespace BridgeRelay

/-- A relay moves on its own. -/
inductive Moved (r r' : BridgeRelay) : Prop where
  | poll (now : Instant) (h : r.poll now = some r')
  | deadline (now : Instant) (h : r.fireDeadline now = some r')
  | connectFails (h : r.connectFails = some r')
  | writeFails (n : Nat) (h : r.writeFails n = some r')

variable {r r' : BridgeRelay}

theorem Moved.accounted (h : r.Moved r') (hr : r.Accounted) : r'.Accounted := by
  cases h with
  | poll now h => exact hr.poll h
  | deadline now h => exact hr.fireDeadline h
  | connectFails h => exact hr.connectFails h
  | writeFails n h => exact hr.writeFails h

/-- The history of the channel is made by the demux alone. -/
theorem Moved.sent (h : r.Moved r') : r'.dataRx.sent = r.dataRx.sent := by
  cases h with
  | poll now h => exact (poll_frame h).2.2.1
  | deadline now h =>
      obtain ⟨-, rfl⟩ := fireDeadline_eq_some h
      rfl
  | connectFails h =>
      obtain ⟨-, -, rfl⟩ := connectFails_eq_some h
      rfl
  | writeFails n h =>
      obtain ⟨-, -, rx, -, -, hsent, rfl⟩ := writeFails_eq_some h
      exact hsent

/-- A task that is over does nothing more. -/
theorem Moved.over (h : r.Moved r') (hover : r.Over) :
    r'.Over ∧ r'.connected = r.connected := by
  cases h with
  | poll now h =>
      rcases hover with hp | hp <;> simp only [BridgeRelay.poll, hp] at h <;> cases h
  | deadline now h =>
      obtain ⟨-, rfl⟩ := fireDeadline_eq_some h
      exact ⟨hover, rfl⟩
  | connectFails h =>
      obtain ⟨held, hphase, -⟩ := connectFails_eq_some h
      rcases hover with hp | hp <;> cases hphase.symm.trans hp
  | writeFails n h =>
      obtain ⟨-, -, -, ⟨held, hphase⟩, -⟩ := writeFails_eq_some h
      rcases hover with hp | hp <;> cases hphase.symm.trans hp

/-- A connection that was opened stays opened. -/
theorem Moved.connected (h : r.Moved r') (hr : r.connected = true) : r'.connected = true := by
  cases h with
  | poll now h => cases polled_of_poll h <;> first | exact hr | rfl
  | deadline now h =>
      obtain ⟨-, rfl⟩ := fireDeadline_eq_some h
      exact hr
  | connectFails h =>
      obtain ⟨-, -, rfl⟩ := connectFails_eq_some h
      exact hr
  | writeFails n h =>
      obtain ⟨-, -, -, -, -, -, rfl⟩ := writeFails_eq_some h
      exact hr

/-- No connection was opened and none will be. -/
def NeverConnects (r : BridgeRelay) : Prop := r.connected = false ∧ r.Over

theorem Moved.neverConnects (h : r.Moved r') (hr : r.NeverConnects) : r'.NeverConnects := by
  obtain ⟨hover, hsame⟩ := h.over hr.2
  exact ⟨hsame.trans hr.1, hover⟩

end BridgeRelay

/-- What a cell leaves as it is at every relay. -/
def Bridge.standing (b : Bridge) : UInt16 × RelayPhase × Bool × List Bytes × List Bytes :=
  (b.streamId, b.relay.phase, b.relay.connected, b.relay.written, b.relay.dataRx.received)

namespace Bridge

variable {b b' : Bridge}

theorem streamId_of_standing (h : b'.standing = b.standing) : b'.streamId = b.streamId :=
  congrArg Prod.fst h

theorem connected_of_standing (h : b'.standing = b.standing) :
    b'.relay.connected = b.relay.connected :=
  congrArg (fun v => v.2.2.1) h

theorem over_of_standing (h : b'.standing = b.standing) (hb : b.relay.Over) : b'.relay.Over := by
  have hphase : b'.relay.phase = b.relay.phase := congrArg (fun v => v.2.1) h
  rw [BridgeRelay.Over, hphase]
  exact hb

theorem neverConnects_of_standing (h : b'.standing = b.standing) (hb : b.relay.NeverConnects) :
    b'.relay.NeverConnects :=
  ⟨(connected_of_standing h).trans hb.1, over_of_standing h hb.2⟩

end Bridge

namespace Demux

variable {d d' : Demux} {streamId : UInt16} {data : Bytes} {prev : Nat}

/-- What happens between two cells moves one relay at most. -/
theorem local_cases {e : Event} (hlocal : e.isLocal = true) (h : d.step e = some d') :
    (∃ now, d' = { d with now }) ∨
      ∃ i b r, d.bridges[i]? = some b ∧ b.relay.Moved r ∧ d' = d.modifyRelay i fun _ => r := by
  cases e with
  | cell | wireEnds => cases hlocal
  | advance elapsed => exact .inl ⟨_, (Option.some.inj h).symm⟩
  | poll i =>
      rw [step] at h
      obtain ⟨b, r, hb, hr, rfl⟩ := onRelay_eq_some h
      exact .inr ⟨i, b, r, hb, .poll _ hr, rfl⟩
  | deadline i =>
      rw [step] at h
      obtain ⟨b, r, hb, hr, rfl⟩ := onRelay_eq_some h
      exact .inr ⟨i, b, r, hb, .deadline _ hr, rfl⟩
  | connectFails i =>
      rw [step] at h
      obtain ⟨b, r, hb, hr, rfl⟩ := onRelay_eq_some h
      exact .inr ⟨i, b, r, hb, .connectFails hr, rfl⟩
  | writeFails i n =>
      rw [step] at h
      obtain ⟨b, r, hb, hr, rfl⟩ := onRelay_eq_some h
      exact .inr ⟨i, b, r, hb, .writeFails n hr, rfl⟩

/-- A change of the channel of one relay. -/
theorem standing_modifyRelay {i : Nat} {f : BridgeRelay → BridgeRelay}
    (hf : ∀ b, d.bridges[i]? = some b →
      Bridge.standing { b with relay := f b.relay } = b.standing) :
    (d.modifyRelay i f).bridges.map Bridge.standing = d.bridges.map Bridge.standing :=
  Keyed.map_modify_same hf

theorem standing_closeStream (d : Demux) (streamId : UInt16) :
    (d.closeStream streamId).bridges.map Bridge.standing = d.bridges.map Bridge.standing := by
  rw [closeStream]
  split
  · rfl
  · exact standing_modifyRelay fun b _ => rfl

theorem standing_hangUp (d : Demux) :
    d.hangUp.bridges.map Bridge.standing = d.bridges.map Bridge.standing := by
  rw [hangUp, List.map_map]
  rfl

/-- A cell spawns one relay at most, of its own stream, and moves none. -/
theorem routed_standing (h : (d.record streamId data).Routed streamId data prev d') :
    d'.bridges.map Bridge.standing = d.bridges.map Bridge.standing ∨
      data ≠ [] ∧ d'.bridges.map Bridge.standing
        = d.bridges.map Bridge.standing ++ [(streamId, .spawned, false, [], [])] := by
  have hrec : (d.record streamId data).bridges.map Bridge.standing
      = d.bridges.map Bridge.standing := by rw [record_bridges]
  cases h with
  | closes | gone => exact .inl ((standing_closeStream _ _).trans hrec)
  | dangles | full | globalCap => exact .inl hrec
  | wireCap => exact .inl ((standing_hangUp _).trans hrec)
  | sends _ _ hb hsend =>
      refine .inl ((standing_modifyRelay ?_).trans hrec)
      intro b' hb'
      obtain rfl := Option.some.inj (hb.symm.trans hb')
      rw [Bridge.standing, Bridge.standing, (Chan.trySend_eq_ok hsend).2.2.2.1]
  | opens hdata _ _ _ hsend =>
      refine .inr ⟨hdata, (standing_modifyRelay ?_).trans ?_⟩
      · intro b' hb'
        obtain rfl := Option.some.inj ((getElem?_openBridge_last _ _).symm.trans hb')
        rw [Bridge.standing, Bridge.standing, (Chan.trySend_eq_ok hsend).2.2.2.1]
        rfl
      · rw [← hrec]
        exact List.map_append

theorem routed_length (h : (d.record streamId data).Routed streamId data prev d') :
    d'.bridges.length = d.bridges.length ∨ d'.bridges.length = d.bridges.length + 1 := by
  rcases routed_standing h with hsame | ⟨-, hnew⟩
  · exact .inl (by simpa using congrArg List.length hsame)
  · exact .inr (by simpa using congrArg List.length hnew)

/-- A cell takes no relay away. -/
theorem routed_kept (h : (d.record streamId data).Routed streamId data prev d') {i : Nat}
    {b : Bridge} (hb : d.bridges[i]? = some b) :
    ∃ b', d'.bridges[i]? = some b' ∧ b'.standing = b.standing := by
  have hold : (d.bridges.map Bridge.standing)[i]? = some b.standing := by
    rw [List.getElem?_map, hb]
    rfl
  have hnew : (d'.bridges.map Bridge.standing)[i]? = some b.standing := by
    rcases routed_standing h with hsame | ⟨-, hmore⟩
    · rw [hsame, hold]
    · rw [hmore, List.getElem?_append_left (List.getElem?_eq_some_iff.mp hold).1, hold]
  rw [List.getElem?_map] at hnew
  exact Option.map_eq_some_iff.mp hnew

/-- The relays after a cell, seen from one of them. -/
theorem routed_getElem? (h : (d.record streamId data).Routed streamId data prev d') {i : Nat}
    {b' : Bridge} (hb' : d'.bridges[i]? = some b') :
    (∃ b, d.bridges[i]? = some b ∧ b'.standing = b.standing) ∨
      i = d.bridges.length ∧ d'.bridges.length = d.bridges.length + 1 ∧ data ≠ [] ∧
        b'.standing = (streamId, .spawned, false, [], []) := by
  have hmap : (d'.bridges.map Bridge.standing)[i]? = some b'.standing := by
    rw [List.getElem?_map, hb']
    rfl
  rcases routed_standing h with hsame | ⟨hdata, hnew⟩
  · rw [hsame, List.getElem?_map] at hmap
    obtain ⟨b, hb, hst⟩ := Option.map_eq_some_iff.mp hmap
    exact .inl ⟨b, hb, hst.symm⟩
  · have hlen : d'.bridges.length = d.bridges.length + 1 := by
      simpa using congrArg List.length hnew
    rw [hnew] at hmap
    by_cases hi : i < d.bridges.length
    · rw [List.getElem?_append_left (by simpa using hi), List.getElem?_map] at hmap
      obtain ⟨b, hb, hst⟩ := Option.map_eq_some_iff.mp hmap
      exact .inl ⟨b, hb, hst.symm⟩
    · have hlt := (List.getElem?_eq_some_iff.mp hb').1
      have hieq : i = d.bridges.length := by omega
      subst hieq
      rw [List.getElem?_append_right (by simp)] at hmap
      simp only [List.length_map, Nat.sub_self, List.getElem?_cons_zero] at hmap
      exact .inr ⟨rfl, hlen, hdata, (Option.some.inj hmap).symm⟩

end Demux

end MixTor
