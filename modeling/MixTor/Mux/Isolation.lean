/-
  MixTor.Mux.Isolation

  Circuits on one wire do not disturb each other (transport.rs).

  Both ends of a mux wire sort cells by stream id into one channel a stream.  A
  cell can be lost on the way (its channel is full or gone, its stream is not in
  the map, a cap is reached), and a task can end at any point.  As long as no
  stream id is used twice, what comes out for an id is nevertheless a part of
  what went in for it, in order and nothing twice.

  In each direction the invariant is one statement for each stream id: what its
  channels have taken, followed by what is on the way, is a sublist of what was
  put in.
-/

import MixTor.Mux.MuxTraffic
import MixTor.Lib.Segments

namespace MixTor

open Channel
open Crypto (Bytes)
open Keyed (gather Latest)
open Segments (CutOff cutOff_nil cutOff_self)

/-- What a cell carries: a close carries nothing. -/
def TaggedCell.chunks (cell : TaggedCell) : List Bytes :=
  if cell.data = [] then [] else [cell.data]

-- ============================================================================
-- What went in and what came out
-- ============================================================================

/-- What was handed to the relays of a stream id, relay by relay. -/
def Demux.handed (d : Demux) (s : UInt16) : List Bytes :=
  gather Bridge.streamId (fun b => b.relay.dataRx.sent) s d.bridges

namespace MuxTraffic

/-- What the circuits of a stream id have sent. -/
def sentUp (w : MuxTraffic) (s : UInt16) : List Bytes :=
  gather MuxCircuit.streamId MuxCircuit.sent s w.circuits

def onUplink (w : MuxTraffic) (s : UInt16) : List Bytes :=
  gather TaggedCell.streamId TaggedCell.chunks s w.uplink

/-- What was read from the upstream connections of a stream id. -/
def replied (w : MuxTraffic) (s : UInt16) : List Bytes :=
  gather Reply.streamId (fun r => [r.data]) s w.replies

def onDownlink (w : MuxTraffic) (s : UInt16) : List Bytes :=
  gather TaggedCell.streamId TaggedCell.chunks s w.downlink

/-- What was handed to the writers of the circuits of a stream id. -/
def handedDown (w : MuxTraffic) (s : UInt16) : List Bytes :=
  gather MuxCircuit.streamId (fun t => t.downRx.sent) s w.circuits

/-- **Nothing foreign, nothing twice, nothing out of order**, in either direction. -/
structure Isolated (w : MuxTraffic) : Prop where
  /-- A circuit writes, up to a point, the chunks it was handed, which are some of
      those read from the upstream connections of its id, in the order of the reads. -/
  down : ∀ t ∈ w.circuits, CutOff t.written t.downRx.sent ∧
    t.downRx.sent.Sublist (w.replied t.streamId)
  /-- Every chunk that counts as read for an id was read by a relay of that id, from
      the connection it had opened. -/
  replies : ∀ r ∈ w.replies, ∃ b, w.server.bridges[r.relay]? = some b ∧
    b.streamId = r.streamId ∧ b.relay.connected = true
  /-- A relay writes, up to a point, the chunks it was handed, and what the relays of
      its id were handed one after the other are some of those that the circuit of
      the id has sent, in the order it sent them. -/
  up : ∀ b ∈ w.server.bridges, CutOff b.relay.written b.relay.dataRx.sent ∧
    ∃ t ∈ w.circuits, t.streamId = b.streamId ∧ (w.server.handed b.streamId).Sublist t.sent

end MuxTraffic

-- ============================================================================
-- Chunk by chunk
-- ============================================================================

namespace BridgeRelay

variable {r r' : BridgeRelay} {now : Instant}

/-- A relay writes the chunks it took, one after the other. -/
def WritesChunks (r : BridgeRelay) : Prop := CutOff r.written r.dataRx.received

theorem cutOff_of_take {written held received : List Bytes} {data : Bytes} (n : Nat)
    (h : written ++ data :: held = received) : CutOff (written ++ [data.take n]) received :=
  .inr ⟨written, data, held, n, h.symm, rfl⟩

theorem writesChunks_poll (h : r.WritesChunks) (hacc : r.Accounted) (hpoll : r.poll now = some r') :
    r'.WritesChunks := by
  have hacc' := hacc.poll hpoll
  cases polled_of_poll hpoll with
  | holds | opens | released | connects => exact h
  | abandons | shuts => exact h
  | pulls hp =>
      rw [Accounted, hp] at hacc
      rw [WritesChunks, hacc.1]
      exact cutOff_nil _
  | flushes hp => exact .inl ⟨_, (accounted_relaying rfl).mp hacc'⟩
  | forwards hp =>
      rw [Accounted] at hacc'
      simp only [hp] at hacc'
      exact .inl ⟨_, hacc'⟩

theorem Moved.writesChunks (h : r.Moved r') (hacc : r.Accounted) (hr : r.WritesChunks) :
    r'.WritesChunks := by
  cases h with
  | poll now h => exact writesChunks_poll hr hacc h
  | deadline now h =>
      obtain ⟨-, rfl⟩ := fireDeadline_eq_some h
      exact hr
  | connectFails h =>
      obtain ⟨-, -, rfl⟩ := connectFails_eq_some h
      exact hr
  | writeFails n h =>
      obtain ⟨data, held, rx, -, hreceived, -, rfl⟩ := writeFails_eq_some h
      exact cutOff_of_take n (hreceived hacc)

end BridgeRelay

/-- What is accounted for, and chunk by chunk, shows in what a cell leaves as it is. -/
theorem Bridge.writes_of_standing {b b' : Bridge} (h : b'.standing = b.standing)
    (hacc : b.relay.Accounted) (hwrites : b.relay.WritesChunks) :
    b'.relay.Accounted ∧ b'.relay.WritesChunks := by
  have hphase : b'.relay.phase = b.relay.phase := congrArg (fun v => v.2.1) h
  have hwritten : b'.relay.written = b.relay.written := congrArg (fun v => v.2.2.2.1) h
  have hreceived : b'.relay.dataRx.received = b.relay.dataRx.received :=
    congrArg (fun v => v.2.2.2.2) h
  rw [BridgeRelay.Accounted, BridgeRelay.WritesChunks, hphase, hwritten, hreceived]
  exact ⟨hacc, hwrites⟩

/-- A relay that was just spawned has taken and written nothing. -/
theorem Bridge.writes_of_spawned {b : Bridge} {s : UInt16}
    (h : b.standing = (s, .spawned, false, [], [])) :
    b.relay.Accounted ∧ b.relay.WritesChunks := by
  have hphase : b.relay.phase = .spawned := congrArg (fun v => v.2.1) h
  have hwritten : b.relay.written = [] := congrArg (fun v => v.2.2.2.1) h
  have hreceived : b.relay.dataRx.received = [] := congrArg (fun v => v.2.2.2.2) h
  rw [BridgeRelay.Accounted, BridgeRelay.WritesChunks, hphase, hwritten, hreceived]
  exact ⟨⟨rfl, rfl⟩, cutOff_nil _⟩

namespace MuxCircuit

variable {t t' : MuxCircuit}

/-- A circuit writes the chunks it took, one after the other; while its writer runs
    nothing is cut off. -/
structure WritesChunks (t : MuxCircuit) : Prop where
  whole : t.writing = true → t.written = t.downRx.received
  cut : CutOff t.written t.downRx.received

theorem writesChunks_opened (s : UInt16) : (opened s).WritesChunks := ⟨fun _ => rfl, cutOff_self _⟩

theorem WritesChunks.poll (h : t.WritesChunks) (hpoll : t.poll = some t') : t'.WritesChunks := by
  cases polled_of_poll hpoll with
  | @takes data rx hwriting hrecv =>
      have hnew : t.written ++ [data] = rx.received := by
        rw [h.whole hwriting, (Chan.tryRecv_eq_ok hrecv).2]
      exact ⟨fun _ => hnew, hnew ▸ cutOff_self _⟩
  | ends => exact ⟨fun hwriting => absurd hwriting Bool.false_ne_true, h.cut⟩

theorem WritesChunks.writeFails {n : Nat} (h : t.WritesChunks)
    (hfail : t.writeFails n = some t') : t'.WritesChunks := by
  obtain ⟨data, rx, hwriting, hrecv, rfl⟩ := writeFails_eq_some hfail
  have hreceived : t.written ++ [data] = rx.received := by
    rw [h.whole hwriting, (Chan.tryRecv_eq_ok hrecv).2]
  exact ⟨fun hwriting => absurd hwriting Bool.false_ne_true,
    BridgeRelay.cutOff_of_take n hreceived⟩

end MuxCircuit

-- ============================================================================
-- The demux, stream by stream
-- ============================================================================

namespace Demux

variable {d d' : Demux} {streamId s : UInt16} {data : Bytes} {prev : Nat}

/-- The id of every relay, in the order they were spawned. -/
def ids (d : Demux) : List UInt16 := d.bridges.map Bridge.streamId

/-- A sender in the map is the one of the last relay of its id. -/
def MapsLatest (d : Demux) : Prop := ∀ s i, d.streamMap.lookup s = some i → Latest d.ids i s

theorem length_ids (d : Demux) : d.ids.length = d.bridges.length := List.length_map _

theorem ids_modifyRelay (d : Demux) (i : Nat) (f : BridgeRelay → BridgeRelay) :
    (d.modifyRelay i f).ids = d.ids := Keyed.map_modify_same fun _ _ => rfl

theorem ids_openBridge (d : Demux) (streamId : UInt16) :
    (d.openBridge streamId).ids = d.ids ++ [streamId] := List.map_append

theorem ids_of_standing {standing : List (UInt16 × RelayPhase × Bool × List Bytes × List Bytes)}
    (h : d'.bridges.map Bridge.standing = standing) : d'.ids = standing.map Prod.fst := by
  rw [← h, List.map_map]
  rfl

theorem ids_routed (h : (d.record streamId data).Routed streamId data prev d') :
    d'.ids = d.ids ∨ data ≠ [] ∧ d'.ids = d.ids ++ [streamId] := by
  have hold : d.ids = (d.bridges.map Bridge.standing).map Prod.fst := ids_of_standing rfl
  rcases routed_standing h with hsame | ⟨hdata, hnew⟩
  · exact .inl ((ids_of_standing hsame).trans hold.symm)
  · refine .inr ⟨hdata, (ids_of_standing hnew).trans ?_⟩
    rw [List.map_append, ← hold]
    rfl

theorem MapsLatest.closeStream (h : d.MapsLatest) (streamId : UInt16) :
    (d.closeStream streamId).MapsLatest := by
  have hids : (d.closeStream streamId).ids = d.ids := by
    rw [ids_of_standing (standing_closeStream d streamId), List.map_map]
    rfl
  intro s i hl
  rw [hids]
  rw [Demux.closeStream] at hl
  split at hl
  · exact h s i hl
  · change (d.streamMap.erase streamId).lookup s = some i at hl
    by_cases hs : s = streamId
    · subst hs
      rw [AList.lookup_erase] at hl
      cases hl
    · exact h s i ((AList.lookup_erase_ne hs).symm.trans hl)

theorem MapsLatest.record (h : d.MapsLatest) (streamId : UInt16) (data : Bytes) :
    (d.record streamId data).MapsLatest := by
  intro s i hl
  rw [record_streamMap] at hl
  rw [ids, record_bridges]
  exact h s i hl

theorem MapsLatest.routed (h : d.MapsLatest)
    (hrouted : (d.record streamId data).Routed streamId data prev d') : d'.MapsLatest := by
  have hrec := h.record streamId data
  cases hrouted with
  | closes | gone => exact hrec.closeStream streamId
  | dangles | full | globalCap => exact hrec
  | wireCap =>
      intro s i hl
      change (∅ : StreamMap Nat).lookup s = some i at hl
      rw [AList.lookup_empty] at hl
      cases hl
  | sends =>
      intro s i hl
      rw [ids_modifyRelay]
      exact hrec s i hl
  | opens =>
      intro s i hl
      rw [ids_modifyRelay, ids_openBridge]
      change ((d.record streamId data).streamMap.insert streamId
        (d.record streamId data).bridges.length).lookup s = some i at hl
      by_cases hs : s = streamId
      · subst hs
        rw [AList.lookup_insert] at hl
        obtain rfl := Option.some.inj hl
        rw [← length_ids]
        exact Keyed.latest_concat _ _
      · exact (hrec s i ((AList.lookup_insert_ne hs).symm.trans hl)).concat hs

theorem handed_closeStream (d : Demux) (streamId s : UInt16) :
    (d.closeStream streamId).handed s = d.handed s := by
  rw [closeStream]
  split
  · rfl
  · exact Keyed.gather_modify_same fun b _ => ⟨rfl, rfl⟩

theorem handed_hangUp (d : Demux) (s : UInt16) : d.hangUp.handed s = d.handed s := by
  apply Keyed.gather_congr
  rw [hangUp, List.map_map]
  rfl

theorem handed_record (d : Demux) (streamId : UInt16) (data : Bytes) (s : UInt16) :
    (d.record streamId data).handed s = d.handed s := by
  rw [handed, record_bridges, handed]

/-- A cell is handed to the last relay of its stream, or to none. -/
theorem handed_routed (hmap : d.MapsLatest)
    (h : (d.record streamId data).Routed streamId data prev d') :
    (∀ s, d'.handed s = d.handed s) ∨
      data ≠ [] ∧ ∀ s, d'.handed s = d.handed s ++ if streamId = s then [data] else [] := by
  cases h with
  | closes | gone =>
      exact .inl fun s => (handed_closeStream _ _ s).trans (handed_record d streamId data s)
  | dangles | full | globalCap => exact .inl (handed_record d streamId data)
  | wireCap => exact .inl fun s => (handed_hangUp _ s).trans (handed_record d streamId data s)
  | @sends i b rx hdata hl hb hsend =>
      refine .inr ⟨hdata, fun s => ?_⟩
      have hlast := hmap.record streamId data streamId i hl
      have hid : b.streamId = streamId := by
        have hget := hlast.1
        rw [ids, List.getElem?_map, hb] at hget
        exact Option.some.inj hget
      have hsent : rx.sent = b.relay.dataRx.sent ++ [data] := Chan.trySend_sent hsend
      rw [← handed_record d streamId data s, handed, modifyRelay,
        Keyed.gather_modify_last hb (hid ▸ hlast) rfl hsent, hid]
      rfl
  | @opens rx hdata hl hwire hglobal hsend =>
      refine .inr ⟨hdata, fun s => ?_⟩
      have hsent : rx.sent = [data] := Chan.trySend_sent hsend
      have hlast : Latest ((d.record streamId data).openBridge streamId).ids
          (d.record streamId data).bridges.length streamId := by
        rw [ids_openBridge, ← length_ids]
        exact Keyed.latest_concat _ _
      rw [← handed_record d streamId data s, handed, modifyRelay,
        Keyed.gather_modify_last (getElem?_openBridge_last _ _) hlast rfl hsent, openBridge,
        Keyed.gather_concat_of_nil rfl]
      rfl

theorem ids_hangUp (d : Demux) : d.hangUp.ids = d.ids := by
  rw [ids, hangUp, List.map_map]
  rfl

theorem ids_local {e : Event} (hlocal : e.isLocal = true) (h : d.step e = some d') :
    d'.ids = d.ids := by
  rcases local_cases hlocal h with ⟨now, rfl⟩ | ⟨i, b, r, hb, hmoved, rfl⟩
  · rfl
  · exact ids_modifyRelay _ _ _

theorem handed_local {e : Event} (hlocal : e.isLocal = true) (h : d.step e = some d')
    (s : UInt16) : d'.handed s = d.handed s := by
  rcases local_cases hlocal h with ⟨now, rfl⟩ | ⟨i, b, r, hb, hmoved, rfl⟩
  · rfl
  · apply Keyed.gather_modify_same
    intro b' hb'
    obtain rfl := Option.some.inj (hb.symm.trans hb')
    exact ⟨rfl, hmoved.sent⟩

end Demux

-- ============================================================================
-- Every id on the wire was given to a circuit
-- ============================================================================

namespace MuxTraffic

variable {w w' : MuxTraffic}

/-- Every stream id in use was given to a circuit. -/
structure Known (ids : List UInt16) (w : MuxTraffic) : Prop where
  streamMap : ∀ s c, w.streamMap.lookup s = some c → ids[c]? = some s
  uplink : ∀ cell ∈ w.uplink, cell.streamId ∈ ids
  bridges : ∀ b ∈ w.server.bridges, b.streamId ∈ ids
  downlink : ∀ cell ∈ w.downlink, cell.streamId ∈ ids
  replies : ∀ r ∈ w.replies, r.streamId ∈ ids

theorem known_new (tail : TailPolicy) (now : Instant) :
    (new tail now).Known (new tail now).ids where
  streamMap s c hl := by
    rw [new, AList.lookup_empty] at hl
    cases hl
  uplink _ hmem := absurd hmem List.not_mem_nil
  bridges _ hmem := absurd hmem List.not_mem_nil
  downlink _ hmem := absurd hmem List.not_mem_nil
  replies _ hmem := absurd hmem List.not_mem_nil

variable {ids : List UInt16}

theorem Known.openCircuit (h : w.Known w.ids) (s nextId : UInt16) :
    Known (w.ids ++ [s]) { w with
      nextId
      streamMap := w.streamMap.insert s w.circuits.length
      circuits := w.circuits ++ [.opened s] } := by
  have hlen : w.ids.length = w.circuits.length := List.length_map _
  have hgrow : w.ids ⊆ w.ids ++ [s] := List.subset_append_left _ _
  constructor
  case streamMap =>
    intro s' c hl
    by_cases hs : s' = s
    · subst hs
      rw [AList.lookup_insert] at hl
      obtain rfl := Option.some.inj hl
      rw [← hlen]
      exact List.getElem?_concat_length
    · rw [AList.lookup_insert_ne hs] at hl
      have hget := h.streamMap s' c hl
      rw [List.getElem?_append_left (List.getElem?_eq_some_iff.mp hget).1, hget]
  case uplink => exact fun cell hmem => hgrow (h.uplink cell hmem)
  case bridges => exact fun b hmem => hgrow (h.bridges b hmem)
  case downlink => exact fun cell hmem => hgrow (h.downlink cell hmem)
  case replies => exact fun r hmem => hgrow (h.replies r hmem)

theorem Known.sendUp (h : w.Known ids) {cell : TaggedCell} (hcell : cell.streamId ∈ ids) :
    Known ids { w with uplink := w.uplink ++ [cell] } where
  streamMap := h.streamMap
  bridges := h.bridges
  downlink := h.downlink
  replies := h.replies
  uplink cell' hmem := by
    rcases List.mem_append.mp hmem with hold | hnew
    · exact h.uplink cell' hold
    · obtain rfl := List.mem_singleton.mp hnew
      exact hcell

theorem Known.sendDown (h : w.Known ids) {cell : TaggedCell} (hcell : cell.streamId ∈ ids) :
    Known ids { w with downlink := w.downlink ++ [cell] } where
  streamMap := h.streamMap
  uplink := h.uplink
  bridges := h.bridges
  replies := h.replies
  downlink cell' hmem := by
    rcases List.mem_append.mp hmem with hold | hnew
    · exact h.downlink cell' hold
    · obtain rfl := List.mem_singleton.mp hnew
      exact hcell

theorem Known.reply (h : w.Known ids) {r : Reply} (hr : r.streamId ∈ ids) :
    Known ids { w with replies := w.replies ++ [r] } where
  streamMap := h.streamMap
  uplink := h.uplink
  bridges := h.bridges
  downlink := h.downlink
  replies r' hmem := by
    rcases List.mem_append.mp hmem with hold | hnew
    · exact h.replies r' hold
    · obtain rfl := List.mem_singleton.mp hnew
      exact hr

theorem Known.server (h : w.Known ids) {server : Demux} (hids : server.ids ⊆ ids) :
    Known ids { w with server } where
  streamMap := h.streamMap
  uplink := h.uplink
  downlink := h.downlink
  replies := h.replies
  bridges b hb := hids (List.mem_map.mpr ⟨b, hb, rfl⟩)

theorem Known.relays (h : w.Known ids) : w.server.ids ⊆ ids := by
  intro s hs
  obtain ⟨b, hb, rfl⟩ := List.mem_map.mp hs
  exact h.bridges b hb

theorem Known.serverReads (h : w.Known ids) {prev : Nat} {cell : TaggedCell}
    {rest : List TaggedCell} {server : Demux} (hup : w.uplink = cell :: rest)
    (hrouted : (w.server.record cell.streamId cell.data).Routed cell.streamId cell.data prev
      server) : Known ids (demux { w with uplink := rest } cell server) := by
  have hcell : cell.streamId ∈ ids := h.uplink cell (hup ▸ List.mem_cons_self)
  have hids : server.ids ⊆ ids := by
    rcases Demux.ids_routed hrouted with hsame | ⟨-, hmore⟩
    · rw [hsame]
      exact h.relays
    · rw [hmore]
      exact List.append_subset.mpr ⟨h.relays, List.cons_subset.mpr ⟨hcell, List.nil_subset _⟩⟩
  have hread : Known ids { w with uplink := rest } :=
    { h with uplink := fun c hc => h.uplink c (hup ▸ List.mem_cons_of_mem _ hc) }
  by_cases hdata : cell.data = []
  · simp only [demux, if_pos hdata]
    exact { (hread.server hids).sendDown hcell with }
  · simp only [demux, if_neg hdata]
    exact { hread.server hids with }

theorem Known.removeStream (h : w.Known ids) (s : UInt16) (c : Nat) :
    (w.removeStream s c).Known ids := by
  refine { h with streamMap := ?_ }
  intro s' c' hl
  change (w.streamMap.erase s).lookup s' = some c' at hl
  by_cases hs : s' = s
  · subst hs
    rw [AList.lookup_erase] at hl
    cases hl
  · exact h.streamMap s' c' ((AList.lookup_erase_ne hs).symm.trans hl)

theorem Known.receive (h : w.Known ids) {cell : TaggedCell} (hrec : w.Received cell w') :
    w'.Known ids := by
  cases hrec with
  | absent | dangles | full => exact h
  | @closes c | @gone c => exact { h.removeStream cell.streamId c with }
  | delivers => exact { h with }

theorem Known.stepped {e : Event} (h : w.Known w.ids) (hstep : w.Stepped e w') :
    w'.Known w'.ids := by
  by_cases hopen : e = .openCircuit
  · subst hopen
    cases hstep with
    | saturated => exact h
    | @opened s nextId =>
        have hids : (w.circuits ++ [MuxCircuit.opened s]).map MuxCircuit.streamId = w.ids ++ [s] :=
          List.map_append
        rw [MuxTraffic.ids, hids]
        exact h.openCircuit s nextId
  · rw [hstep.ids_eq hopen]
    cases hstep with
    | saturated | opened => exact absurd rfl hopen
    | readerSends ht | readerEof ht =>
        exact { h.sendUp (List.mem_of_getElem? (getElem?_ids ht)) with }
    | readerFails | writerPolls | writerFails | bridgeFails => exact { h with }
    | serverReads hup _ hrouted => exact h.serverReads hup hrouted
    | server hlocal hlocalStep =>
        apply h.server
        rw [Demux.ids_local hlocal hlocalStep]
        exact h.relays
    | wireEnds =>
        apply h.server
        rw [Demux.ids_hangUp]
        exact h.relays
    | bridgeSends hb =>
        have hid := h.bridges _ (List.mem_of_getElem? hb)
        exact { (h.sendDown hid).reply hid with }
    | bridgeEof hb => exact { h.sendDown (h.bridges _ (List.mem_of_getElem? hb)) with }
    | @clientReads cell rest hdown =>
        have hread : Known w.ids { w with downlink := rest } :=
          { h with downlink := fun c hc => h.downlink c (hdown ▸ List.mem_cons_of_mem _ hc) }
        exact hread.receive (receive_received _ _)

end MuxTraffic

-- ============================================================================
-- From the circuits to the bridges
-- ============================================================================

namespace MuxTraffic

variable {w w' : MuxTraffic}

/-- The uplink invariant. -/
structure Uplinked (w : MuxTraffic) : Prop where
  relays : ∀ b ∈ w.server.bridges, b.relay.Accounted ∧ b.relay.WritesChunks
  mapsLatest : w.server.MapsLatest
  order : ∀ s, (w.server.handed s ++ w.onUplink s).Sublist (w.sentUp s)

theorem uplinked_new (tail : TailPolicy) (now : Instant) : (new tail now).Uplinked where
  relays _ hmem := absurd hmem List.not_mem_nil
  mapsLatest s i hl := by
    rw [new, Demux.new, AList.lookup_empty] at hl
    cases hl
  order _ := List.Sublist.refl _

/-- Nothing is sent and nothing is read. -/
theorem Uplinked.congr (h : w.Uplinked)
    (hsame : w'.circuits.map (fun t => (t.streamId, t.sent))
      = w.circuits.map fun t => (t.streamId, t.sent))
    (hup : w'.uplink = w.uplink) (hserver : w'.server = w.server) : w'.Uplinked := by
  have hsent : ∀ s, w'.sentUp s = w.sentUp s := fun s => Keyed.gather_congr hsame
  constructor
  case relays =>
    rw [hserver]
    exact h.relays
  case mapsLatest =>
    rw [hserver]
    exact h.mapsLatest
  case order =>
    intro s
    rw [hsent, hserver, onUplink, hup]
    exact h.order s

theorem Uplinked.openCircuit (h : w.Uplinked) (s : UInt16) :
    Uplinked { w with circuits := w.circuits ++ [.opened s] } where
  relays := h.relays
  mapsLatest := h.mapsLatest
  order s' := by
    show (w.server.handed s' ++ w.onUplink s').Sublist
      (gather MuxCircuit.streamId MuxCircuit.sent s' (w.circuits ++ [.opened s]))
    rw [Keyed.gather_concat_of_nil rfl]
    exact h.order s'

/-- A circuit, the last of its id, sends a chunk. -/
theorem Uplinked.readerSends (h : w.Uplinked) {c : Nat} {t : MuxCircuit} {data : Bytes}
    (ht : w.circuits[c]? = some t) (hlast : Latest w.ids c t.streamId) (hdata : data ≠ []) :
    Uplinked { w with
      circuits := w.circuits.modify c fun t => { t with sent := t.sent ++ [data] }
      uplink := w.uplink ++ [⟨c, t.streamId, data⟩] } where
  relays := h.relays
  mapsLatest := h.mapsLatest
  order s := by
    show (w.server.handed s ++ gather TaggedCell.streamId TaggedCell.chunks s (w.uplink ++ _)).Sublist
      (gather MuxCircuit.streamId MuxCircuit.sent s (w.circuits.modify c _))
    rw [Keyed.gather_modify_last ht hlast rfl rfl, Keyed.gather_concat, ← List.append_assoc]
    refine (h.order s).append ?_
    rw [TaggedCell.chunks, if_neg hdata]

/-- A close is sent. -/
theorem Uplinked.close (h : w.Uplinked) {cell : TaggedCell} (hdata : cell.data = []) :
    Uplinked { w with uplink := w.uplink ++ [cell] } where
  relays := h.relays
  mapsLatest := h.mapsLatest
  order s := by
    show (w.server.handed s ++ gather TaggedCell.streamId TaggedCell.chunks s (w.uplink ++ [cell])).Sublist
      (w.sentUp s)
    rw [Keyed.gather_concat_of_nil (by rw [TaggedCell.chunks, if_pos hdata])]
    exact h.order s

theorem chunks_of_data {cell : TaggedCell} (hdata : cell.data ≠ []) :
    cell.chunks = [cell.data] := by
  rw [TaggedCell.chunks, if_neg hdata]

/-- The demux takes a cell: it is handed to the last relay of its id, or lost. -/
theorem Uplinked.serverReads (h : w.Uplinked) {prev : Nat} {cell : TaggedCell}
    {rest : List TaggedCell} {server : Demux} (hup : w.uplink = cell :: rest)
    (hrouted : (w.server.record cell.streamId cell.data).Routed cell.streamId cell.data prev
      server) : Uplinked (demux { w with uplink := rest } cell server) := by
  constructor
  case relays =>
    intro b' hb'
    obtain ⟨i, hi⟩ := List.getElem?_of_mem hb'
    rcases Demux.routed_getElem? hrouted hi with ⟨b, hb, hst⟩ | ⟨-, -, -, hst⟩
    · obtain ⟨hacc, hwrites⟩ := h.relays b (List.mem_of_getElem? hb)
      exact Bridge.writes_of_standing hst hacc hwrites
    · exact Bridge.writes_of_spawned hst
  case mapsLatest => exact h.mapsLatest.routed hrouted
  case order =>
    intro s
    have horder := h.order s
    rw [onUplink, hup, Keyed.gather_cons, ← List.append_assoc] at horder
    show (server.handed s ++ gather TaggedCell.streamId TaggedCell.chunks s rest).Sublist (w.sentUp s)
    refine List.Sublist.trans (List.Sublist.append ?_ (List.Sublist.refl _)) horder
    rcases Demux.handed_routed h.mapsLatest hrouted with hsame | ⟨hdata, hmore⟩
    · rw [hsame s]
      exact List.sublist_append_left _ _
    · rw [hmore s, chunks_of_data hdata]

/-- Relays move, and nothing is handed to any of them. -/
theorem Uplinked.server (h : w.Uplinked) {server : Demux}
    (hrelays : ∀ b' ∈ server.bridges, ∃ b ∈ w.server.bridges,
      b.relay.Accounted → b.relay.WritesChunks → b'.relay.Accounted ∧ b'.relay.WritesChunks)
    (hmaps : server.MapsLatest) (hhanded : ∀ s, server.handed s = w.server.handed s) :
    Uplinked { w with server } where
  relays b' hb' := by
    obtain ⟨b, hb, hkeep⟩ := hrelays b' hb'
    exact hkeep (h.relays b hb).1 (h.relays b hb).2
  mapsLatest := hmaps
  order s := by
    show (server.handed s ++ w.onUplink s).Sublist (w.sentUp s)
    rw [hhanded s]
    exact h.order s

theorem Uplinked.local (h : w.Uplinked) {e : Demux.Event} {server : Demux}
    (hlocal : e.isLocal = true) (hstep : w.server.step e = some server) :
    Uplinked { w with server } := by
  refine h.server ?_ ?_ (Demux.handed_local hlocal hstep)
  · intro b' hb'
    rcases Demux.local_cases hlocal hstep with ⟨now, rfl⟩ | ⟨i, b, r, hb, hmoved, rfl⟩
    · exact ⟨b', hb', And.intro⟩
    · obtain ⟨j, hj⟩ := List.getElem?_of_mem hb'
      rcases Keyed.modify_cases hj with ⟨-, hold⟩ | ⟨rfl, b₀, hb₀, rfl⟩
      · exact ⟨b', List.mem_of_getElem? hold, And.intro⟩
      · obtain rfl := Option.some.inj (hb.symm.trans hb₀)
        exact ⟨b, List.mem_of_getElem? hb,
          fun hacc hwrites => ⟨hmoved.accounted hacc, hmoved.writesChunks hacc hwrites⟩⟩
  · intro s i hl
    rw [Demux.ids_local hlocal hstep]
    rw [(Demux.local_frame hlocal hstep).1] at hl
    exact h.mapsLatest s i hl

theorem Uplinked.wireEnds (h : w.Uplinked) : Uplinked { w with server := w.server.hangUp } := by
  refine h.server ?_ ?_ (Demux.handed_hangUp w.server)
  · intro b' hb'
    obtain ⟨b, hb, rfl⟩ := List.mem_map.mp hb'
    exact ⟨b, hb, And.intro⟩
  · intro s i hl
    change (∅ : StreamMap Nat).lookup s = some i at hl
    rw [AList.lookup_empty] at hl
    cases hl

/-- What the inbound task does is not seen by the readers. -/
theorem Received.upView {cell : TaggedCell} (h : w.Received cell w') :
    w'.circuits.map (fun t => (t.streamId, t.sent))
      = w.circuits.map (fun t => (t.streamId, t.sent)) ∧
      w'.uplink = w.uplink ∧ w'.server = w.server := by
  cases h with
  | absent | dangles | full => exact ⟨rfl, rfl, rfl⟩
  | closes | gone | delivers => exact ⟨Keyed.map_modify_same (by exact fun _ _ => rfl), rfl, rfl⟩

/-- **Step lemma, uplink.** -/
theorem Uplinked.stepped {e : Event} (h : w.Uplinked) (hstep : w.Stepped e w')
    (hnodup : w.ids.Nodup) : w'.Uplinked := by
  cases hstep with
  | saturated => exact h
  | @opened s => exact { h.openCircuit s with }
  | readerSends ht _ hdata =>
      exact h.readerSends ht (Keyed.latest_of_nodup hnodup (getElem?_ids ht)) hdata
  | @readerEof c t ht =>
      have hclose : Uplinked { w with uplink := w.uplink ++ [⟨c, t.streamId, []⟩] } := h.close rfl
      exact hclose.congr (Keyed.map_modify_same (by exact fun _ _ => rfl)) rfl rfl
  | readerFails => exact h.congr (Keyed.map_modify_same (by exact fun _ _ => rfl)) rfl rfl
  | writerPolls ht hpoll =>
      refine h.congr (Keyed.map_modify_same ?_) rfl rfl
      intro t ht'
      obtain rfl := Option.some.inj (ht.symm.trans ht')
      obtain ⟨hid, -, hsent, -⟩ := MuxCircuit.poll_frame hpoll
      rw [hid, hsent]
  | writerFails ht hfail =>
      refine h.congr (Keyed.map_modify_same ?_) rfl rfl
      intro t ht'
      obtain rfl := Option.some.inj (ht.symm.trans ht')
      obtain ⟨hid, -, hsent, -⟩ := MuxCircuit.writeFails_frame hfail
      rw [hid, hsent]
  | serverReads hup _ hrouted => exact h.serverReads hup hrouted
  | server hlocal hlocalStep => exact h.local hlocal hlocalStep
  | wireEnds => exact h.wireEnds
  | bridgeSends | bridgeEof | bridgeFails => exact { h with }
  | @clientReads cell rest =>
      obtain ⟨hsame, hup, hserver⟩ := (receive_received { w with downlink := rest } cell).upView
      exact h.congr hsame hup hserver

-- ============================================================================
-- From the bridges to the circuits
-- ============================================================================

/-- The downlink invariant. -/
structure Downlinked (w : MuxTraffic) : Prop where
  circuits : ∀ t ∈ w.circuits, t.WritesChunks
  replies : ∀ r ∈ w.replies, ∃ b, w.server.bridges[r.relay]? = some b ∧
    b.streamId = r.streamId ∧ b.relay.connected = true
  order : ∀ s, (w.handedDown s ++ w.onDownlink s).Sublist (w.replied s)

theorem downlinked_new (tail : TailPolicy) (now : Instant) : (new tail now).Downlinked where
  circuits _ hmem := absurd hmem List.not_mem_nil
  replies _ hmem := absurd hmem List.not_mem_nil
  order _ := List.Sublist.refl _

theorem Downlinked.openCircuit (h : w.Downlinked) (s : UInt16) :
    Downlinked { w with circuits := w.circuits ++ [.opened s] } where
  replies := h.replies
  circuits t ht := by
    rcases List.mem_append.mp ht with hold | hnew
    · exact h.circuits t hold
    · obtain rfl := List.mem_singleton.mp hnew
      exact MuxCircuit.writesChunks_opened s
  order s' := by
    show (gather MuxCircuit.streamId (fun t => t.downRx.sent) s' (w.circuits ++ [.opened s]) ++
      w.onDownlink s').Sublist (w.replied s')
    rw [Keyed.gather_concat_of_nil rfl]
    exact h.order s'

/-- A change of one circuit that hands nothing to its writer. -/
theorem Downlinked.modify (h : w.Downlinked) {i : Nat} {f : MuxCircuit → MuxCircuit}
    (hf : ∀ t, w.circuits[i]? = some t → (f t).streamId = t.streamId ∧
      (f t).downRx.sent = t.downRx.sent ∧ (t.WritesChunks → (f t).WritesChunks)) :
    Downlinked { w with circuits := w.circuits.modify i f } := by
  constructor
  case circuits =>
    intro t' ht'
    obtain ⟨j, hj⟩ := List.getElem?_of_mem ht'
    rcases Keyed.modify_cases hj with ⟨-, hold⟩ | ⟨rfl, t, ht, rfl⟩
    · exact h.circuits t' (List.mem_of_getElem? hold)
    · exact (hf t ht).2.2 (h.circuits t (List.mem_of_getElem? ht))
  case replies => exact h.replies
  case order =>
    intro s
    show (gather MuxCircuit.streamId (fun t => t.downRx.sent) s (w.circuits.modify i f) ++
      w.onDownlink s).Sublist (w.replied s)
    rw [Keyed.gather_modify_same fun t ht => ⟨(hf t ht).1, (hf t ht).2.1⟩]
    exact h.order s

/-- No relay that has opened its connection goes away. -/
theorem Downlinked.server (h : w.Downlinked) {server : Demux}
    (hkeep : ∀ (i : Nat) (b : Bridge), w.server.bridges[i]? = some b → b.relay.connected = true →
      ∃ b' : Bridge, server.bridges[i]? = some b' ∧ b'.streamId = b.streamId ∧
        b'.relay.connected = true) :
    Downlinked { w with server } where
  circuits := h.circuits
  order := h.order
  replies r hr := by
    obtain ⟨b, hb, hid, hconn⟩ := h.replies r hr
    obtain ⟨b', hb', hid', hconn'⟩ := hkeep r.relay b hb hconn
    exact ⟨b', hb', hid'.trans hid, hconn'⟩

theorem Downlinked.close (h : w.Downlinked) {cell : TaggedCell} (hdata : cell.data = []) :
    Downlinked { w with downlink := w.downlink ++ [cell] } where
  circuits := h.circuits
  replies := h.replies
  order s := by
    show (w.handedDown s ++ gather TaggedCell.streamId TaggedCell.chunks s (w.downlink ++ [cell])).Sublist
      (w.replied s)
    rw [Keyed.gather_concat_of_nil (by rw [TaggedCell.chunks, if_pos hdata])]
    exact h.order s

theorem Downlinked.serverReads (h : w.Downlinked) {prev : Nat} {cell : TaggedCell}
    {rest : List TaggedCell} {server : Demux}
    (hrouted : (w.server.record cell.streamId cell.data).Routed cell.streamId cell.data prev
      server) : Downlinked (demux { w with uplink := rest } cell server) := by
  have hserver : Downlinked { w with server } := by
    apply h.server
    intro i b hb hconn
    obtain ⟨b', hb', hst⟩ := Demux.routed_kept hrouted hb
    exact ⟨b', hb', Bridge.streamId_of_standing hst, (Bridge.connected_of_standing hst).trans hconn⟩
  by_cases hdata : cell.data = []
  · simp only [demux, if_pos hdata]
    exact { hserver.close hdata with }
  · simp only [demux, if_neg hdata]
    exact { hserver with }

theorem Downlinked.local (h : w.Downlinked) {e : Demux.Event} {server : Demux}
    (hlocal : e.isLocal = true) (hstep : w.server.step e = some server) :
    Downlinked { w with server } := by
  apply h.server
  intro j b hb hconn
  rcases Demux.local_cases hlocal hstep with ⟨now, rfl⟩ | ⟨i, b₀, r, hb₀, hmoved, rfl⟩
  · exact ⟨b, hb, rfl, hconn⟩
  · by_cases hij : i = j
    · subst hij
      obtain rfl := Option.some.inj (hb₀.symm.trans hb)
      exact ⟨_, Demux.getElem?_modifyRelay_self hb _, rfl, hmoved.connected hconn⟩
    · exact ⟨b, (Demux.getElem?_modifyRelay_ne hij _).trans hb, rfl, hconn⟩

theorem Downlinked.wireEnds (h : w.Downlinked) :
    Downlinked { w with server := w.server.hangUp } := by
  apply h.server
  intro i b hb hconn
  refine ⟨{ b with relay := b.relay.close }, ?_, rfl, hconn⟩
  rw [Demux.hangUp, List.getElem?_map, hb]
  rfl

/-- A chunk is read from a bridge. -/
theorem Downlinked.bridgeSends (h : w.Downlinked) {relay c : Nat} {b : Bridge} {data : Bytes}
    (hb : w.server.bridges[relay]? = some b) (hconn : b.relay.connected = true) (hdata : data ≠ []) :
    Downlinked { w with
      downlink := w.downlink ++ [⟨c, b.streamId, data⟩]
      replies := w.replies ++ [⟨relay, b.streamId, data⟩] } where
  circuits := h.circuits
  replies := by
    intro r hr
    rcases List.mem_append.mp hr with hold | hnew
    · exact h.replies r hold
    · obtain rfl := List.mem_singleton.mp hnew
      exact ⟨b, hb, rfl, hconn⟩
  order s := by
    show (w.handedDown s ++
      gather TaggedCell.streamId TaggedCell.chunks s (w.downlink ++ [⟨c, b.streamId, data⟩])).Sublist
      (gather Reply.streamId (fun r => [r.data]) s (w.replies ++ [⟨relay, b.streamId, data⟩]))
    rw [Keyed.gather_concat, Keyed.gather_concat, ← List.append_assoc]
    refine (h.order s).append ?_
    rw [TaggedCell.chunks, if_neg hdata]

/-- A cell is lost. -/
theorem Downlinked.drop (h : w.Downlinked) {cell : TaggedCell} {rest : List TaggedCell}
    (hdown : w.downlink = cell :: rest) : Downlinked { w with downlink := rest } where
  circuits := h.circuits
  replies := h.replies
  order s := by
    have horder := h.order s
    rw [onDownlink, hdown, Keyed.gather_cons] at horder
    refine List.Sublist.trans (List.Sublist.append (List.Sublist.refl _) ?_) horder
    exact List.sublist_append_right _ _

theorem Downlinked.removeStream (h : w.Downlinked) (s : UInt16) (c : Nat) :
    (w.removeStream s c).Downlinked := by
  have hclosed := h.modify (i := c) (f := MuxCircuit.close)
    fun _ _ => ⟨rfl, rfl, fun hw => ⟨hw.whole, hw.cut⟩⟩
  exact { hclosed with }

/-- The inbound task takes a cell: it is handed to the circuit of its id, or lost. -/
theorem Downlinked.clientReads (h : w.Downlinked) (hknown : w.Known w.ids)
    (hnodup : w.ids.Nodup) {cell : TaggedCell}
    {rest : List TaggedCell} (hdown : w.downlink = cell :: rest) :
    Downlinked (receive { w with downlink := rest } cell) := by
  have hdrop := h.drop hdown
  generalize hv : receive { w with downlink := rest } cell = v
  have hrec := receive_received { w with downlink := rest } cell
  rw [hv] at hrec
  cases hrec with
  | absent | dangles | full => exact hdrop
  | @closes c | @gone c => exact { hdrop.removeStream cell.streamId c with }
  | @delivers c t rx hl hdata ht hsend =>
      have hlast : Latest w.ids c cell.streamId :=
        Keyed.latest_of_nodup hnodup (hknown.streamMap _ _ hl)
      have hid : t.streamId = cell.streamId :=
        Option.some.inj ((getElem?_ids ht).symm.trans hlast.1)
      constructor
      case circuits =>
        intro t' ht'
        obtain ⟨j, hj⟩ := List.getElem?_of_mem ht'
        rcases Keyed.modify_cases hj with ⟨-, hold⟩ | ⟨rfl, t₀, ht₀, rfl⟩
        · exact h.circuits t' (List.mem_of_getElem? hold)
        · obtain rfl := Option.some.inj (ht.symm.trans ht₀)
          have hreceived := (Chan.trySend_eq_ok hsend).2.2.2.1
          obtain ⟨hwhole, hcut⟩ := h.circuits t (List.mem_of_getElem? ht)
          exact ⟨fun hw => (hwhole hw).trans hreceived.symm, hreceived ▸ hcut⟩
      case replies => exact h.replies
      case order =>
        intro s
        have horder := h.order s
        rw [onDownlink, hdown, Keyed.gather_cons, ← List.append_assoc, chunks_of_data hdata] at horder
        show (gather MuxCircuit.streamId (fun t => t.downRx.sent) s (w.circuits.modify c _) ++
          gather TaggedCell.streamId TaggedCell.chunks s rest).Sublist (w.replied s)
        rw [Keyed.gather_modify_last ht (hid ▸ hlast) rfl (Chan.trySend_sent hsend), hid]
        exact horder

/-- **Step lemma, downlink.** -/
theorem Downlinked.stepped {e : Event} (h : w.Downlinked) (hstep : w.Stepped e w')
    (hknown : w.Known w.ids) (hnodup : w.ids.Nodup) : w'.Downlinked := by
  cases hstep with
  | saturated => exact h
  | opened => exact { h.openCircuit _ with }
  | @readerSends c data =>
      have hsame := h.modify (i := c) (f := fun t => { t with sent := t.sent ++ [data] })
        fun _ _ => ⟨rfl, rfl, fun hw => ⟨hw.whole, hw.cut⟩⟩
      exact { hsame with }
  | @readerEof c =>
      have hsame := h.modify (i := c) (f := fun t => { t with reading := false })
        fun _ _ => ⟨rfl, rfl, fun hw => ⟨hw.whole, hw.cut⟩⟩
      exact { hsame with }
  | readerFails => exact h.modify (by exact fun _ _ => ⟨rfl, rfl, fun hw => ⟨hw.whole, hw.cut⟩⟩)
  | writerPolls ht hpoll =>
      apply h.modify
      intro t ht'
      obtain rfl := Option.some.inj (ht.symm.trans ht')
      obtain ⟨hid, -, -, hsent⟩ := MuxCircuit.poll_frame hpoll
      exact ⟨hid, hsent, fun hw => hw.poll hpoll⟩
  | writerFails ht hfail =>
      apply h.modify
      intro t ht'
      obtain rfl := Option.some.inj (ht.symm.trans ht')
      obtain ⟨hid, -, -, hsent⟩ := MuxCircuit.writeFails_frame hfail
      exact ⟨hid, hsent, fun hw => hw.writeFails hfail⟩
  | serverReads _ _ hrouted => exact h.serverReads hrouted
  | server hlocal hlocalStep => exact h.local hlocal hlocalStep
  | wireEnds => exact h.wireEnds
  | bridgeSends hb _ hconn _ hdata => exact h.bridgeSends hb hconn hdata
  | bridgeEof => exact { h.close rfl with }
  | bridgeFails => exact { h with }
  | clientReads hdown => exact h.clientReads hknown hnodup hdown

-- ============================================================================
-- Both directions
-- ============================================================================

/-- **Step lemma.**  Both invariants are kept as long as no id is used twice. -/
theorem step_carried {e : Event} (hknown : w.Known w.ids)
    (h : w.ids.Nodup → w.Uplinked ∧ w.Downlinked) (hstep : w.step e = some w') :
    w'.Known w'.ids ∧ (w'.ids.Nodup → w'.Uplinked ∧ w'.Downlinked) := by
  have hstepped := step_stepped hstep
  refine ⟨hknown.stepped hstepped, fun hnodup => ?_⟩
  have hold : w.ids.Nodup := hnodup.sublist (step_ids hstep).sublist
  exact ⟨(h hold).1.stepped hstepped hold, (h hold).2.stepped hstepped hknown hold⟩

theorem always_carried (tail : TailPolicy) (now : Instant) (events : List Event) :
    Machine.Always step (fun w => w.Known w.ids ∧ (w.ids.Nodup → w.Uplinked ∧ w.Downlinked))
      (new tail now) events :=
  Machine.always_of_invariant (fun _ _ _ h hstep => step_carried h.1 h.2 hstep)
    ⟨known_new tail now, fun _ => ⟨uplinked_new tail now, downlinked_new tail now⟩⟩ events

/-- What a channel has handed out is the first part of what it was given. -/
theorem received_prefix_sent (rx : Chan Bytes streamChannelCap) : rx.received <+: rx.sent :=
  List.prefix_append _ _

theorem isolated_of_carried (hknown : w.Known w.ids) (hnodup : w.ids.Nodup)
    (hup : w.Uplinked) (hdown : w.Downlinked) :
    w.Isolated where
  replies := hdown.replies
  down t ht := by
    refine ⟨(hdown.circuits t ht).cut.mono (received_prefix_sent _), ?_⟩
    have hhanded : w.handedDown t.streamId = t.downRx.sent := Keyed.gather_of_nodup hnodup ht
    rw [← hhanded]
    exact (List.sublist_append_left _ _).trans (hdown.order t.streamId)
  up b hb := by
    obtain ⟨t, ht, hown⟩ := List.mem_map.mp (hknown.bridges b hb)
    refine ⟨(hup.relays b hb).2.mono (received_prefix_sent _), t, ht, hown, ?_⟩
    have hsent : w.sentUp t.streamId = t.sent := Keyed.gather_of_nodup hnodup ht
    rw [← hsent, ← hown]
    exact (List.sublist_append_left _ _).trans (hup.order t.streamId)

/-- **Circuits are isolated in both directions.**  Any number of circuits, any
    interleaving of their cells and of the bridges' replies, any channel full or gone
    at any time, any failure: as long as no stream id was used twice. -/
theorem always_isolated (tail : TailPolicy) (now : Instant) (events : List Event) :
    Machine.Always step (fun w => w.ids.Nodup → w.Isolated) (new tail now) events := by
  apply (always_carried tail now events).mono
  rintro w ⟨hknown, h⟩ hnodup
  exact isolated_of_carried hknown hnodup (h hnodup).1 (h hnodup).2

end MuxTraffic

end MixTor
