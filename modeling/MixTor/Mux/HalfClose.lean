/-
  MixTor.Mux.HalfClose

  A circuit whose local connection is half closed (transport.rs).

  When the local side ends its stream, `mux_tor_reader` sends the close sentinel.
  The demux takes it for a half close, the relay shuts its write half down and
  goes on to read from its bridge, but the demux also sends a sentinel back at
  once, and for the client that is the end of the stream in both directions.

  What the bridge has sent before the demux reads the sentinel is ahead of the
  one that is sent back, and is delivered.  What it sends later is behind it, and
  is lost.
-/

import MixTor.Mux.Isolation

namespace MixTor

open Channel
open Crypto (Bytes)
open Keyed (gather)

namespace MuxTraffic

/-- No read, write or connect fails. -/
def NoIoError : Event → Prop
  | .readerFails _ | .writerFails _ _ | .bridgeFails _ => False
  | .server e => e.NoFailure
  | _ => True

/-- The channel that a chunk is routed to has room. -/
def HasRoom (w : MuxTraffic) : Event → Prop
  | .clientReads => ∀ cell ∈ w.downlink.head?, cell.data ≠ [] →
      ∀ c ∈ w.streamMap.lookup cell.streamId, ∀ t ∈ w.circuits[c]?,
        t.downRx.queue.length < streamChannelCap
  | _ => True

/-- No I/O error and no full channel. -/
def Undisturbed (w : MuxTraffic) (e : Event) : Prop := NoIoError e ∧ w.HasRoom e

/-- A bridge sends only as long as the demux has not read a close of its stream. -/
def RepliesBeforeClose (w : MuxTraffic) : Event → Prop
  | .bridgeSends relay _ => ∀ b ∈ w.server.bridges[relay]?, w.server.era b.streamId = 0
  | _ => True

instance : DecidablePred NoIoError
  | .server e => inferInstanceAs (Decidable e.NoFailure)
  | .readerFails _ | .writerFails _ _ | .bridgeFails _ => isFalse id
  | .openCircuit | .readerSends _ _ | .readerEof _ | .writerPolls _ | .serverReads _ | .wireEnds
  | .bridgeSends _ _ | .bridgeEof _ | .clientReads => isTrue trivial

instance (w : MuxTraffic) : DecidablePred w.HasRoom
  | .clientReads => inferInstanceAs (Decidable (∀ cell ∈ w.downlink.head?, cell.data ≠ [] →
      ∀ c ∈ w.streamMap.lookup cell.streamId, ∀ t ∈ w.circuits[c]?,
        t.downRx.queue.length < streamChannelCap))
  | .openCircuit | .readerSends _ _ | .readerEof _ | .readerFails _ | .writerPolls _
  | .writerFails _ _ | .serverReads _ | .server _ | .wireEnds | .bridgeSends _ _ | .bridgeEof _
  | .bridgeFails _ => isTrue trivial

instance (w : MuxTraffic) : DecidablePred w.Undisturbed := fun e =>
  inferInstanceAs (Decidable (NoIoError e ∧ w.HasRoom e))

instance (w : MuxTraffic) : DecidablePred w.RepliesBeforeClose
  | .bridgeSends relay _ => inferInstanceAs
      (Decidable (∀ b ∈ w.server.bridges[relay]?, w.server.era b.streamId = 0))
  | .openCircuit | .readerSends _ _ | .readerEof _ | .readerFails _ | .writerPolls _
  | .writerFails _ _ | .serverReads _ | .server _ | .wireEnds | .bridgeEof _ | .bridgeFails _
  | .clientReads => isTrue trivial

/-- No two circuits were given `s`. -/
def UsedOnce (w : MuxTraffic) (s : UInt16) : Prop :=
  ∀ i j : Nat, w.ids[i]? = some s → w.ids[j]? = some s → i = j

end MuxTraffic

/-- What the bridge has sent was written, waits for a writer that runs, or is on the
    way, in this order. -/
structure MuxCircuit.Receives (t : MuxCircuit) (onTheWay replied : List Bytes) : Prop where
  all : t.written ++ t.downRx.queue ++ onTheWay = replied
  waits : t.downRx.queue = [] ∨ t.writing = true

namespace MuxTraffic

/-- Nothing that was read from a bridge is lost for a circuit whose id is its own. -/
def NothingLost (w : MuxTraffic) : Prop :=
  ∀ t ∈ w.circuits, w.UsedOnce t.streamId →
    t.Receives (w.onDownlink t.streamId) (w.replied t.streamId)

end MuxTraffic

-- ============================================================================
-- One relay for each stream that is not closed
-- ============================================================================

namespace Demux

variable {d d' : Demux} {streamId s : UInt16} {data : Bytes} {prev : Nat}

/-- The only relay of a stream keeps its sender for as long as the demux runs. -/
structure SoleRelay (d : Demux) (s : UInt16) : Prop where
  kept : ∀ i : Nat, d.ids[i]? = some s → d.ended = true ∨ d.streamMap.lookup s = some i
  unique : ∀ i j : Nat, d.ids[i]? = some s → d.ids[j]? = some s → i = j

theorem routed_era (h : (d.record streamId data).Routed streamId data prev d') :
    d'.era = (d.record streamId data).era := by
  have hclose : ∀ v : Demux, (v.closeStream streamId).era = v.era := by
    intro v
    rw [closeStream]
    split <;> rfl
  cases h with
  | closes | gone => exact hclose _
  | dangles | full | wireCap | globalCap | sends | opens => rfl

theorem era_record_of_ne (d : Demux) (data : Bytes) (hs : s ≠ streamId) :
    (d.record streamId data).era s = d.era s := by
  rw [record]
  split
  · exact Function.update_of_ne hs _ _
  · rfl

theorem era_record_close (d : Demux) (streamId : UInt16) :
    (d.record streamId []).era streamId = d.era streamId + 1 := by
  rw [record, if_pos rfl]
  exact Function.update_self _ _ _

theorem era_record_data (d : Demux) (s streamId : UInt16) (hdata : data ≠ []) :
    (d.record streamId data).era s = d.era s := by
  rw [record, if_neg hdata]

/-- No close of `s` is taken back. -/
theorem era_of_routed (h : (d.record streamId data).Routed streamId data prev d')
    (hera : d'.era s = 0) : d.era s = 0 ∧ (data = [] → s ≠ streamId) := by
  rw [routed_era h] at hera
  by_cases hdata : data = []
  · subst hdata
    by_cases hs : s = streamId
    · subst hs
      rw [era_record_close] at hera
      cases hera
    · rw [era_record_of_ne d [] hs] at hera
      exact ⟨hera, fun _ => hs⟩
  · rw [era_record_data d s streamId hdata] at hera
    exact ⟨hera, fun hnil => absurd hnil hdata⟩

/-- A cell of another stream, or one that moves no sender. -/
theorem SoleRelay.congr (h : d.SoleRelay s) (hids : d'.ids = d.ids)
    (hmap : d'.ended = true ∨ d'.ended = d.ended ∧ d'.streamMap.lookup s = d.streamMap.lookup s) :
    d'.SoleRelay s where
  unique := by
    rw [hids]
    exact h.unique
  kept i hi := by
    rw [hids] at hi
    rcases hmap with hended | ⟨hended, hl⟩
    · exact .inl hended
    · rw [hended, hl]
      exact h.kept i hi

/-- The first relay of a stream. -/
theorem soleRelay_first (hnone : ∀ i : Nat, d.ids[i]? ≠ some s) (hids : d'.ids = d.ids ++ [s])
    (hl : d'.streamMap.lookup s = some d.bridges.length) : d'.SoleRelay s := by
  have hlast : ∀ i : Nat, d'.ids[i]? = some s → i = d.bridges.length := by
    intro i hi
    rw [hids] at hi
    rcases Keyed.concat_cases hi with hold | ⟨rfl, -⟩
    · exact absurd hold (hnone i)
    · exact length_ids d
  constructor
  · intro i hi
    rw [hlast i hi]
    exact .inr hl
  · intro i j hi hj
    rw [hlast i hi, hlast j hj]

/-- A relay of another stream. -/
theorem SoleRelay.other (h : d.SoleRelay s) (hrun : d.ended = false) (hs : s ≠ streamId)
    (hids : d'.ids = d.ids ++ [streamId]) (hl : d'.streamMap.lookup s = d.streamMap.lookup s) :
    d'.SoleRelay s := by
  have hold : ∀ i : Nat, d'.ids[i]? = some s → d.ids[i]? = some s := by
    intro i hi
    rw [hids] at hi
    rcases Keyed.concat_cases hi with hold | ⟨-, hnew⟩
    · exact hold
    · exact absurd hnew hs
  constructor
  · intro i hi
    rcases h.kept i (hold i hi) with hended | hl'
    · rw [hrun] at hended
      cases hended
    · exact .inr (hl.trans hl')
  · exact fun i j hi hj => h.unique i j (hold i hi) (hold j hj)

/-- **Until its close is read a stream has one relay**, as no write to a bridge and no
    connect fails. -/
theorem SoleRelay.routed (hmapped : d.Mapped) (hrun : d.ended = false)
    (h : d.era s = 0 → d.SoleRelay s)
    (hrouted : (d.record streamId data).Routed streamId data prev d') (hera : d'.era s = 0) :
    d'.SoleRelay s := by
  obtain ⟨hopen, hother⟩ := era_of_routed hrouted hera
  have hsole := h hopen
  have hrec : (d.record streamId data).SoleRelay s := by
    apply hsole.congr
    · rw [ids, record_bridges, ids]
    · rw [record_ended, record_streamMap]
      exact .inr ⟨rfl, rfl⟩
  cases hrouted with
  | closes hdata =>
      apply hrec.congr
      · rw [ids_of_standing (standing_closeStream _ _), List.map_map]
        rfl
      · rw [closeStream_ended]
        exact .inr ⟨rfl, lookup_closeStream_of_ne _ (hother hdata)⟩
  | dangles | full | globalCap => exact { hrec with }
  | wireCap => exact hrec.congr (ids_hangUp _) (.inl rfl)
  | sends => exact hrec.congr (ids_modifyRelay _ _ _) (.inr ⟨rfl, rfl⟩)
  | gone hdata hl hb hsend =>
      -- the relay of a sender is open
      obtain ⟨b', hb', -, hopened⟩ := record_mappedTo hmapped streamId data streamId _ hl
      obtain rfl := Option.some.inj (hb.symm.trans hb')
      have hclosed := Chan.receiver_of_closed hsend
      rw [hopened.receiver] at hclosed
      cases hclosed
  | @opens rx hdata hl =>
      rw [record_streamMap] at hl
      have hids : (((d.record streamId data).openBridge streamId).modifyRelay
          (d.record streamId data).bridges.length fun r => { r with dataRx := rx }).ids
          = d.ids ++ [streamId] := by
        rw [ids_modifyRelay, ids_openBridge, ids, record_bridges, ids]
      by_cases hs : s = streamId
      · subst hs
        apply soleRelay_first ?_ hids ?_
        · intro i hi
          rcases hsole.kept i hi with hended | hl'
          · rw [hrun] at hended
            cases hended
          · rw [hl] at hl'
            cases hl'
        · show ((d.record s data).streamMap.insert s (d.record s data).bridges.length).lookup s = _
          rw [AList.lookup_insert, record_bridges]
      · apply hsole.other hrun hs hids
        show ((d.record streamId data).streamMap.insert streamId _).lookup s = _
        rw [AList.lookup_insert_ne hs, record_streamMap]

theorem SoleRelay.local (h : d.SoleRelay s) {e : Event} (hlocal : e.isLocal = true)
    (hstep : d.step e = some d') : d'.SoleRelay s := by
  obtain ⟨hmap, hended⟩ := local_frame hlocal hstep
  exact h.congr (ids_local hlocal hstep) (.inr ⟨hended, by rw [hmap]⟩)

theorem era_local {e : Event} (hlocal : e.isLocal = true) (h : d.step e = some d') :
    d'.era = d.era := by
  rcases local_cases hlocal h with ⟨now, rfl⟩ | ⟨i, b, r, hb, hmoved, rfl⟩ <;> rfl

end Demux

-- ============================================================================
-- The invariant of one stream
-- ============================================================================

/-- The sender is in the map, the receiver is with a running writer. -/
structure MuxCircuit.Live (t : MuxCircuit) : Prop where
  senders : t.downRx.senders = true
  receiver : t.downRx.receiver = true
  writing : t.writing = true

theorem MuxCircuit.live_opened (s : UInt16) : (opened s).Live := ⟨rfl, rfl, rfl⟩

namespace MuxTraffic

variable {w w' : MuxTraffic} {s : UInt16}

/-- The reader of a relay of `s` has ended. -/
def ReaderEnded (w : MuxTraffic) (s : UInt16) : Prop :=
  ∃ (i : Nat) (u : Upstream), w.server.ids[i]? = some s ∧ w.upstreams[i]? = some u ∧
    u.readerEnded = true

/-- The invariant of a stream whose id is used once. -/
structure Kept (w : MuxTraffic) (s : UInt16) : Prop where
  relay : w.server.era s = 0 → w.server.SoleRelay s
  /-- No end is announced before one side has ended. -/
  quiet : w.server.era s = 0 → ¬ w.ReaderEnded s →
    (∀ cell ∈ w.downlink, cell.streamId = s → cell.data ≠ []) ∧ (s ∈ w.ids → s ∈ w.streamMap)
  /-- No data behind a close. -/
  behind : w.downlink.Pairwise fun x y =>
    x.streamId = s → y.streamId = s → x.data = [] → y.data = []
  /-- Data on the way has somebody to go to. -/
  mapped : ∀ cell ∈ w.downlink, cell.streamId = s → cell.data ≠ [] → s ∈ w.streamMap
  live : ∀ c, w.streamMap.lookup s = some c → ∃ t, w.circuits[c]? = some t ∧ t.Live
  all : ∀ t ∈ w.circuits, t.streamId = s → t.Receives (w.onDownlink s) (w.replied s)

theorem onDownlink_eq_nil (h : ∀ cell ∈ w.downlink, cell.streamId ≠ s) : w.onDownlink s = [] :=
  Keyed.gather_eq_nil h

/-- Before the first circuit of an id there is nothing of it. -/
theorem Known.kept_of_notMem (h : w.Known w.ids) (hs : s ∉ w.ids) : w.Kept s := by
  have hdown : ∀ cell ∈ w.downlink, cell.streamId ≠ s := by
    rintro cell hmem rfl
    exact hs (h.downlink cell hmem)
  have hrelay : ∀ i : Nat, w.server.ids[i]? ≠ some s := fun i hi =>
    hs (h.relays (List.mem_of_getElem? hi))
  constructor
  case relay =>
    exact fun _ => ⟨fun i hi => absurd hi (hrelay i), fun i _ hi => absurd hi (hrelay i)⟩
  case quiet =>
    exact fun _ _ => ⟨fun cell hmem hid => absurd hid (hdown cell hmem), fun hm => absurd hm hs⟩
  case behind =>
    exact List.Pairwise.imp_of_mem (fun hx _ _ hid => absurd hid (hdown _ hx))
      (List.pairwise_of_forall (R := fun _ _ => True) fun _ _ => trivial)
  case mapped => exact fun cell hmem hid => absurd hid (hdown cell hmem)
  case live => exact fun c hl => absurd (List.mem_of_getElem? (h.streamMap s c hl)) hs
  case all =>
    rintro t ht rfl
    exact absurd (List.mem_map.mpr ⟨t, ht, rfl⟩) hs

/-- A new circuit, of this stream or another one. -/
theorem Kept.openCircuit (h : w.Kept s) (hknown : w.Known w.ids) {s' nextId : UInt16}
    (hnew : s' = s → s ∉ w.ids) :
    Kept { w with
      nextId
      streamMap := w.streamMap.insert s' w.circuits.length
      circuits := w.circuits ++ [.opened s'] } s := by
  have hgrow : ∀ k ∈ w.streamMap, k ∈ w.streamMap.insert s' w.circuits.length := fun k hk =>
    (AList.mem_insert _).mpr (.inr hk)
  constructor
  case relay => exact h.relay
  case behind => exact h.behind
  case mapped => exact fun cell hmem hid hdata => hgrow s (h.mapped cell hmem hid hdata)
  case quiet =>
    intro hera hnot
    obtain ⟨hcells, hmap⟩ := h.quiet hera hnot
    refine ⟨hcells, fun hs => ?_⟩
    by_cases heq : s' = s
    · exact (AList.mem_insert _).mpr (.inl heq.symm)
    · apply hgrow s
      apply hmap
      change s ∈ (w.circuits ++ [MuxCircuit.opened s']).map MuxCircuit.streamId at hs
      rw [List.map_append, List.mem_append] at hs
      rcases hs with hold | hlast
      · exact hold
      · exact absurd (List.mem_singleton.mp hlast).symm heq
  case live =>
    intro c hl
    by_cases heq : s = s'
    · subst heq
      rw [AList.lookup_insert] at hl
      obtain rfl := Option.some.inj hl
      exact ⟨_, List.getElem?_concat_length, MuxCircuit.live_opened s⟩
    · rw [AList.lookup_insert_ne heq] at hl
      obtain ⟨t, ht, hlive⟩ := h.live c hl
      refine ⟨t, ?_, hlive⟩
      rw [List.getElem?_append_left (List.getElem?_eq_some_iff.mp ht).1, ht]
  case all =>
    intro t ht hid
    rcases List.mem_append.mp ht with hold | hlast
    · exact h.all t hold hid
    · obtain rfl := List.mem_singleton.mp hlast
      have hs : s ∉ w.ids := hnew hid
      have hdown : w.onDownlink s = [] := by
        apply onDownlink_eq_nil
        rintro cell hmem rfl
        exact hs (hknown.downlink cell hmem)
      have hreplied : w.replied s = [] := by
        apply Keyed.gather_eq_nil
        rintro r hmem rfl
        exact hs (hknown.replies r hmem)
      refine ⟨?_, .inl rfl⟩
      show [] ++ [] ++ w.onDownlink s = w.replied s
      rw [hdown, hreplied]
      rfl

/-- A change of one circuit that loses nothing, where it is the circuit of the stream. -/
theorem Kept.modify (h : w.Kept s) {i : Nat} {f : MuxCircuit → MuxCircuit}
    (hid : ∀ t, w.circuits[i]? = some t → (f t).streamId = t.streamId)
    (hlive : ∀ t, w.circuits[i]? = some t → w.streamMap.lookup s = some i → t.Live → (f t).Live)
    (hall : ∀ t, w.circuits[i]? = some t → t.streamId = s →
      t.Receives (w.onDownlink s) (w.replied s) → (f t).Receives (w.onDownlink s) (w.replied s)) :
    Kept { w with circuits := w.circuits.modify i f } s := by
  have hids : (w.circuits.modify i f).map MuxCircuit.streamId = w.ids := ids_modify hid
  constructor
  case relay => exact h.relay
  case behind => exact h.behind
  case mapped => exact h.mapped
  case quiet =>
    intro hera hnot
    obtain ⟨hcells, hmap⟩ := h.quiet hera hnot
    refine ⟨hcells, ?_⟩
    rw [ids, hids]
    exact hmap
  case live =>
    intro c hl
    obtain ⟨t, ht, htlive⟩ := h.live c hl
    by_cases hic : i = c
    · subst hic
      refine ⟨f t, ?_, hlive t ht hl htlive⟩
      rw [List.getElem?_modify_eq, ht]
      rfl
    · refine ⟨t, ?_, htlive⟩
      rw [List.getElem?_modify_ne _ _ hic, ht]
  case all =>
    intro t' ht' hid'
    obtain ⟨j, hj⟩ := List.getElem?_of_mem ht'
    rcases Keyed.modify_cases hj with ⟨-, hold⟩ | ⟨rfl, t, ht, rfl⟩
    · exact h.all t' (List.mem_of_getElem? hold) hid'
    · have hs : t.streamId = s := (hid t ht).symm.trans hid'
      exact hall t ht hs (h.all t (List.mem_of_getElem? ht) hs)

/-- The writer takes a chunk, or ends when its channel is closed and empty. -/
theorem Kept.writerPolls (h : w.Kept s) {c : Nat} {t t' : MuxCircuit} (ht : w.circuits[c]? = some t)
    (hpoll : t.poll = some t') :
    Kept { w with circuits := w.circuits.modify c fun _ => t' } s := by
  have heq : ∀ t₀, w.circuits[c]? = some t₀ → t₀ = t := fun t₀ ht₀ =>
    Option.some.inj (ht₀.symm.trans ht)
  have hpolled := MuxCircuit.polled_of_poll hpoll
  apply h.modify
  · intro t₀ ht₀
    rw [heq t₀ ht₀]
    exact (MuxCircuit.poll_frame hpoll).1
  · intro t₀ ht₀ _ hlive
    rw [heq t₀ ht₀] at hlive
    cases hpolled with
    | takes hwriting hrecv =>
        have hsenders := Chan.tryRecv_senders t.downRx
        have hreceiver := Chan.tryRecv_receiver t.downRx
        rw [hrecv] at hsenders hreceiver
        exact ⟨hsenders.trans hlive.senders, hreceiver.trans hlive.receiver, hwriting⟩
    | ends _ _ hclosed =>
        rw [hlive.senders] at hclosed
        cases hclosed
  · intro t₀ ht₀ _ hrec
    rw [heq t₀ ht₀] at hrec
    obtain ⟨hall, -⟩ := hrec
    cases hpolled with
    | takes hwriting hrecv =>
        refine ⟨?_, .inr hwriting⟩
        rw [(Chan.tryRecv_eq_ok hrecv).1] at hall
        rw [← hall]
        simp only [List.append_assoc, List.singleton_append]
    | ends _ hq _ => exact ⟨hall, .inl hq⟩

/-- The server changes: the stream keeps its relay, and no reader starts again. -/
theorem Kept.server (h : w.Kept s) {server : Demux} {upstreams : List Upstream}
    (hera : server.era s = 0 → w.server.era s = 0) (hrelay : server.era s = 0 → server.SoleRelay s)
    (hended : w.ReaderEnded s → ReaderEnded { w with server, upstreams } s) :
    Kept { w with server, upstreams } s where
  relay := hrelay
  quiet hzero hnot := h.quiet (hera hzero) fun hend => hnot (hended hend)
  behind := h.behind
  mapped := h.mapped
  live := h.live
  all := h.all

/-- A cell of another stream, or a close, adds nothing to what is on the way. -/
theorem onDownlink_concat {cell : TaggedCell} (hcell : cell.streamId = s → cell.data = []) :
    gather TaggedCell.streamId TaggedCell.chunks s (w.downlink ++ [cell]) = w.onDownlink s := by
  rw [Keyed.gather_concat]
  split
  · next hid =>
    rw [TaggedCell.chunks, if_pos (hcell hid), List.append_nil]
    rfl
  · exact List.append_nil _

/-- A close is put on the downlink after one side of its stream has ended, or a cell of
    another stream. -/
theorem Kept.sendDown (h : w.Kept s) {cell : TaggedCell}
    (hcell : cell.streamId = s → cell.data = [])
    (hend : cell.streamId = s → w.server.era s = 0 → w.ReaderEnded s) :
    Kept { w with downlink := w.downlink ++ [cell] } s where
  relay := h.relay
  live := h.live
  quiet hera hnot := by
    obtain ⟨hcells, hmap⟩ := h.quiet hera hnot
    refine ⟨fun x hx hid => ?_, hmap⟩
    rcases List.mem_append.mp hx with hold | hlast
    · exact hcells x hold hid
    · obtain rfl := List.mem_singleton.mp hlast
      exact absurd (hend hid hera) hnot
  behind := by
    refine List.pairwise_append.mpr ⟨h.behind, List.pairwise_singleton _ _, ?_⟩
    intro x _ y hy _ hid _
    obtain rfl := List.mem_singleton.mp hy
    exact hcell hid
  mapped x hx hid hdata := by
    rcases List.mem_append.mp hx with hold | hlast
    · exact h.mapped x hold hid hdata
    · obtain rfl := List.mem_singleton.mp hlast
      exact absurd (hcell hid) hdata
  all t ht hid := by
    obtain ⟨hall, hwaits⟩ := h.all t ht hid
    rw [← onDownlink_concat hcell] at hall
    exact ⟨hall, hwaits⟩

/-- The demux takes a cell. -/
theorem Kept.serverReads (h : w.Kept s) (hmapped : w.server.Mapped) (hrun : w.server.ended = false)
    {prev : Nat} {cell : TaggedCell} {rest : List TaggedCell} {server : Demux}
    (hrouted : (w.server.record cell.streamId cell.data).Routed cell.streamId cell.data prev
      server) : Kept (demux { w with uplink := rest } cell server) s := by
  have hended : ∀ upstreams, w.upstreams <+: upstreams → w.ReaderEnded s →
      ReaderEnded { w with server, upstreams } s := by
    rintro upstreams ⟨more, rfl⟩ ⟨i, u, hi, hu, hend⟩
    refine ⟨i, u, ?_, ?_, hend⟩
    · rcases Demux.ids_routed hrouted with hsame | ⟨-, hmore⟩
      · rwa [hsame]
      · rw [hmore, List.getElem?_append_left (List.getElem?_eq_some_iff.mp hi).1, hi]
    · rw [List.getElem?_append_left (List.getElem?_eq_some_iff.mp hu).1, hu]
  have hgrow : w.upstreams <+: (if w.server.bridges.length < server.bridges.length
      then w.upstreams ++ [⟨cell.circuit, false⟩] else w.upstreams) := by
    split
    · exact List.prefix_append _ _
    · exact List.prefix_rfl
  have hserver := h.server (fun hera => (Demux.era_of_routed hrouted hera).1)
    (Demux.SoleRelay.routed hmapped hrun h.relay hrouted) (hended _ hgrow)
  by_cases hdata : cell.data = []
  · have hecho := hserver.sendDown (fun _ => hdata) fun hid hera =>
      absurd hid.symm ((Demux.era_of_routed hrouted hera).2 hdata)
    simp only [demux, if_pos hdata]
    exact { hecho with }
  · simp only [demux, if_neg hdata]
    exact { hserver with }

theorem Kept.local (h : w.Kept s) {e : Demux.Event} {server : Demux} (hlocal : e.isLocal = true)
    (hstep : w.server.step e = some server) : Kept { w with server } s := by
  have hera := Demux.era_local hlocal hstep
  apply h.server
  · rw [hera]
    exact id
  · intro hzero
    rw [hera] at hzero
    exact (h.relay hzero).local hlocal hstep
  · rintro ⟨i, u, hi, hu, hend⟩
    refine ⟨i, u, ?_, hu, hend⟩
    rwa [Demux.ids_local hlocal hstep]

theorem Kept.wireEnds (h : w.Kept s) : Kept { w with server := w.server.hangUp } s := by
  apply h.server
  · exact id
  · exact fun hzero => (h.relay hzero).congr (Demux.ids_hangUp _) (.inl rfl)
  · rintro ⟨i, u, hi, hu, hend⟩
    refine ⟨i, u, ?_, hu, hend⟩
    rwa [Demux.ids_hangUp]

/-- The relay that reads is the one of its stream. -/
theorem Kept.not_readerEnded {b : Bridge} (h : w.Kept b.streamId) {relay : Nat} {u : Upstream}
    (hb : w.server.bridges[relay]? = some b) (hu : w.upstreams[relay]? = some u)
    (hrun : u.readerEnded = false) (hera : w.server.era b.streamId = 0) :
    ¬ w.ReaderEnded b.streamId := by
  rintro ⟨i, u', hi, hu', hend⟩
  have hids : w.server.ids[relay]? = some b.streamId := by
    rw [Demux.ids, List.getElem?_map, hb]
    rfl
  obtain rfl := (h.relay hera).unique i relay hi hids
  obtain rfl := Option.some.inj (hu.symm.trans hu')
  rw [hrun] at hend
  cases hend

/-- A chunk is read from a bridge whose stream is not closed. -/
theorem Kept.bridgeSends (h : w.Kept s) (hknown : w.Known w.ids) {relay : Nat} {data : Bytes}
    {b : Bridge} {u : Upstream} (hb : w.server.bridges[relay]? = some b)
    (hu : w.upstreams[relay]? = some u) (hrun : u.readerEnded = false) (hdata : data ≠ [])
    (hera : w.server.era b.streamId = 0) :
    Kept { w with
      downlink := w.downlink ++ [⟨u.owner, b.streamId, data⟩]
      replies := w.replies ++ [⟨relay, b.streamId, data⟩] } s := by
  have hreplied : gather Reply.streamId (fun r => [r.data]) s
      (w.replies ++ [⟨relay, b.streamId, data⟩])
      = w.replied s ++ if b.streamId = s then [data] else [] := Keyed.gather_concat
  by_cases hs : b.streamId = s
  · subst hs
    obtain ⟨hcells, hmap⟩ := h.quiet hera (h.not_readerEnded hb hu hrun hera)
    have hmem : b.streamId ∈ w.streamMap := hmap (hknown.bridges b (List.mem_of_getElem? hb))
    rw [if_pos rfl] at hreplied
    constructor
    case relay => exact h.relay
    case live => exact h.live
    case quiet =>
      intro _ _
      refine ⟨fun x hx hid => ?_, hmap⟩
      rcases List.mem_append.mp hx with hold | hlast
      · exact hcells x hold hid
      · obtain rfl := List.mem_singleton.mp hlast
        exact hdata
    case behind =>
      refine List.pairwise_append.mpr ⟨h.behind, List.pairwise_singleton _ _, ?_⟩
      intro x hx y _ hid _ hnil
      exact absurd hnil (hcells x hx hid)
    case mapped => exact fun _ _ _ _ => hmem
    case all =>
      intro t ht hid
      obtain ⟨hall, hwaits⟩ := h.all t ht hid
      refine ⟨?_, hwaits⟩
      show t.written ++ t.downRx.queue ++ gather TaggedCell.streamId TaggedCell.chunks b.streamId
        (w.downlink ++ [⟨u.owner, b.streamId, data⟩]) = gather _ _ _ (w.replies ++ _)
      rw [hreplied, ← hall, Keyed.gather_concat, if_pos rfl, chunks_of_data hdata]
      simp only [List.append_assoc]
      rfl
  · rw [if_neg hs, List.append_nil] at hreplied
    have hsent : Kept { w with downlink := w.downlink ++ [⟨u.owner, b.streamId, data⟩] } s :=
      h.sendDown (fun hid => absurd hid hs) fun hid => absurd hid hs
    refine { hsent with all := ?_ }
    intro t ht hid
    show t.Receives _ (gather _ _ s (w.replies ++ _))
    rw [hreplied]
    exact hsent.all t ht hid

/-- The bridge of a relay closes. -/
theorem Kept.bridgeEof (h : w.Kept s) {relay c : Nat} {b : Bridge} {u : Upstream}
    (hb : w.server.bridges[relay]? = some b) (hu : w.upstreams[relay]? = some u) :
    Kept { w.endReader relay with downlink := w.downlink ++ [⟨c, b.streamId, []⟩] } s := by
  have hids : w.server.ids[relay]? = some b.streamId := by
    rw [Demux.ids, List.getElem?_map, hb]
    rfl
  have hafter : (w.endReader relay).upstreams[relay]? = some { u with readerEnded := true } := by
    rw [endReader, List.getElem?_modify_eq, hu]
    rfl
  have hended : Kept (w.endReader relay) s := by
    apply h.server id h.relay
    rintro ⟨i, u', hi, hu', hend⟩
    by_cases hri : relay = i
    · subst hri
      exact ⟨relay, _, hi, hafter, rfl⟩
    · refine ⟨i, u', hi, ?_, hend⟩
      rw [List.getElem?_modify_ne _ _ hri, hu']
  refine hended.sendDown (fun _ => rfl) ?_
  rintro rfl _
  exact ⟨relay, _, hids, hafter, rfl⟩

/-- A close, or a cell of another stream, is taken from the downlink. -/
theorem Kept.read (h : w.Kept s) {cell : TaggedCell} {rest : List TaggedCell}
    (hdown : w.downlink = cell :: rest) (hcell : cell.streamId = s → cell.data = []) :
    Kept { w with downlink := rest } s where
  relay := h.relay
  live := h.live
  quiet hera hnot := by
    obtain ⟨hcells, hmap⟩ := h.quiet hera hnot
    exact ⟨fun x hx => hcells x (hdown ▸ List.mem_cons_of_mem _ hx), hmap⟩
  behind := by
    have hpair := h.behind
    rw [hdown] at hpair
    exact hpair.tail
  mapped x hx := h.mapped x (hdown ▸ List.mem_cons_of_mem _ hx)
  all t ht hid := by
    obtain ⟨hall, hwaits⟩ := h.all t ht hid
    have hrest : w.onDownlink s = gather TaggedCell.streamId TaggedCell.chunks s rest := by
      rw [onDownlink, hdown, Keyed.gather_cons]
      split
      · next hs => rw [TaggedCell.chunks, if_pos (hcell hs), List.nil_append]
      · rw [List.nil_append]
    rw [hrest] at hall
    exact ⟨hall, hwaits⟩

/-- A stream that has nothing more on the way is taken from the map. -/
theorem Kept.removeOwn (h : w.Kept s) (c : Nat)
    (hend : w.server.era s = 0 → w.ReaderEnded s)
    (hrest : ∀ cell ∈ w.downlink, cell.streamId = s → cell.data = []) :
    Kept (w.removeStream s c) s := by
  have hnone : (w.streamMap.erase s).lookup s = none := AList.lookup_erase s _
  constructor
  case relay => exact h.relay
  case quiet => exact fun hera hnot => absurd (hend hera) hnot
  case behind => exact h.behind
  case mapped => exact fun cell hmem hid hdata => absurd (hrest cell hmem hid) hdata
  case live =>
    intro c' hl
    rw [MuxTraffic.removeStream, hnone] at hl
    cases hl
  case all =>
    intro t' ht' hid
    obtain ⟨j, hj⟩ := List.getElem?_of_mem ht'
    rcases Keyed.modify_cases hj with ⟨-, hold⟩ | ⟨rfl, t, ht, rfl⟩
    · exact h.all t' (List.mem_of_getElem? hold) hid
    · obtain ⟨hall, hwaits⟩ := h.all t (List.mem_of_getElem? ht) hid
      exact ⟨hall, hwaits⟩

/-- What happens to the circuit of another stream. -/
theorem Kept.other (h : w.Kept s) (hknown : w.Known w.ids) {s' : UInt16} {c : Nat}
    (hl : w.streamMap.lookup s' = some c) (hs : s ≠ s') {f : MuxCircuit → MuxCircuit}
    (hf : ∀ t, (f t).streamId = t.streamId) :
    Kept { w with circuits := w.circuits.modify c f } s := by
  have hc : w.ids[c]? = some s' := hknown.streamMap s' c hl
  apply h.modify
  · exact fun t _ => hf t
  · intro t _ hown
    have hboth : some s' = some s := hc.symm.trans (hknown.streamMap s c hown)
    exact absurd (Option.some.inj hboth).symm hs
  · intro t ht hid
    have hboth : some t.streamId = some s' := (getElem?_ids ht).symm.trans hc
    exact absurd (hid.symm.trans (Option.some.inj hboth)) hs

theorem Kept.removeOther (h : w.Kept s) (hknown : w.Known w.ids) {s' : UInt16} {c : Nat}
    (hl : w.streamMap.lookup s' = some c) (hs : s ≠ s') : Kept (w.removeStream s' c) s := by
  have hclosed := h.other hknown hl hs (f := MuxCircuit.close) fun _ => rfl
  have hkept : ∀ {k}, k = s → k ∈ w.streamMap → k ∈ w.streamMap.erase s' := by
    rintro k rfl hmem
    exact AList.mem_erase.mpr ⟨hs, hmem⟩
  refine { hclosed with quiet := ?_, mapped := ?_, live := ?_ }
  · intro hera hnot
    obtain ⟨hcells, hmap⟩ := hclosed.quiet hera hnot
    exact ⟨hcells, fun hmem => hkept rfl (hmap hmem)⟩
  · exact fun cell hmem hid hdata => hkept rfl (hclosed.mapped cell hmem hid hdata)
  · intro c' hl'
    rw [MuxTraffic.removeStream, AList.lookup_erase_ne hs] at hl'
    exact hclosed.live c' hl'

/-- A chunk on the way reaches its circuit: it is in the map, its receiver is alive and
    its channel has room. -/
theorem Kept.delivers (h : w.Kept s) (hknown : w.Known w.ids) (honce : w.UsedOnce s)
    {cell : TaggedCell} {rest : List TaggedCell} (hdown : w.downlink = cell :: rest)
    (hid : cell.streamId = s)
    (hdata : cell.data ≠ []) (hroom : w.HasRoom .clientReads) :
    Kept (receive { w with downlink := rest } cell) s := by
  subst hid
  have hmem : cell.streamId ∈ w.streamMap :=
    h.mapped cell (hdown ▸ List.mem_cons_self) rfl hdata
  obtain ⟨c, hl⟩ := Option.isSome_iff_exists.mp (AList.lookup_isSome.mpr hmem)
  obtain ⟨t, ht, hlive⟩ := h.live c hl
  obtain ⟨rx, hsend⟩ := Chan.trySend_of_room cell.data hlive.receiver
    (hroom cell (hdown ▸ rfl) hdata c hl t ht)
  obtain ⟨-, -, hqueue, -, hsenders, hreceiver⟩ := Chan.trySend_eq_ok hsend
  have hown : t.streamId = cell.streamId :=
    Option.some.inj ((getElem?_ids ht).symm.trans (hknown.streamMap _ _ hl))
  rw [@receive_delivers { w with downlink := rest } cell c t rx hl hdata ht hsend]
  have hids : (w.circuits.modify c fun t => { t with downRx := rx }).map MuxCircuit.streamId
      = w.ids := ids_modify fun _ _ => rfl
  constructor
  case relay => exact h.relay
  case quiet =>
    intro hera hnot
    obtain ⟨hcells, hmap⟩ := h.quiet hera hnot
    exact ⟨fun x hx => hcells x (hdown ▸ List.mem_cons_of_mem _ hx), fun _ => hmem⟩
  case behind =>
    have hpair := h.behind
    rw [hdown] at hpair
    exact hpair.tail
  case mapped => exact fun _ _ _ _ => hmem
  case live =>
    intro c' hl'
    obtain rfl := Option.some.inj (hl.symm.trans hl')
    refine ⟨{ t with downRx := rx }, ?_, hsenders.trans hlive.senders, hreceiver, hlive.writing⟩
    show (w.circuits.modify c _)[c]? = _
    rw [List.getElem?_modify_eq, ht]
    rfl
  case all =>
    intro t' ht' hid'
    obtain ⟨j, hj⟩ := List.getElem?_of_mem ht'
    have hc := hknown.streamMap _ _ hl
    rcases Keyed.modify_cases hj with ⟨hne, hold⟩ | ⟨rfl, t₀, ht₀, rfl⟩
    · have hj' : w.ids[j]? = some cell.streamId := hid' ▸ getElem?_ids hold
      exact absurd (honce c j hc hj') hne
    · obtain rfl := Option.some.inj (ht.symm.trans ht₀)
      obtain ⟨hall, -⟩ := h.all t (List.mem_of_getElem? ht) hown
      refine ⟨?_, .inr hlive.writing⟩
      rw [onDownlink, hdown, Keyed.gather_cons, if_pos rfl, chunks_of_data hdata] at hall
      show t.written ++ rx.queue ++ gather TaggedCell.streamId TaggedCell.chunks cell.streamId rest = _
      rw [hqueue]
      simp only [List.append_assoc] at hall ⊢
      exact hall

theorem Kept.clientReads (h : w.Kept s) (hknown : w.Known w.ids) (honce : w.UsedOnce s)
    {cell : TaggedCell} {rest : List TaggedCell} (hdown : w.downlink = cell :: rest)
    (hroom : w.HasRoom .clientReads) : Kept (receive { w with downlink := rest } cell) s := by
  by_cases hown : cell.streamId = s ∧ cell.data ≠ []
  · exact h.delivers hknown honce hdown hown.1 hown.2 hroom
  · have hcell : cell.streamId = s → cell.data = [] := fun hs =>
      not_not.mp fun hdata => hown ⟨hs, hdata⟩
    have hread := h.read hdown hcell
    have hsame : Known w.ids { w with downlink := rest } :=
      { hknown with downlink := fun x hx => hknown.downlink x (hdown ▸ List.mem_cons_of_mem _ hx) }
    generalize hv : receive { w with downlink := rest } cell = v
    have hrec := receive_received { w with downlink := rest } cell
    rw [hv] at hrec
    cases hrec with
    | absent | dangles | full => exact hread
    | @closes c hl hdata =>
        by_cases hs : cell.streamId = s
        · subst hs
          have hend : w.server.era cell.streamId = 0 → w.ReaderEnded cell.streamId := by
            intro hera
            by_contra hnot
            exact (h.quiet hera hnot).1 cell (hdown ▸ List.mem_cons_self) rfl hdata
          have hrest : ∀ x ∈ rest, x.streamId = cell.streamId → x.data = [] := by
            intro x hx hid
            have hpair := h.behind
            rw [hdown] at hpair
            exact (List.pairwise_cons.mp hpair).1 x hx rfl hid hdata
          exact { hread.removeOwn c hend hrest with }
        · exact { hread.removeOther hsame hl (Ne.symm hs) with }
    | gone hl hdata =>
        have hs : s ≠ cell.streamId := fun hs => hdata (hcell hs.symm)
        exact { hread.removeOther hsame hl hs with }
    | @delivers c t rx hl hdata =>
        have hs : s ≠ cell.streamId := fun hs => hdata (hcell hs.symm)
        have hother := hread.other hsame hl hs (f := fun t => { t with downRx := rx }) fun _ => rfl
        exact { hother with }

/-- **Step lemma.**  Every stream whose id is used once is kept. -/
theorem Kept.stepped {e : Event} (h : w.Kept s) (hknown : w.Known w.ids) (hmapped : w.server.Mapped)
    (honce : w'.UsedOnce s) (hquiet : w.Undisturbed e) (hcond : w.RepliesBeforeClose e)
    (hstep : w.step e = some w') : w'.Kept s := by
  obtain ⟨hio, hroom⟩ := hquiet
  have holdOnce : w.UsedOnce s := fun i j hi hj => honce i j
    (getElem?_of_extends (step_ids hstep) hi) (getElem?_of_extends (step_ids hstep) hj)
  cases step_stepped hstep with
  | saturated => exact h
  | @opened s' nextId hadd =>
      apply h.openCircuit hknown
      rintro rfl hmem
      -- the old circuit of the id and the new one are two
      obtain ⟨i, hi⟩ := List.getElem?_of_mem hmem
      have hlast : (w.ids ++ [s'])[w.ids.length]? = some s' := List.getElem?_concat_length
      have hids : (w.circuits ++ [MuxCircuit.opened s']).map MuxCircuit.streamId = w.ids ++ [s'] :=
        List.map_append
      rw [UsedOnce, ids, hids] at honce
      have hsame := honce i w.ids.length (getElem?_of_extends (List.prefix_append _ _) hi) hlast
      exact absurd (List.getElem?_eq_some_iff.mp hi).1 (Nat.not_lt.mpr (Nat.le_of_eq hsame.symm))
  | @readerSends c data =>
      have hsame := h.modify (i := c) (f := fun t => { t with sent := t.sent ++ [data] })
        (fun _ _ => rfl) (fun _ _ _ hlive => ⟨hlive.senders, hlive.receiver, hlive.writing⟩)
        fun _ _ _ hrec => ⟨hrec.all, hrec.waits⟩
      exact { hsame with }
  | @readerEof c =>
      have hsame := h.modify (i := c) (f := fun t => { t with reading := false })
        (fun _ _ => rfl) (fun _ _ _ hlive => ⟨hlive.senders, hlive.receiver, hlive.writing⟩)
        fun _ _ _ hrec => ⟨hrec.all, hrec.waits⟩
      exact { hsame with }
  | readerFails | writerFails | bridgeFails => cases hio
  | writerPolls ht hpoll => exact h.writerPolls ht hpoll
  | serverReads _ hrun hrouted => exact h.serverReads hmapped hrun hrouted
  | server hlocal hlocalStep => exact h.local hlocal hlocalStep
  | wireEnds => exact h.wireEnds
  | bridgeSends hb hu _ hrun hdata => exact h.bridgeSends hknown hb hu hrun hdata (hcond _ hb)
  | bridgeEof hb hu => exact h.bridgeEof hb hu
  | clientReads hdown => exact h.clientReads hknown holdOnce hdown hroom

theorem step_mapped {e : Event} (h : w.server.Mapped) (hio : NoIoError e)
    (hstep : w.step e = some w') : w'.server.Mapped := by
  cases step_stepped hstep with
  | saturated | opened | readerSends | readerEof | writerPolls => exact h
  | bridgeSends | bridgeEof => exact h
  | readerFails | writerFails | bridgeFails => cases hio
  | serverReads _ _ hrouted => exact Demux.Mapped.routed h hrouted
  | server _ hlocalStep => exact Demux.step_mapped h hio hlocalStep
  | wireEnds => exact Demux.mappedTo_hangUp _
  | @clientReads cell rest =>
      obtain ⟨-, -, hserver⟩ := (receive_received { w with downlink := rest } cell).upView
      rw [hserver]
      exact h

/-- What holds in every state of an undisturbed run. -/
structure Faithful (w : MuxTraffic) : Prop where
  known : w.Known w.ids
  mapped : w.server.Mapped
  kept : ∀ s, w.UsedOnce s → w.Kept s

theorem faithful_new (tail : TailPolicy) (now : Instant) : (new tail now).Faithful where
  known := known_new tail now
  mapped := Demux.mappedTo_new tail now
  kept _ _ := (known_new tail now).kept_of_notMem List.not_mem_nil

theorem step_faithful {e : Event} (h : w.Faithful)
    (hc : w.Undisturbed e ∧ w.RepliesBeforeClose e) (hstep : w.step e = some w') :
    w'.Faithful where
  known := h.known.stepped (step_stepped hstep)
  mapped := step_mapped h.mapped hc.1.1 hstep
  kept _ honce := by
    have hold : w.UsedOnce _ := fun i j hi hj => honce i j
      (getElem?_of_extends (step_ids hstep) hi) (getElem?_of_extends (step_ids hstep) hj)
    exact (h.kept _ hold).stepped h.known h.mapped honce hc.1 hc.2 hstep

/-- The local side ends once it has sent its request, and the bridge answers. -/
def halfCloseRun : List Event :=
  [.openCircuit, .readerSends 0 [7], .serverReads 0, .server (.poll 0), .server (.poll 0),
    .readerEof 0, .serverReads 0, .bridgeSends 0 [8], .clientReads, .clientReads]

end MuxTraffic

end MixTor
