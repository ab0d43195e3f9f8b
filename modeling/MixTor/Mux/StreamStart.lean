/-
  MixTor.Mux.StreamStart

  Which upstream connection a stream id gets between two close sentinels.

  The loop spawns a relay for every data cell whose id has no sender.  A sender
  is missing before the first cell of a stream, but also after a cell that the
  global cap refused and after one that found its relay gone.  In runs where
  only first cells are given a relay, each stream has one connection at most and
  it starts with the first byte of the stream.  Those two are the only causes: where
  neither has happened to a stream since its last close, a cell that is given a
  relay is the first.
-/

import MixTor.Mux.Demux

namespace MixTor

open Channel
open Crypto (Bytes)

namespace BridgeRelay

/-- What a relay and its channel may do in between: the account stays right and
    the channel keeps its history. -/
structure Continues (r r' : BridgeRelay) : Prop where
  accounted : r.Accounted → r'.Accounted
  sent : r.dataRx.sent <+: r'.dataRx.sent

variable {r r' : BridgeRelay} {now : Instant}

theorem continues_poll (hpoll : r.poll now = some r') : r.Continues r' where
  accounted h := h.poll hpoll
  sent := by
    obtain ⟨-, -, hsent, -⟩ := poll_frame hpoll
    rw [hsent]

theorem continues_fireDeadline (hfire : r.fireDeadline now = some r') : r.Continues r' where
  accounted h := h.fireDeadline hfire
  sent := by
    obtain ⟨-, rfl⟩ := fireDeadline_eq_some hfire
    exact List.prefix_rfl

theorem continues_connectFails (hfail : r.connectFails = some r') : r.Continues r' where
  accounted h := h.connectFails hfail
  sent := by
    obtain ⟨-, -, rfl⟩ := connectFails_eq_some hfail
    exact List.prefix_rfl

theorem continues_writeFails {n : Nat} (hfail : r.writeFails n = some r') : r.Continues r' where
  accounted h := h.writeFails hfail
  sent := by
    obtain ⟨-, -, rx, -, -, hsent, rfl⟩ := writeFails_eq_some hfail
    show r.dataRx.sent <+: rx.sent
    rw [hsent]

theorem continues_send {rx : Chan Bytes streamChannelCap} {data : Bytes}
    (hsend : r.dataRx.trySend data = .ok rx) : r.Continues { r with dataRx := rx } where
  accounted h := h.of_queue (Chan.trySend_eq_ok hsend).2.2.2.1
  sent := by
    show r.dataRx.sent <+: rx.sent
    rw [Chan.trySend_sent hsend]
    exact List.prefix_append _ _

theorem continues_close (r : BridgeRelay) : r.Continues r.close where
  accounted h := h.of_queue rfl
  sent := List.prefix_rfl

/-- The first chunk the relay was handed is the first of `cells`. -/
structure FromStart (r : BridgeRelay) (cells : List Bytes) : Prop where
  accounted : r.Accounted
  first : ∃ data rest rest', data ≠ [] ∧ r.dataRx.sent = data :: rest ∧ cells = data :: rest'

theorem FromStart.continues {cells cells' : List Bytes} (h : r.FromStart cells)
    (hr : r.Continues r') (hcells : cells <+: cells') : r'.FromStart cells' := by
  obtain ⟨data, rest, rest', hne, hsent, rfl⟩ := h.first
  obtain ⟨more, hmore⟩ := hr.sent
  obtain ⟨more', rfl⟩ := hcells
  rw [hsent] at hmore
  exact ⟨hr.accounted h.accounted, data, rest ++ more, rest' ++ more', hne, hmore.symm, rfl⟩

/-- The first byte written is the first byte of the stream. -/
theorem FromStart.head {cells : List Bytes} (h : r.FromStart cells) {x : UInt8}
    (hx : r.written.flatten.head? = some x) : cells.flatten.head? = some x := by
  obtain ⟨data, rest, rest', hne, hsent, rfl⟩ := h.first
  obtain ⟨more, hmore⟩ := h.accounted.flatten_prefix
  obtain ⟨y, ys, hy⟩ := List.exists_cons_of_ne_nil hne
  have hwritten : r.written.flatten ≠ [] := by
    intro hnil
    rw [hnil] at hx
    cases hx
  have hsentx : r.dataRx.sent.flatten.head? = some x := by
    rw [← hmore, List.head?_append_of_ne_nil _ hwritten, hx]
  rw [hsent, List.flatten_cons, hy] at hsentx
  rw [List.flatten_cons, hy]
  exact hsentx

end BridgeRelay

/-- The stream a relay was spawned for. -/
def Bridge.key (b : Bridge) : UInt16 × Nat := (b.streamId, b.era)

namespace Demux

/-- The relays whose upstream connection was opened. -/
def connections (d : Demux) : List Bridge := d.bridges.filter fun b => b.relay.connected

/-- Between two closes of a stream id there is one connection at most, and the
    first byte written to it is the first data byte of the stream. -/
structure WholeStreams (d : Demux) : Prop where
  oneConnection : (d.connections.map Bridge.key).Nodup
  fromTheStart : ∀ b ∈ d.connections, ∀ x, b.relay.written.flatten.head? = some x →
    (d.uplink b.streamId b.era).flatten.head? = some x

/-- A cell that is given a new relay is the first data cell since the last close
    of its stream id. -/
def StartsWhole (d : Demux) : Event → Prop
  | .cell cell prev =>
      (decodeRealCell cell.bytes).2 ≠ [] →
      d.streamMap.lookup (decodeRealCell cell.bytes).1 = none →
      d.streamMap.entries.length < maxStreamsPerWire → prev < maxGlobalBridgeStreams →
        d.uplink (decodeRealCell cell.bytes).1 (d.era (decodeRealCell cell.bytes).1) = []
  | _ => True

/-- No cells are noted for closes that are still to come. -/
def Fresh (d : Demux) : Prop := ∀ streamId era, d.era streamId < era → d.uplink streamId era = []

/-- The invariant behind `WholeStreams`. -/
structure Started (d : Demux) : Prop where
  keys : (d.bridges.map Bridge.key).Nodup
  fromStart : ∀ b ∈ d.bridges, b.relay.FromStart (d.uplink b.streamId b.era)
  fresh : d.Fresh

variable {d d' : Demux} {streamId : UInt16} {data : Bytes} {prev : Nat}

theorem started_new (tail : TailPolicy) (now : Instant) : (new tail now).Started where
  keys := List.nodup_nil
  fromStart := nofun
  fresh _ _ _ := rfl

theorem Started.wholeStreams (h : d.Started) : d.WholeStreams where
  oneConnection := (List.filter_sublist.map Bridge.key).nodup h.keys
  fromTheStart b hb _ hx := (h.fromStart b (List.mem_of_mem_filter hb)).head hx

theorem keys_modifyRelay (d : Demux) (i : Nat) (f : BridgeRelay → BridgeRelay) :
    (d.modifyRelay i f).bridges.map Bridge.key = d.bridges.map Bridge.key := by
  apply List.ext_getElem?
  intro j
  rw [modifyRelay, List.getElem?_map, List.getElem?_map, List.getElem?_modify]
  cases d.bridges[j]? with
  | none => rfl
  | some b =>
      show some (Bridge.key (if i = j then _ else b)) = some b.key
      split <;> rfl

/-- A move of one relay that continues what it did before. -/
theorem Started.modifyRelay (h : d.Started) {i : Nat} {f : BridgeRelay → BridgeRelay}
    (hf : ∀ b, d.bridges[i]? = some b → b.relay.Continues (f b.relay)) :
    (d.modifyRelay i f).Started where
  keys := by
    rw [keys_modifyRelay]
    exact h.keys
  fromStart b' hb' := by
    rcases mem_modifyRelay hb' with ⟨b, hb, rfl⟩ | ⟨j, -, hj⟩
    · exact (h.fromStart b (List.mem_of_getElem? hb)).continues (hf b hb) List.prefix_rfl
    · exact h.fromStart b' (List.mem_of_getElem? hj)
  fresh := h.fresh

theorem Started.closeStream (h : d.Started) (streamId : UInt16) :
    (d.closeStream streamId).Started := by
  rw [Demux.closeStream]
  split
  · exact h
  · next i hi =>
    have hclosed : (d.modifyRelay i .close).Started :=
      h.modifyRelay fun b _ => BridgeRelay.continues_close b.relay
    exact ⟨hclosed.keys, hclosed.fromStart, hclosed.fresh⟩

theorem Started.hangUp (h : d.Started) : d.hangUp.Started where
  keys := by
    show ((d.bridges.map fun b => { b with relay := b.relay.close }).map Bridge.key).Nodup
    rw [List.map_map]
    exact h.keys
  fromStart b' hb' := by
    obtain ⟨b, hb, rfl⟩ := List.mem_map.mp hb'
    exact (h.fromStart b hb).continues (BridgeRelay.continues_close b.relay) List.prefix_rfl
  fresh := h.fresh

theorem Started.dropCell (h : d.Started) (streamId : UInt16) (data : Bytes) :
    (d.dropCell streamId data).Started := ⟨h.keys, h.fromStart, h.fresh⟩

theorem Started.onRelay (h : d.Started) {i : Nat} {f : BridgeRelay → Option BridgeRelay}
    (hf : ∀ r r', f r = some r' → r.Continues r') (hstep : d.onRelay i f = some d') :
    d'.Started := by
  obtain ⟨b, r, hb, hr, rfl⟩ := onRelay_eq_some hstep
  apply h.modifyRelay
  intro b' hb'
  obtain rfl := Option.some.inj (hb.symm.trans hb')
  exact hf _ _ hr

-- ============================================================================
-- What a cell adds to the history
-- ============================================================================

theorem record_era (hdata : data ≠ []) (id : UInt16) :
    (d.record streamId data).era id = d.era id := by
  rw [record, if_neg hdata]

theorem record_uplink_self (hdata : data ≠ []) :
    (d.record streamId data).uplink streamId (d.era streamId) =
      d.uplink streamId (d.era streamId) ++ [data] := by
  rw [record, if_neg hdata]
  simp only [Function.update_self]

theorem record_uplink_of_ne (d : Demux) {id : UInt16} (hid : id ≠ streamId) (data : Bytes) :
    (d.record streamId data).uplink id = d.uplink id ∧
      (d.record streamId data).era id = d.era id := by
  rw [record]
  split
  · exact ⟨rfl, Function.update_of_ne hid _ _⟩
  · exact ⟨Function.update_of_ne hid _ _, rfl⟩

/-- The history of a stream only grows. -/
theorem record_uplink_grows (d : Demux) (streamId : UInt16) (data : Bytes) (id : UInt16)
    (era : Nat) : d.uplink id era <+: (d.record streamId data).uplink id era := by
  rw [record]
  split
  · exact List.prefix_rfl
  · show d.uplink id era <+: Function.update d.uplink streamId _ id era
    by_cases hid : id = streamId
    · subst hid
      rw [Function.update_self]
      by_cases hera : era = d.era id
      · subst hera
        rw [Function.update_self]
        exact List.prefix_append _ _
      · rw [Function.update_of_ne hera]
    · rw [Function.update_of_ne hid]

/-- A cell is noted for the closes there were, and a close for itself. -/
theorem Fresh.record (h : d.Fresh) (streamId : UInt16) (data : Bytes) :
    (d.record streamId data).Fresh := by
  intro id era hlt
  by_cases hid : id = streamId
  · subst hid
    by_cases hdata : data = []
    · rw [Demux.record, if_pos hdata] at hlt ⊢
      change Function.update d.era id (d.era id + 1) id < era at hlt
      rw [Function.update_self] at hlt
      exact h id era (Nat.lt_of_succ_lt hlt)
    · rw [record_era hdata] at hlt
      rw [Demux.record, if_neg hdata]
      show Function.update d.uplink id _ id era = []
      rw [Function.update_self, Function.update_of_ne (Nat.ne_of_gt hlt)]
      exact h id era hlt
  · obtain ⟨huplink, hera⟩ := d.record_uplink_of_ne hid data
    rw [huplink]
    exact h id era (hera ▸ hlt)

theorem Started.record (h : d.Started) (streamId : UInt16) (data : Bytes) :
    (d.record streamId data).Started where
  keys := by
    rw [record_bridges]
    exact h.keys
  fromStart b hb := by
    rw [record_bridges] at hb
    exact (h.fromStart b hb).continues ⟨id, List.prefix_rfl⟩ (record_uplink_grows ..)
  fresh := h.fresh.record streamId data

-- ============================================================================
-- Steps and runs
-- ============================================================================

/-- A relay spawned for the first cell of a stream starts the stream. -/
theorem Started.openBridge (h : d.Started) (hdata : data ≠ [])
    (hfirst : d.uplink streamId (d.era streamId) = []) {rx : Chan Bytes streamChannelCap}
    (hsend : Chan.new.trySend data = .ok rx) :
    (((d.record streamId data).openBridge streamId).modifyRelay
      (d.record streamId data).bridges.length fun r => { r with dataRx := rx }).Started := by
  have hrec := h.record streamId data
  have hsent : rx.sent = [data] := Chan.trySend_sent hsend
  have hcells : (d.record streamId data).uplink streamId ((d.record streamId data).era streamId)
      = [data] := by
    rw [record_era hdata, record_uplink_self hdata, hfirst, List.nil_append]
  -- no relay has the key of the new one: it would have been handed a first cell
  have hnew : (streamId, d.era streamId) ∉ d.bridges.map Bridge.key := by
    intro hmem
    obtain ⟨b, hb, hkey⟩ := List.mem_map.mp hmem
    obtain ⟨hid, hera⟩ := Prod.mk.inj hkey
    obtain ⟨first, -, rest', -, -, hcells'⟩ := (h.fromStart b hb).first
    rw [hid, hera, hfirst] at hcells'
    cases hcells'
  refine ⟨?_, ?_, hrec.fresh⟩
  · rw [keys_modifyRelay]
    show ((d.record streamId data).bridges ++ [_]).map Bridge.key |>.Nodup
    rw [List.map_append, record_bridges]
    apply List.Nodup.append h.keys (List.nodup_singleton _)
    apply List.disjoint_singleton.mpr
    show (streamId, (d.record streamId data).era streamId) ∉ _
    rw [record_era hdata]
    exact hnew
  · intro b' hb'
    rcases mem_modifyRelay hb' with ⟨b, hb, rfl⟩ | ⟨j, hlast, hj⟩
    · rw [getElem?_openBridge_last] at hb
      obtain rfl := Option.some.inj hb
      exact ⟨⟨rfl, (Chan.trySend_eq_ok hsend).2.2.2.1⟩, data, [], [], hdata, hsent, hcells⟩
    · have hlt : j < (d.record streamId data).bridges.length := by
        have hlen := (List.getElem?_eq_some_iff.mp hj).1
        have hsucc : ((d.record streamId data).openBridge streamId).bridges.length =
            (d.record streamId data).bridges.length + 1 := List.length_append
        omega
      rw [getElem?_openBridge_of_lt hlt] at hj
      exact hrec.fromStart b' (List.mem_of_getElem? hj)

theorem step_started {e : Event} (h : d.Started) (hc : d.StartsWhole e)
    (hstep : d.step e = some d') : d'.Started := by
  cases e with
  | cell cell prev =>
      have hrec := h.record (decodeRealCell cell.bytes).1 (decodeRealCell cell.bytes).2
      cases (readCell_eq_some hstep).2 with
      | closes => exact hrec.closeStream _
      | dangles => exact hrec
      | sends _ _ hb hsend =>
          apply hrec.modifyRelay
          intro b' hb'
          obtain rfl := Option.some.inj (hb.symm.trans hb')
          exact BridgeRelay.continues_send hsend
      | gone => exact (hrec.closeStream _).dropCell _ _
      | full | globalCap => exact hrec.dropCell _ _
      | wireCap => exact hrec.hangUp.dropCell _ _
      | opens hdata hl hwire hglobal hsend =>
          rw [record_streamMap] at hl hwire
          exact h.openBridge hdata (hc hdata hl hwire hglobal) hsend
  | wireEnds =>
      have hend : (if d.ended then none else some d.hangUp) = some d' := hstep
      split at hend
      · cases hend
      · obtain rfl := Option.some.inj hend
        exact h.hangUp
  | advance elapsed =>
      obtain rfl := Option.some.inj hstep
      exact ⟨h.keys, h.fromStart, h.fresh⟩
  | poll i => exact h.onRelay (fun _ _ => BridgeRelay.continues_poll) hstep
  | deadline i => exact h.onRelay (fun _ _ => BridgeRelay.continues_fireDeadline) hstep
  | connectFails i => exact h.onRelay (fun _ _ => BridgeRelay.continues_connectFails) hstep
  | writeFails i n => exact h.onRelay (fun _ _ => BridgeRelay.continues_writeFails) hstep

/-- **One connection a stream.** Along every run in which the loop gives a new
    relay only to the first data cell after a close, whatever cells come and
    however relays are scheduled, end and fail, every stream id has at most one
    upstream connection between two closes, and the first byte written to it is
    the first data byte of the stream. -/
theorem wholeStreams_of_startsWhole (tail : TailPolicy) (now : Instant) (events : List Event)
    (hstarts : Machine.Meets step StartsWhole (new tail now) events) :
    Machine.Always step WholeStreams (new tail now) events :=
  (Machine.always_of_meets (fun _ _ _ => step_started) (started_new tail now) hstarts).mono
    fun _ h => h.wholeStreams

/-- A data cell of stream 1. -/
def dataCell (byte : UInt8) : Cell := (encodeRealCell 1 [byte] (⟨0⟩ : FixedRng)).1

/-- A stream that is opened, connected and written to. -/
theorem wholeStreams_of_startsWhole_one_cell :
    ∃ d, Machine.run step (new .off 0) [.cell (dataCell 7) 0, .poll 0, .poll 0, .poll 0] = some d ∧
      d.connections.map (fun b => (b.key, b.relay.written)) = [((1, 0), [[7]])] ∧
      d.WholeStreams := by
  have hrun : (Machine.run step (new .off 0)
      [.cell (dataCell 7) 0, .poll 0, .poll 0, .poll 0]).map
        (fun d => d.connections.map fun b => (b.key, b.relay.written)) =
      some [((1, 0), [[7]])] := by
    decide +kernel
  obtain ⟨d, hd, hconn⟩ := Option.map_eq_some_iff.mp hrun
  have hall := wholeStreams_of_startsWhole .off 0
    [.cell (dataCell 7) 0, .poll 0, .poll 0, .poll 0]
    fun _ _ => ⟨fun _ _ _ _ => rfl, fun _ _ => ⟨trivial, fun _ _ => ⟨trivial,
      fun _ _ => ⟨trivial, trivial⟩⟩⟩⟩
  exact ⟨d, hd, hconn, hall.last hd⟩

/-- The first cell of a stream is refused at the global cap, the second is given
    a relay: a connection is opened for the middle of the stream. -/
theorem connection_for_middle_of_stream :
    ((Machine.run step (new .off 0) [.cell (dataCell 7) 4096, .cell (dataCell 8) 4095,
        .poll 0, .poll 0, .poll 0]).map fun d =>
          (d.uplink 1 0, d.connections.map fun b => (b.key, b.relay.written)))
        = some ([[7], [8]], [((1, 0), [[8]])]) ∧
      ¬ Machine.Always step WholeStreams (new .off 0)
        [.cell (dataCell 7) 4096, .cell (dataCell 8) 4095, .poll 0, .poll 0, .poll 0] := by
  have hrun : ((Machine.run step (new .off 0) [.cell (dataCell 7) 4096, .cell (dataCell 8) 4095,
      .poll 0, .poll 0, .poll 0]).map fun d =>
        (d.uplink 1 0, d.connections.map fun b => (b.key, b.relay.written)))
      = some ([[7], [8]], [((1, 0), [[8]])]) := by
    decide +kernel
  refine ⟨hrun, fun h => ?_⟩
  obtain ⟨d, hd, hstate⟩ := Option.map_eq_some_iff.mp hrun
  obtain ⟨huplink, hconn⟩ := Prod.mk.inj hstate
  obtain ⟨b, hb, hkw⟩ := List.mem_map.mp (hconn ▸ List.mem_singleton_self _)
  obtain ⟨hkey, hwritten⟩ := Prod.mk.inj hkw
  obtain ⟨hid, hera⟩ := Prod.mk.inj hkey
  have hfirst := (h.last hd).fromTheStart b hb 8 (by rw [hwritten]; rfl)
  rw [hid, hera, huplink] at hfirst
  exact absurd hfirst (by decide)

-- ============================================================================
-- The causes
-- ============================================================================

/-- The global cap refuses the cell, or it finds its relay gone. -/
def TurnedAway (d : Demux) (streamId : UInt16) (data : Bytes) (prev : Nat) : Prop :=
  (d.streamMap.lookup streamId = none ∧ maxGlobalBridgeStreams ≤ prev) ∨
    ∃ i b, d.streamMap.lookup streamId = some i ∧ d.bridges[i]? = some b ∧
      b.relay.dataRx.trySend data = .error .closed

/-- A close forgets its stream, and a cell that is turned away interrupts it. -/
def InterruptedBy (d : Demux) (ids : UInt16 → Prop) (streamId : UInt16) (data : Bytes) (prev : Nat)
    (id : UInt16) : Prop :=
  if data = [] then ids id ∧ id ≠ streamId
  else ids id ∨ id = streamId ∧ d.TurnedAway id data prev

/-- The stream ids of which a cell was turned away since their last close. -/
def Interrupted (d : Demux) (ids : UInt16 → Prop) : Event → UInt16 → Prop
  | .cell cell prev =>
      d.InterruptedBy ids (decodeRealCell cell.bytes).1 (decodeRealCell cell.bytes).2 prev
  | _ => ids

/-- No data cell of an interrupted stream is given a new relay. -/
def Uninterrupted (s : Demux × (UInt16 → Prop)) : Event → Prop
  | .cell cell prev =>
      (decodeRealCell cell.bytes).2 ≠ [] →
      s.1.streamMap.lookup (decodeRealCell cell.bytes).1 = none →
      s.1.streamMap.entries.length < maxStreamsPerWire → prev < maxGlobalBridgeStreams →
        ¬ s.2 (decodeRealCell cell.bytes).1
  | _ => True

/-- While the loop runs, a stream with cells and no sender was interrupted. -/
structure Remembers (s : Demux × (UInt16 → Prop)) : Prop where
  fresh : s.1.Fresh
  interrupted : s.1.ended = false → ∀ id, s.1.streamMap.lookup id = none →
    s.1.uplink id (s.1.era id) ≠ [] → s.2 id

variable {ids : UInt16 → Prop}

/-- What is remembered does not depend on the relays. -/
theorem Remembers.of_frame (h : Remembers (d, ids))
    (hframe : d'.ended = d.ended ∧ d'.streamMap = d.streamMap ∧ d'.era = d.era ∧
      d'.uplink = d.uplink) : Remembers (d', ids) := by
  obtain ⟨hended, hmap, hera, huplink⟩ := hframe
  refine ⟨fun id era hlt => ?_, fun hrun id hl hcells => h.interrupted (hended ▸ hrun) id ?_ ?_⟩
  · show d'.uplink id era = []
    rw [huplink]
    exact h.fresh id era (hera ▸ hlt)
  · exact hmap ▸ hl
  · rw [hera, huplink] at hcells
    exact hcells

theorem closeStream_history (d : Demux) (streamId : UInt16) :
    (d.closeStream streamId).era = d.era ∧ (d.closeStream streamId).uplink = d.uplink := by
  rw [closeStream]
  split <;> exact ⟨rfl, rfl⟩

/-- A stream whose cell is another one's keeps its cells. -/
theorem Remembers.other (h : Remembers (d, ids)) (hrun : d.ended = false) {id : UInt16}
    (hne : id ≠ streamId) (hl : d.streamMap.lookup id = none)
    (hcells : (d.record streamId data).uplink id ((d.record streamId data).era id) ≠ []) :
    ids id := by
  obtain ⟨huplink, hera⟩ := d.record_uplink_of_ne hne data
  rw [huplink, hera] at hcells
  exact h.interrupted hrun id hl hcells

/-- A close begins a new history. -/
theorem Remembers.closes (h : Remembers (d, ids)) (hrun : d.ended = false) (hdata : data = []) :
    Remembers ((d.record streamId data).closeStream streamId,
      d.InterruptedBy ids streamId data prev) := by
  obtain ⟨hera, huplink⟩ := closeStream_history (d.record streamId data) streamId
  refine ⟨fun id era => ?_, fun _ id hl hcells => ?_⟩
  · show ((d.record streamId data).closeStream streamId).era id < era →
      ((d.record streamId data).closeStream streamId).uplink id era = []
    rw [hera, huplink]
    exact h.fresh.record streamId data id era
  · simp only [hera, huplink] at hcells
    by_cases hne : id = streamId
    · subst hne
      rw [Demux.record, if_pos hdata] at hcells
      change d.uplink id (Function.update d.era id (d.era id + 1) id) ≠ [] at hcells
      rw [Function.update_self, h.fresh id _ (Nat.lt_succ_self _)] at hcells
      exact absurd rfl hcells
    · have hold := (lookup_closeStream_of_ne _ hne).symm.trans hl
      rw [record_streamMap] at hold
      simp only [InterruptedBy, if_pos hdata]
      exact ⟨h.other hrun hne hold hcells, hne⟩

/-- A data cell: its stream has a sender behind it, or was turned away. -/
theorem Remembers.keeps (h : Remembers (d, ids)) (hrun : d.ended = false) (hdata : data ≠ [])
    (hera : d'.era = (d.record streamId data).era)
    (huplink : d'.uplink = (d.record streamId data).uplink)
    (hself : d'.streamMap.lookup streamId = none → d.TurnedAway streamId data prev)
    (hmap : ∀ id, id ≠ streamId → d'.streamMap.lookup id = none → d.streamMap.lookup id = none) :
    Remembers (d', d.InterruptedBy ids streamId data prev) := by
  refine ⟨fun id era => ?_, fun _ id hl hcells => ?_⟩
  · show d'.era id < era → d'.uplink id era = []
    rw [hera, huplink]
    exact h.fresh.record streamId data id era
  · simp only [hera, huplink] at hcells
    simp only [InterruptedBy, if_neg hdata]
    by_cases hne : id = streamId
    · subst hne
      exact .inr ⟨rfl, hself hl⟩
    · exact .inl (h.other hrun hne (hmap id hne hl) hcells)

/-- One that leaves the senders alone. -/
theorem Remembers.keeps_of_same (h : Remembers (d, ids)) (hrun : d.ended = false)
    (hdata : data ≠ []) (hera : d'.era = (d.record streamId data).era)
    (huplink : d'.uplink = (d.record streamId data).uplink)
    (hmap : d'.streamMap = (d.record streamId data).streamMap)
    (hself : d.streamMap.lookup streamId = none → d.TurnedAway streamId data prev) :
    Remembers (d', d.InterruptedBy ids streamId data prev) := by
  rw [record_streamMap] at hmap
  exact h.keeps hrun hdata hera huplink (fun hnone => hself (hmap ▸ hnone)) fun _ _ hnone =>
    hmap ▸ hnone

theorem Remembers.routed (h : Remembers (d, ids)) (hrun : d.ended = false)
    (hrouted : (d.record streamId data).Routed streamId data prev d') :
    Remembers (d', d.InterruptedBy ids streamId data prev) := by
  cases hrouted with
  | closes hdata => exact h.closes hrun hdata
  | dangles hdata hl _ | sends hdata hl _ _ | full hdata hl _ _ =>
      rw [record_streamMap] at hl
      exact h.keeps_of_same hrun hdata rfl rfl rfl fun hnone =>
        absurd (hl.symm.trans hnone) (Option.some_ne_none _)
  | gone hdata hl hb hsend =>
      rw [record_streamMap] at hl
      rw [record_bridges] at hb
      obtain ⟨hera, huplink⟩ := closeStream_history (d.record streamId data) streamId
      refine h.keeps hrun hdata hera huplink (fun _ => .inr ⟨_, _, hl, hb, hsend⟩)
        fun id hne hnone => ?_
      have hold := (lookup_closeStream_of_ne _ hne).symm.trans hnone
      rwa [record_streamMap] at hold
  | wireCap _ _ _ =>
      exact ⟨h.fresh.record streamId data, fun hrun => absurd hrun.symm Bool.false_ne_true⟩
  | globalCap hdata hl hcap =>
      rw [record_streamMap] at hl
      exact h.keeps_of_same hrun hdata rfl rfl rfl fun _ => .inl ⟨hl, hcap⟩
  | opens hdata hl hwire hglobal hsend =>
      refine h.keeps hrun hdata rfl rfl (fun hnone => ?_) fun id hne hnone => ?_
      · change ((d.record streamId data).streamMap.insert streamId _).lookup streamId = none
          at hnone
        rw [AList.lookup_insert] at hnone
        cases hnone
      · change ((d.record streamId data).streamMap.insert streamId _).lookup id = none at hnone
        rwa [AList.lookup_insert_ne hne, record_streamMap] at hnone

theorem Remembers.step {e : Event} (h : Remembers (d, ids)) (hstep : d.step e = some d') :
    Remembers (d', d.Interrupted ids e) := by
  have hrelay : ∀ {i : Nat} {f : BridgeRelay → Option BridgeRelay}, d.onRelay i f = some d' →
      Remembers (d', ids) := by
    intro i f hmove
    obtain ⟨b, r, -, -, rfl⟩ := onRelay_eq_some hmove
    exact h.of_frame ⟨rfl, rfl, rfl, rfl⟩
  cases e with
  | cell cell prev =>
      obtain ⟨hrun, hrouted⟩ := readCell_eq_some hstep
      exact h.routed hrun hrouted
  | wireEnds =>
      have hend : (if d.ended then none else some d.hangUp) = some d' := hstep
      split at hend
      · cases hend
      · obtain rfl := Option.some.inj hend
        exact ⟨h.fresh, fun hrun => absurd hrun.symm Bool.false_ne_true⟩
  | advance elapsed =>
      obtain rfl := Option.some.inj hstep
      exact h.of_frame ⟨rfl, rfl, rfl, rfl⟩
  | poll | deadline | connectFails | writeFails =>
      rw [Demux.step] at hstep
      exact hrelay hstep

/-- **Why a connection starts in the middle of a stream.**  In every run in which no data
    cell is given a new relay when, since the last close of its stream, another one was
    refused by the global cap or found its relay gone, only first cells are given
    relays. -/
theorem startsWhole_of_uninterrupted (tail : TailPolicy) (now : Instant) {events : List Event}
    (h : Machine.Meets (Machine.traced Interrupted step) Uninterrupted
      (new tail now, fun _ => False) events) :
    Machine.Meets step StartsWhole (new tail now) events := by
  refine Machine.meets_of_traced (J := Remembers) (fun d ids e d' hd hstep hun => ?_) ?_
    ⟨fun _ _ _ => rfl, fun _ _ _ hcells => absurd rfl hcells⟩ h
  · cases e with
    | cell cell prev =>
        intro hdata hl hwire hglobal
        by_contra hcells
        exact hun hdata hl hwire hglobal (hd.interrupted (readCell_eq_some hstep).1 _ hl hcells)
    | wireEnds | advance | poll | deadline | connectFails | writeFails => trivial
  · intro d ids e d' hd hstep
    exact hd.step hstep

end Demux

end MixTor
