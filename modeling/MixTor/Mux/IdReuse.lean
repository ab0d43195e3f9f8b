/-
  MixTor.Mux.IdReuse

  Stream ids that are given out again (transport.rs).

  `add_stream` skips the ids in the client's map.  An id leaves that map with the
  first close the client reads, and from then on it may be given to another
  circuit, while cells of the old one are still on the way, or while the server
  still holds the bridge connection that was opened for the old one and sends on
  what it reads there.

  An id is quiet when nothing of that is left.  As long as only quiet ids are
  given out, every cell, every running task and both maps belong to the last
  circuit of their id, and each cell reaches the circuit it is there for.  The
  code does not wait for that: a bridge that answers late enough reaches another
  circuit once the counter has come around.
-/

import MixTor.Mux.MuxTraffic

namespace MixTor

open Channel
open Crypto (Bytes)
open Keyed (Latest latest_concat)

namespace MuxTraffic

/-- No cell that was there for one circuit was delivered to, or closed, a later
    one of the same stream id. -/
def NotCrossed (w : MuxTraffic) : Prop :=
  ∀ p ∈ w.routed, p.1 < p.2 → w.ids[p.1]? ≠ w.ids[p.2]?

/-- Nothing of a stream id is left: no cell of it is on the way, no circuit reads
    under it, and no relay of it reads from its bridge or is still to connect. -/
structure Quiet (w : MuxTraffic) (s : UInt16) : Prop where
  uplink : ∀ cell ∈ w.uplink, cell.streamId ≠ s
  downlink : ∀ cell ∈ w.downlink, cell.streamId ≠ s
  circuits : ∀ t ∈ w.circuits, t.streamId = s → t.reading = false
  bridges : ∀ (i : Nat) (b : Bridge) (u : Upstream), w.server.bridges[i]? = some b →
    w.upstreams[i]? = some u → b.streamId = s → u.readerEnded = true ∨ b.relay.NeverConnects

/-- Only quiet ids are given out. -/
def ReusesQuiet (w : MuxTraffic) : Event → Prop
  | .openCircuit => ∀ s nextId, w.addStream = some (s, nextId) → w.Quiet s
  | _ => True

variable {w w' : MuxTraffic}

-- ============================================================================
-- The invariant
-- ============================================================================

/-- The map, the tasks and the cells belong to the last circuit of their id, and
    every cell that has arrived belonged to the circuit it reached. -/
structure Owned (ids : List UInt16) (w : MuxTraffic) : Prop where
  relays : w.upstreams.length = w.server.bridges.length
  streamMap : ∀ s c, w.streamMap.lookup s = some c → Latest ids c s
  reading : ∀ c t, w.circuits[c]? = some t → t.reading = true → Latest ids c t.streamId
  uplink : ∀ cell ∈ w.uplink, Latest ids cell.circuit cell.streamId
  bridges : ∀ (i : Nat) (b : Bridge) (u : Upstream), w.server.bridges[i]? = some b →
    w.upstreams[i]? = some u →
      u.readerEnded = true ∨ b.relay.NeverConnects ∨ Latest ids u.owner b.streamId
  downlink : ∀ cell ∈ w.downlink, Latest ids cell.circuit cell.streamId
  routed : ∀ p ∈ w.routed, p.1 = p.2


theorem owned_new (tail : TailPolicy) (now : Instant) :
    (new tail now).Owned (new tail now).ids where
  relays := rfl
  streamMap s c hl := by
    rw [new, AList.lookup_empty] at hl
    cases hl
  reading _ _ ht := nomatch ht
  uplink _ hmem := nomatch hmem
  bridges _ _ _ hb := nomatch hb
  downlink _ hmem := nomatch hmem
  routed _ hmem := nomatch hmem

variable {ids : List UInt16}

/-- A change of a circuit that keeps its id and starts no reader. -/
theorem Owned.circuits (h : w.Owned ids) {i : Nat} {f : MuxCircuit → MuxCircuit}
    (hf : ∀ t, w.circuits[i]? = some t →
      (f t).streamId = t.streamId ∧ ((f t).reading = true → t.reading = true)) :
    Owned ids { w with circuits := w.circuits.modify i f } where
  relays := h.relays
  streamMap := h.streamMap
  uplink := h.uplink
  bridges := h.bridges
  downlink := h.downlink
  routed := h.routed
  reading c t' ht' hreading := by
    rcases Keyed.modify_cases ht' with ⟨-, ht⟩ | ⟨rfl, t, ht, rfl⟩
    · exact h.reading c t' ht hreading
    · obtain ⟨hid, hread⟩ := hf t ht
      rw [hid]
      exact h.reading i t ht (hread hreading)

theorem Owned.sendUp (h : w.Owned ids) {cell : TaggedCell}
    (hcell : Latest ids cell.circuit cell.streamId) :
    Owned ids { w with uplink := w.uplink ++ [cell] } where
  relays := h.relays
  streamMap := h.streamMap
  reading := h.reading
  bridges := h.bridges
  downlink := h.downlink
  routed := h.routed
  uplink cell' hmem := by
    rcases List.mem_append.mp hmem with hold | hnew
    · exact h.uplink cell' hold
    · obtain rfl := List.mem_singleton.mp hnew
      exact hcell

theorem Owned.sendDown (h : w.Owned ids) {cell : TaggedCell}
    (hcell : Latest ids cell.circuit cell.streamId) :
    Owned ids { w with downlink := w.downlink ++ [cell] } where
  relays := h.relays
  streamMap := h.streamMap
  reading := h.reading
  uplink := h.uplink
  bridges := h.bridges
  routed := h.routed
  downlink cell' hmem := by
    rcases List.mem_append.mp hmem with hold | hnew
    · exact h.downlink cell' hold
    · obtain rfl := List.mem_singleton.mp hnew
      exact hcell

/-- A relay that connects or runs still belongs to the last circuit of its id. -/
theorem Owned.owner (h : w.Owned ids) {i : Nat} {b : Bridge} {u : Upstream}
    (hb : w.server.bridges[i]? = some b) (hu : w.upstreams[i]? = some u)
    (hconn : b.relay.connected = true) (hrun : u.readerEnded = false) :
    Latest ids u.owner b.streamId := by
  rcases h.bridges i b u hb hu with hended | hnever | howner
  · rw [hrun] at hended
    cases hended
  · rw [hnever.1] at hconn
    cases hconn
  · exact howner

/-- The relays move, or lose their senders. -/
theorem Owned.server (h : w.Owned ids) {server : Demux}
    (hlen : server.bridges.length = w.server.bridges.length)
    (hmove : ∀ (i : Nat) (b' : Bridge), server.bridges[i]? = some b' →
      ∃ b : Bridge, w.server.bridges[i]? = some b ∧ b'.streamId = b.streamId ∧
        (b.relay.NeverConnects → b'.relay.NeverConnects)) :
    Owned ids { w with server } where
  relays := h.relays.trans hlen.symm
  streamMap := h.streamMap
  reading := h.reading
  uplink := h.uplink
  downlink := h.downlink
  routed := h.routed
  bridges i b' u hb' hu := by
    obtain ⟨b, hb, hid, hnever⟩ := hmove i b' hb'
    rcases h.bridges i b u hb hu with hended | hn | howner
    · exact .inl hended
    · exact .inr (.inl (hnever hn))
    · rw [hid]
      exact .inr (.inr howner)

theorem Owned.endReader (h : w.Owned ids) (relay : Nat) : (w.endReader relay).Owned ids where
  relays := (List.length_modify _ _ _).trans h.relays
  streamMap := h.streamMap
  reading := h.reading
  uplink := h.uplink
  downlink := h.downlink
  routed := h.routed
  bridges i b u' hb hu' := by
    rcases Keyed.modify_cases hu' with ⟨-, hu⟩ | ⟨-, u, -, rfl⟩
    · exact h.bridges i b u' hb hu
    · exact .inl rfl

/-- `add_stream` gives out an id of which nothing is left. -/
theorem Owned.openCircuit (h : w.Owned w.ids) {s nextId : UInt16}
    (hadd : w.addStream = some (s, nextId)) (hquiet : w.Quiet s) :
    Owned (w.ids ++ [s]) { w with
      nextId
      streamMap := w.streamMap.insert s w.circuits.length
      circuits := w.circuits ++ [.opened s] } := by
  have hlen : w.ids.length = w.circuits.length := List.length_map _
  constructor
  case relays => exact h.relays
  case streamMap =>
    intro s' c hl
    by_cases hs : s' = s
    · subst hs
      rw [AList.lookup_insert] at hl
      obtain rfl := Option.some.inj hl
      rw [← hlen]
      exact latest_concat w.ids s'
    · rw [AList.lookup_insert_ne hs] at hl
      exact (h.streamMap s' c hl).concat hs
  case reading =>
    intro c t ht hreading
    by_cases hlt : c < w.circuits.length
    · rw [List.getElem?_append_left hlt] at ht
      refine (h.reading c t ht hreading).concat ?_
      intro hs
      rw [hquiet.circuits t (List.mem_of_getElem? ht) hs] at hreading
      cases hreading
    · have hc := (List.getElem?_eq_some_iff.mp ht).1
      rw [List.length_append, List.length_singleton] at hc
      obtain rfl : c = w.circuits.length := by omega
      rw [List.getElem?_concat_length] at ht
      obtain rfl := Option.some.inj ht
      rw [← hlen]
      exact latest_concat w.ids s
  case uplink => exact fun cell hmem => (h.uplink cell hmem).concat (hquiet.uplink cell hmem)
  case downlink => exact fun cell hmem => (h.downlink cell hmem).concat (hquiet.downlink cell hmem)
  case routed => exact h.routed
  case bridges =>
    intro i b u hb hu
    by_cases hs : b.streamId = s
    · exact (hquiet.bridges i b u hb hu hs).imp id .inl
    · exact (h.bridges i b u hb hu).imp id (Or.imp id fun howner => howner.concat hs)

/-- The demux takes a cell of the last circuit of its id. -/
theorem Owned.serverReads (h : w.Owned ids) {prev : Nat} {cell : TaggedCell}
    {rest : List TaggedCell} {server : Demux} (hup : w.uplink = cell :: rest)
    (hrouted : (w.server.record cell.streamId cell.data).Routed cell.streamId cell.data prev
      server) : Owned ids (demux { w with uplink := rest } cell server) := by
  have hcell : Latest ids cell.circuit cell.streamId := h.uplink cell (hup ▸ List.mem_cons_self)
  have hlen := Demux.routed_length hrouted
  constructor
  case streamMap => exact h.streamMap
  case reading => exact h.reading
  case routed => exact h.routed
  case uplink => exact fun c hc => h.uplink c (hup ▸ List.mem_cons_of_mem _ hc)
  case downlink =>
    intro c hc
    change c ∈ (if cell.data = [] then w.downlink ++ [cell] else w.downlink) at hc
    split at hc
    · rcases List.mem_append.mp hc with hold | hnew
      · exact h.downlink c hold
      · obtain rfl := List.mem_singleton.mp hnew
        exact hcell
    · exact h.downlink c hc
  case relays =>
    show (if w.server.bridges.length < server.bridges.length
      then w.upstreams ++ [⟨cell.circuit, false⟩] else w.upstreams).length = server.bridges.length
    split
    · rw [List.length_append, List.length_singleton, h.relays]
      omega
    · rw [h.relays]
      omega
  case bridges =>
    intro i b' u hb' hu
    rcases Demux.routed_getElem? hrouted hb' with ⟨b, hb, hst⟩ | ⟨rfl, hnew, -, hst⟩
    · have hlt : i < w.upstreams.length := h.relays ▸ (List.getElem?_eq_some_iff.mp hb).1
      have hu' : w.upstreams[i]? = some u := by
        rw [← hu]
        show _ = (if _ then w.upstreams ++ [_] else w.upstreams)[i]?
        split
        · exact (List.getElem?_append_left hlt).symm
        · rfl
      rcases h.bridges i b u hb hu' with hended | hnever | howner
      · exact .inl hended
      · exact .inr (.inl (Bridge.neverConnects_of_standing hst hnever))
      · rw [Bridge.streamId_of_standing hst]
        exact .inr (.inr howner)
    · have hid : b'.streamId = cell.streamId := congrArg Prod.fst hst
      have hu' : u = ⟨cell.circuit, false⟩ := by
        change (if w.server.bridges.length < server.bridges.length
          then w.upstreams ++ [⟨cell.circuit, false⟩] else w.upstreams)[w.server.bridges.length]?
            = some u at hu
        rw [if_pos (by omega), ← h.relays, List.getElem?_concat_length] at hu
        exact (Option.some.inj hu).symm
      rw [hu', hid]
      exact .inr (.inr hcell)

/-- The inbound task takes a cell: the circuit in the map is the one it is there for. -/
theorem Owned.receive (h : w.Owned ids) {cell : TaggedCell}
    (hcell : Latest ids cell.circuit cell.streamId) (hrec : w.Received cell w') :
    w'.Owned ids := by
  have harrive : ∀ c, w.streamMap.lookup cell.streamId = some c →
      ∀ p ∈ w.routed ++ [(cell.circuit, c)], p.1 = p.2 := by
    intro c hl p hp
    rcases List.mem_append.mp hp with hold | hnew
    · exact h.routed p hold
    · obtain rfl := List.mem_singleton.mp hnew
      exact hcell.unique (h.streamMap _ _ hl)
  have hremove : ∀ s c, (w.removeStream s c).Owned ids := by
    intro s c
    have hclosed := h.circuits (i := c) (f := MuxCircuit.close) fun t _ => ⟨rfl, id⟩
    refine { hclosed with streamMap := ?_ }
    intro s' c' hl
    by_cases hs : s' = s
    · subst hs
      have hnone : (w.streamMap.erase s').lookup s' = none := AList.lookup_erase s' _
      rw [removeStream, hnone] at hl
      cases hl
    · exact h.streamMap s' c' ((AList.lookup_erase_ne hs).symm.trans hl)
  cases hrec with
  | absent | dangles | full => exact h
  | closes hl | gone hl => exact { hremove _ _ with routed := harrive _ hl }
  | @delivers c t rx hl =>
      have hsent := h.circuits (i := c) (f := fun t => { t with downRx := rx }) fun t _ => ⟨rfl, id⟩
      exact { hsent with routed := harrive c hl }

/-- The relays move, or lose their senders. -/
theorem Owned.standing (h : w.Owned ids) {server : Demux}
    (hst : server.bridges.map Bridge.standing = w.server.bridges.map Bridge.standing) :
    Owned ids { w with server } := by
  refine h.server (by simpa using congrArg List.length hst) ?_
  intro i b' hb'
  have hmap : (w.server.bridges.map Bridge.standing)[i]? = some b'.standing := by
    rw [← hst, List.getElem?_map, hb']
    rfl
  rw [List.getElem?_map] at hmap
  obtain ⟨b, hb, heq⟩ := Option.map_eq_some_iff.mp hmap
  exact ⟨b, hb, Bridge.streamId_of_standing heq.symm, Bridge.neverConnects_of_standing heq.symm⟩

theorem Owned.local (h : w.Owned ids) {e : Demux.Event} {server : Demux}
    (hlocal : e.isLocal = true) (hstep : w.server.step e = some server) :
    Owned ids { w with server } := by
  rcases Demux.local_cases hlocal hstep with ⟨now, rfl⟩ | ⟨i, b, r, hb, hmoved, rfl⟩
  · exact { h with }
  · refine h.server (List.length_modify _ _ _) ?_
    intro j b' hb'
    rcases Keyed.modify_cases hb' with ⟨-, hold⟩ | ⟨rfl, b₀, hb₀, rfl⟩
    · exact ⟨b', hold, rfl, id⟩
    · obtain rfl := Option.some.inj (hb.symm.trans hb₀)
      exact ⟨b, hb, rfl, hmoved.neverConnects⟩

theorem Owned.read (h : w.Owned ids) {cell : TaggedCell} {rest : List TaggedCell}
    (hdown : w.downlink = cell :: rest) : Owned ids { w with downlink := rest } where
  relays := h.relays
  streamMap := h.streamMap
  reading := h.reading
  uplink := h.uplink
  bridges := h.bridges
  routed := h.routed
  downlink c hc := h.downlink c (hdown ▸ List.mem_cons_of_mem _ hc)

theorem Owned.stepped {e : Event} (h : w.Owned w.ids) (hstep : w.Stepped e w')
    (hopen : e ≠ .openCircuit) : w'.Owned w.ids := by
  cases hstep with
  | saturated | opened => exact absurd rfl hopen
  | readerSends ht hreading =>
      exact (h.circuits (by exact fun t _ => ⟨rfl, id⟩)).sendUp (h.reading _ _ ht hreading)
  | readerEof ht hreading =>
      exact (h.circuits (by exact fun t _ => ⟨rfl, nofun⟩)).sendUp (h.reading _ _ ht hreading)
  | readerFails => exact h.circuits (by exact fun t _ => ⟨rfl, nofun⟩)
  | writerPolls ht hpoll =>
      obtain ⟨hid, hreading, -⟩ := MuxCircuit.poll_frame hpoll
      apply h.circuits
      intro t ht'
      obtain rfl := Option.some.inj (ht.symm.trans ht')
      exact ⟨hid, fun hr => hreading.symm.trans hr⟩
  | writerFails ht hfail =>
      obtain ⟨hid, hreading, -⟩ := MuxCircuit.writeFails_frame hfail
      apply h.circuits
      intro t ht'
      obtain rfl := Option.some.inj (ht.symm.trans ht')
      exact ⟨hid, fun hr => hreading.symm.trans hr⟩
  | serverReads hup _ hrouted => exact h.serverReads hup hrouted
  | server hlocal hlocalStep => exact h.local hlocal hlocalStep
  | wireEnds => exact h.standing (Demux.standing_hangUp _)
  | bridgeSends hb hu hconn hrun => exact { h.sendDown (h.owner hb hu hconn hrun) with }
  | bridgeEof hb hu hconn hrun => exact (h.endReader _).sendDown (h.owner hb hu hconn hrun)
  | bridgeFails relay => exact h.endReader relay
  | clientReads hdown =>
      have hcell := h.downlink _ (hdown ▸ List.mem_cons_self)
      exact (h.read hdown).receive hcell (receive_received _ _)

/-- **Step lemma.** A step that gives out no id before it is quiet keeps every cell,
    every task and both maps with the last circuit of their id. -/
theorem step_owned {e : Event} (h : w.Owned w.ids) (hc : w.ReusesQuiet e)
    (hstep : w.step e = some w') : w'.Owned w'.ids := by
  have hstepped := step_stepped hstep
  by_cases hopen : e = .openCircuit
  · subst hopen
    cases hstepped with
    | saturated => exact h
    | @opened s nextId hadd =>
        have hids : (w.circuits ++ [MuxCircuit.opened s]).map MuxCircuit.streamId = w.ids ++ [s] :=
          List.map_append
        rw [ids, hids]
        exact h.openCircuit hadd (hc s nextId hadd)
  · rw [hstepped.ids_eq hopen]
    exact h.stepped hstepped hopen

/-- As long as no id is given out before it is quiet, every cell reaches the circuit
    it is there for. -/
theorem always_owned (tail : TailPolicy) (now : Instant) {events : List Event}
    (hquiet : Machine.Meets step ReusesQuiet (new tail now) events) :
    Machine.Always step (fun w => w.Owned w.ids) (new tail now) events :=
  Machine.always_of_meets (fun _ _ _ h hc hstep => step_owned h hc hstep) (owned_new tail now)
    hquiet

-- ============================================================================
-- Circuits that come and go
-- ============================================================================

theorem addStream_of_empty (hmap : w.streamMap = ∅) (hne : w.nextId ≠ streamIdSingle) :
    w.addStream = some (w.nextId, w.nextId + 1) := by
  have hroom : ¬ 65535 - 1 ≤ w.streamMap.entries.length := by
    rw [hmap]
    decide
  have hfree : w.nextId ∉ w.streamMap := by
    rw [hmap]
    exact AList.notMem_empty _
  rw [addStream, if_neg hroom, MuxWire.nextFree, if_pos ⟨hne, hfree⟩]

/-- At the reserved id the scan takes the next one. -/
theorem addStream_of_empty_zero (hmap : w.streamMap = ∅) (hzero : w.nextId = streamIdSingle) :
    w.addStream = some (1, 2) := by
  have hroom : ¬ 65535 - 1 ≤ w.streamMap.entries.length := by
    rw [hmap]
    decide
  have hfree : (1 : UInt16) ∉ w.streamMap := by
    rw [hmap]
    exact AList.notMem_empty _
  rw [addStream, if_neg hroom, MuxWire.nextFree, if_neg (fun h => h.1 hzero), MuxWire.nextFree,
    hzero]
  exact if_pos ⟨by decide, hfree⟩

/-- `c` circuits have come and gone.  Only the bridge of the first one, which had the
    id 1, was connected, and is still read unless it has `ended`. -/
structure Parked (w : MuxTraffic) (ended : Bool) (c : Nat) (next : UInt16) : Prop where
  nextId : w.nextId = next
  streamMap : w.streamMap = ∅
  opened : w.circuits.length = c
  reading : ∀ t ∈ w.circuits, t.reading = false
  first : w.ids[0]? = some 1
  uplink : w.uplink = []
  downlink : w.downlink = []
  running : w.server.ended = false
  serverMap : w.server.streamMap = ∅
  bridge : ∃ b, w.server.bridges[0]? = some b ∧ b.streamId = 1 ∧ b.relay.connected = true
  upstreams : w.upstreams = [⟨0, ended⟩]

/-- When the bridge has ended too, every id is quiet. -/
theorem Parked.quiet {c : Nat} {next : UInt16} (h : w.Parked true c next) (s : UInt16) :
    w.Quiet s where
  uplink _ hmem := absurd (h.uplink ▸ hmem) List.not_mem_nil
  downlink _ hmem := absurd (h.downlink ▸ hmem) List.not_mem_nil
  circuits t ht _ := h.reading t ht
  bridges _ _ u _ hu _ := by
    obtain rfl := List.mem_singleton.mp (h.upstreams ▸ List.mem_of_getElem? hu)
    exact .inl rfl

/-- A circuit that opens and ends at once. -/
def briefCircuit (c : Nat) : List Event :=
  [.openCircuit, .readerEof c, .serverReads 0, .clientReads]

/-- A close of a stream that the server does not know is sent back. -/
theorem step_serverReads_close {cell : TaggedCell} (hup : w.uplink = [cell])
    (hdata : cell.data = []) (hrun : w.server.ended = false) (hmap : w.server.streamMap = ∅)
    (hdown : w.downlink = []) :
    w.step (.serverReads 0) = some { w with
      uplink := []
      server := w.server.record cell.streamId []
      downlink := [cell] } := by
  have hread : w.server.readCell cell.streamId cell.data 0
      = some (w.server.record cell.streamId []) := by
    have hl : (w.server.record cell.streamId []).streamMap.lookup cell.streamId = none := by
      rw [Demux.record_streamMap, hmap, AList.lookup_empty]
    rw [Demux.readCell, hrun, hdata, Demux.demuxCell, if_pos rfl, Demux.closeStream, hl]
    rfl
  rw [step, hup]
  show (w.server.readCell cell.streamId cell.data 0).map _ = _
  rw [hread, Option.map_some, demux, if_pos hdata, Demux.record_bridges,
    if_neg (Nat.lt_irrefl _), hdown]
  rfl

/-- A new circuit that has been closed does not read, if those before it do not. -/
theorem notReading_of_closed {ts : List MuxCircuit} (h : ∀ t ∈ ts, t.reading = false)
    (s : UInt16) :
    ∀ t ∈ ((ts ++ [MuxCircuit.opened s]).modify ts.length fun t =>
      { t with reading := false }).modify ts.length MuxCircuit.close, t.reading = false := by
  intro t ht
  obtain ⟨j, hj⟩ := List.getElem?_of_mem ht
  rcases Keyed.modify_cases hj with ⟨hne, hj⟩ | ⟨rfl, t₁, ht₁, rfl⟩
  · rcases Keyed.modify_cases hj with ⟨-, hj⟩ | ⟨heq, -⟩
    · rcases Keyed.concat_cases hj with hold | ⟨heq, -⟩
      · exact h t (List.mem_of_getElem? hold)
      · exact absurd heq.symm hne
    · exact absurd heq hne
  · rcases Keyed.modify_cases ht₁ with ⟨hne, -⟩ | ⟨-, t₂, -, rfl⟩
    · exact absurd rfl hne
    · rfl

/-- A circuit that comes and goes moves the counter on and leaves the bridge as it is. -/
theorem Parked.briefCircuit {ended : Bool} {c : Nat} {next s next' : UInt16}
    (h : w.Parked ended c next) (hadd : w.addStream = some (s, next')) :
    ∃ w', Machine.run step w (briefCircuit c) = some w' ∧ w'.Parked ended (c + 1) next' ∧
      w'.ids[c]? = some s ∧ (c, c) ∈ w'.routed := by
  have hlast : (w.circuits ++ [MuxCircuit.opened s])[c]? = some (.opened s) := by
    rw [← h.opened]
    exact List.getElem?_concat_length
  let w₁ : MuxTraffic := { w with
    nextId := next'
    streamMap := w.streamMap.insert s c
    circuits := w.circuits ++ [.opened s] }
  have hopen : w.step .openCircuit = some w₁ := by
    rw [step, hadd, h.opened]
  let w₂ : MuxTraffic := { w₁ with
    circuits := w₁.circuits.modify c fun t => { t with reading := false }
    uplink := [⟨c, s, []⟩] }
  have hends : w₁.step (.readerEof c) = some w₂ := by
    rw [step, onReader, hlast]
    show some { w₁ with
      circuits := w₁.circuits.modify c fun t => { t with reading := false }
      uplink := w.uplink ++ [TaggedCell.mk c s []] } = _
    rw [h.uplink]
    rfl
  let w₃ : MuxTraffic := { w₂ with
    uplink := []
    server := w.server.record s []
    downlink := [⟨c, s, []⟩] }
  have hecho : w₂.step (.serverReads 0) = some w₃ :=
    @step_serverReads_close w₂ ⟨c, s, []⟩ rfl rfl h.running h.serverMap h.downlink
  have hl : w₃.streamMap.lookup s = some c := AList.lookup_insert _
  let w₄ : MuxTraffic := { removeStream { w₃ with downlink := [] } s c with
    routed := w.routed ++ [(c, c)] }
  have hclose : w₃.step .clientReads = some w₄ := by
    show some (receive { w₃ with downlink := [] } ⟨c, s, []⟩) = _
    rw [receive]
    split
    · next hnone => cases hnone.symm.trans hl
    · next c' hc' =>
      obtain rfl := Option.some.inj (hc'.symm.trans hl)
      rfl
  have hrest : Machine.run step w₁ [.readerEof c, .serverReads 0, .clientReads] = some w₄ := by
    rw [Machine.run_cons, hends, Option.bind_some, Machine.run_cons, hecho, Option.bind_some,
      Machine.run_cons, hclose]
    rfl
  have hrun : Machine.run step w (MuxTraffic.briefCircuit c) = some w₄ := by
    rw [MuxTraffic.briefCircuit, Machine.run_cons, hopen, Option.bind_some, hrest]
  have hlen : (w.circuits ++ [MuxCircuit.opened s]).length = c + 1 := by
    rw [List.length_append, h.opened]
    rfl
  have hown : w₁.ids[c]? = some s := by
    rw [ids, List.getElem?_map, hlast]
    rfl
  refine ⟨w₄, hrun, {
      nextId := rfl
      streamMap := by
        show (w.streamMap.insert s c).erase s = ∅
        rw [h.streamMap]
        exact AList.ext (List.kerase_cons_eq rfl)
      opened := ((List.length_modify _ _ _).trans (List.length_modify _ _ _)).trans hlen
      reading := by
        have hclosed := notReading_of_closed h.reading s
        rwa [h.opened] at hclosed
      first := getElem?_of_extends (run_ids hrun) h.first
      uplink := rfl
      downlink := rfl
      running := (Demux.record_ended _ _ _).trans h.running
      serverMap := (Demux.record_streamMap _ _ _).trans h.serverMap
      bridge := by
        obtain ⟨b, hb, hrest⟩ := h.bridge
        refine ⟨b, ?_, hrest⟩
        rw [← hb]
        exact congrArg (·[0]?) (Demux.record_bridges _ _ _)
      upstreams := h.upstreams }, getElem?_of_extends (run_ids hrest) hown,
    List.mem_append_right _ (List.mem_singleton_self _)⟩

/-- Where the bridge has ended, the circuit is given a quiet id. -/
theorem Parked.meets_briefCircuit {c : Nat} {next : UInt16} (h : w.Parked true c next) :
    Machine.Meets step ReusesQuiet w (MuxTraffic.briefCircuit c) := by
  intro w₁ _
  refine ⟨fun s _ _ => h.quiet s, Machine.meets_of_mem (fun e he w => ?_) w₁⟩
  simp only [List.mem_cons, List.not_mem_nil, or_false] at he
  rcases he with rfl | rfl | rfl <;> trivial

def briefCircuits (n : Nat) : List Event := (List.range n).flatMap fun k => briefCircuit (k + 1)

theorem briefCircuits_succ (n : Nat) :
    briefCircuits (n + 1) = briefCircuits n ++ briefCircuit (n + 1) := by
  rw [briefCircuits, List.range_succ, List.flatMap_append, List.flatMap_singleton, ← briefCircuits]

/-- Any number of circuits come and go, until the counter is at the reserved id. -/
theorem Parked.briefCircuits {ended : Bool} (h : w.Parked ended 1 2) {n : Nat} (hn : n ≤ 65534) :
    ∃ w', Machine.run step w (briefCircuits n) = some w' ∧
      w'.Parked ended (n + 1) (UInt16.ofNat (n + 2)) ∧
      (ended = true → Machine.Meets step ReusesQuiet w (MuxTraffic.briefCircuits n)) := by
  induction n with
  | zero => exact ⟨w, rfl, h, fun _ => trivial⟩
  | succ n ih =>
      obtain ⟨w₁, hrun, hparked, hquiet⟩ := ih (by omega)
      have hne : w₁.nextId ≠ streamIdSingle := by
        rw [hparked.nextId]
        intro h
        have hnat := congrArg UInt16.toNat h
        rw [UInt16.toNat_ofNat'] at hnat
        change (n + 2) % 65536 = 0 at hnat
        omega
      have hadd := addStream_of_empty hparked.streamMap hne
      rw [hparked.nextId, show UInt16.ofNat (n + 2) + 1 = UInt16.ofNat (n + 1 + 2) from
        (UInt16.ofNat_add (n + 2) 1).symm] at hadd
      obtain ⟨w₂, hrun', hparked', -⟩ := hparked.briefCircuit hadd
      refine ⟨w₂, ?_, hparked', ?_⟩
      · rw [briefCircuits_succ, Machine.run_append, hrun]
        exact hrun'
      · rintro rfl
        rw [briefCircuits_succ, Machine.meets_append_of_run hrun]
        exact ⟨hquiet rfl, hparked.meets_briefCircuit⟩

/-- The first circuit, up to its end.  Its bridge is connected and does not close. -/
def firstCircuit : List Event :=
  [.openCircuit, .readerSends 0 [7], .serverReads 0, .server (.poll 0), .server (.poll 0),
    .readerEof 0, .serverReads 0, .clientReads]

theorem parked_firstCircuit :
    ∃ w, Machine.run step (new .off 0) firstCircuit = some w ∧ w.Parked false 1 2 := by
  refine ⟨_, rfl, ?_⟩
  constructor
  case bridge => exact ⟨_, rfl, rfl, rfl⟩
  case reading => decide +kernel
  all_goals rfl

/-- A circuit whose bridge answers and closes before it. -/
def answeredCircuit : List Event :=
  [.openCircuit, .readerSends 0 [7], .serverReads 0, .server (.poll 0), .server (.poll 0),
    .bridgeSends 0 [8], .clientReads, .bridgeEof 0, .clientReads, .readerEof 0,
    .serverReads 0, .clientReads]

theorem parked_answeredCircuit :
    ∃ w, Machine.run step (new .off 0) answeredCircuit = some w ∧ w.Parked true 1 2 ∧
      Machine.Meets step ReusesQuiet (new .off 0) answeredCircuit := by
  refine ⟨_, rfl, ?_, ?_⟩
  · constructor
    case bridge => exact ⟨_, rfl, rfl, rfl⟩
    case reading => decide +kernel
    all_goals rfl
  · intro w₁ _
    refine ⟨fun s _ _ => ⟨nofun, nofun, nofun, nofun⟩, Machine.meets_of_mem (fun e he w => ?_) w₁⟩
    simp only [List.mem_cons, List.not_mem_nil, or_false] at he
    rcases he with rfl | rfl | rfl | rfl | rfl | rfl | rfl | rfl | rfl | rfl | rfl <;> trivial

/-- Behind 65,534 brief circuits the reserved id is skipped, and the id 1 is given out
    again: it is quiet by then. -/
theorem quiet_reuse {n c : Nat} (hn : n = 65534) (hc : c = n + 1) :
    (∃ w, Machine.run step (new .off 0)
        (answeredCircuit ++ (briefCircuits n ++ briefCircuit c)) = some w ∧
      w.ids[0]? = some 1 ∧ w.ids[c]? = some 1 ∧ (c, c) ∈ w.routed) ∧
    Machine.Meets step ReusesQuiet (new .off 0)
      (answeredCircuit ++ (briefCircuits n ++ briefCircuit c)) := by
  subst hc
  obtain ⟨w, hrun, hparked, hquiet⟩ := parked_answeredCircuit
  obtain ⟨w₁, hrun₁, hparked₁, hquiet₁⟩ := hparked.briefCircuits (Nat.le_of_eq hn)
  have hzero : w₁.nextId = streamIdSingle := by
    rw [hparked₁.nextId, hn]
    rfl
  obtain ⟨w₂, hrun₂, hparked₂, hid, hrouted⟩ :=
    hparked₁.briefCircuit (addStream_of_empty_zero hparked₁.streamMap hzero)
  refine ⟨⟨w₂, ?_, hparked₂.first, hid, hrouted⟩, ?_⟩
  · rw [Machine.run_append, hrun, Option.bind_some, Machine.run_append, hrun₁]
    exact hrun₂
  · rw [Machine.meets_append_of_run hrun, Machine.meets_append_of_run hrun₁]
    exact ⟨hquiet, hquiet₁ rfl, hparked₁.meets_briefCircuit⟩

-- ============================================================================
-- Quiet ids
-- ============================================================================

/-- **No cell crosses to a later circuit of its id, as long as only quiet ids are given
    out.**  Any number of circuits, in any order, with any failures. -/
theorem notCrossed_of_reusesQuiet (tail : TailPolicy) (now : Instant) (events : List Event)
    (hquiet : Machine.Meets step ReusesQuiet (new tail now) events) :
    Machine.Always step NotCrossed (new tail now) events := by
  apply (always_owned tail now hquiet).mono
  intro w h p hp hlt
  exact absurd (h.routed p hp) (Nat.ne_of_lt hlt)

/-- The answered circuit, 65,534 brief ones, and one more, which is given the id of the
    first.  The run is not to be unfolded step by step. -/
@[irreducible] def reuseRun : List Event :=
  answeredCircuit ++ (briefCircuits 65534 ++ briefCircuit 65535)

theorem reusesQuiet_reuseRun :
    (∃ w, Machine.run step (new .off 0) reuseRun = some w ∧ w.ids[0]? = some 1 ∧
      w.ids[65535]? = some 1 ∧ (65535, 65535) ∈ w.routed) ∧
    Machine.Meets step ReusesQuiet (new .off 0) reuseRun := by
  rw [reuseRun]
  exact quiet_reuse rfl rfl

theorem notCrossed_of_reusesQuiet_one_after_another :
    (∃ w, Machine.run step (new .off 0) reuseRun = some w ∧ w.ids[0]? = some 1 ∧
      w.ids[65535]? = some 1 ∧ (65535, 65535) ∈ w.routed) ∧
    Machine.Always step NotCrossed (new .off 0) reuseRun :=
  ⟨reusesQuiet_reuseRun.1, notCrossed_of_reusesQuiet .off 0 reuseRun reusesQuiet_reuseRun.2⟩

-- ============================================================================
-- A late reply
-- ============================================================================

/-- The reserved id is skipped, and the circuit that is given the id 1 receives what
    the bridge of the first one sends. -/
theorem Parked.lateReply {c : Nat} (h : w.Parked false c streamIdSingle) :
    ∃ w', Machine.run step w [.openCircuit, .bridgeSends 0 [7], .clientReads] = some w' ∧
      (0, c) ∈ w'.routed ∧ w'.ids[0]? = some 1 ∧ w'.ids[c]? = some 1 := by
  obtain ⟨b, hb, hid, hconn⟩ := h.bridge
  have hadd : w.addStream = some (1, 2) := addStream_of_empty_zero h.streamMap h.nextId
  let w₁ : MuxTraffic := { w with
    nextId := 2
    streamMap := w.streamMap.insert 1 c
    circuits := w.circuits ++ [.opened 1] }
  have hopen : w.step .openCircuit = some w₁ := by
    rw [step, hadd, h.opened]
  have hlast : w₁.circuits[c]? = some (.opened 1) := by
    rw [← h.opened]
    exact List.getElem?_concat_length
  let w₂ : MuxTraffic := { w₁ with
    downlink := [⟨0, 1, [7]⟩]
    replies := w.replies ++ [⟨0, 1, [7]⟩] }
  have hsend : w₁.step (.bridgeSends 0 [7]) = some w₂ := by
    have hb' : w₁.server.bridges[0]? = some b := hb
    have hu' : w₁.upstreams[0]? = some ⟨0, false⟩ := congrArg (·[0]?) h.upstreams
    rw [step, if_pos (by decide), onBridge, hb', Option.bind_some, hu', Option.bind_some,
      if_pos ⟨hconn, rfl⟩, hid]
    show some { w₁ with
      downlink := w.downlink ++ [TaggedCell.mk 0 1 [7]]
      replies := w.replies ++ [Reply.mk 0 1 [7]] } = _
    rw [h.downlink]
    rfl
  have hl : w₂.streamMap.lookup 1 = some c := AList.lookup_insert _
  obtain ⟨rx, hrx⟩ := Chan.trySend_of_room (c := (Chan.new : Chan Bytes streamChannelCap)) [7] rfl
    (by decide)
  let w₃ : MuxTraffic := { w₂ with
    downlink := []
    circuits := w₂.circuits.modify c fun t => { t with downRx := rx }
    routed := w.routed ++ [(0, c)] }
  have hreceive : w₂.step .clientReads = some w₃ := by
    exact congrArg some (@receive_delivers { w₂ with downlink := [] } ⟨0, 1, [7]⟩ c (.opened 1) rx
      hl (by decide) hlast hrx)
  have hrun : Machine.run step w [.openCircuit, .bridgeSends 0 [7], .clientReads] = some w₃ := by
    rw [Machine.run_cons, hopen, Option.bind_some, Machine.run_cons, hsend, Option.bind_some,
      Machine.run_cons, hreceive]
    rfl
  have hown : w₁.ids[c]? = some 1 := by
    rw [ids, List.getElem?_map, hlast]
    rfl
  have hrest : Machine.run step w₁ [.bridgeSends 0 [7], .clientReads] = some w₃ := by
    rwa [Machine.run_cons, hopen, Option.bind_some] at hrun
  exact ⟨w₃, hrun, List.mem_append_right _ (List.mem_singleton_self _),
    getElem?_of_extends (run_ids hrun) h.first, getElem?_of_extends (run_ids hrest) hown⟩

/-- The first circuit, 65,534 brief ones, and one more, which is given the id of the
    first.  Then the bridge of the first answers. -/
def lateReplyRun : List Event :=
  firstCircuit ++ briefCircuits 65534 ++ [.openCircuit, .bridgeSends 0 [7], .clientReads]

/-- A chunk that was read for the first circuit is delivered to the last. -/
theorem late_reply_crosses :
    (∃ w, Machine.run step (new .off 0) lateReplyRun = some w ∧ (0, 65535) ∈ w.routed ∧
      w.ids[0]? = some 1 ∧ w.ids[65535]? = some 1) ∧
    ¬ Machine.Always step NotCrossed (new .off 0) lateReplyRun := by
  have hlate : ∃ w, Machine.run step (new .off 0) lateReplyRun = some w ∧ (0, 65535) ∈ w.routed ∧
      w.ids[0]? = some 1 ∧ w.ids[65535]? = some 1 := by
    obtain ⟨w, hrun, hparked⟩ := parked_firstCircuit
    obtain ⟨w₁, hrun₁, hparked₁, -⟩ := hparked.briefCircuits (Nat.le_refl 65534)
    obtain ⟨w₂, hrun₂, hlate⟩ := Parked.lateReply (c := 65535) hparked₁
    refine ⟨w₂, ?_, hlate⟩
    rw [lateReplyRun, Machine.run_append, Machine.run_append, hrun, Option.bind_some, hrun₁]
    exact hrun₂
  refine ⟨hlate, fun h => ?_⟩
  obtain ⟨w, hrun, hmem, hfirst, hlast⟩ := hlate
  exact h.last hrun (0, 65535) hmem (by decide) (hfirst.trans hlast.symm)

end MuxTraffic

end MixTor
