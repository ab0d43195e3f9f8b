/-
  MixTor.Mux.StreamCleanup

  Whether a stream id leaves both maps when its circuit is over.

  The close sentinel is what cleans up: it takes the id out of the server's map
  and, sent back, out of the client's.  `mux_tor_reader` sends it when it sees
  the end of the local connection, but not when a read fails.  As long as every
  reader sees the end of its connection, an id in either map belongs to a
  circuit that is still open or whose sentinel is still on the way; the server
  then has no more streams than the client has circuits.
-/

import MixTor.Mux.MuxSession

namespace MixTor

open Channel
open Crypto (Bytes)

namespace MuxSession

/-- Some circuit with this id is still open. -/
def Reading (w : MuxSession) (streamId : UInt16) : Prop :=
  ∃ t ∈ w.circuits, t.streamId = streamId ∧ t.reading = true

/-- When no cell is on the way, every id in either map belongs to an open
    circuit. -/
def CleanedUp (w : MuxSession) : Prop :=
  w.uplink = [] → w.downlink = [] →
    ∀ streamId, streamId ∈ w.client.streamMap ∨ streamId ∈ w.server.streamMap →
      w.Reading streamId

/-- Both maps have forgotten an id and no data of it is on the way to the server. -/
def Forgotten (w : MuxSession) (streamId : UInt16) : Prop :=
  streamId ∉ w.client.streamMap ∧ streamId ∉ w.server.streamMap ∧
    ∀ data, (streamId, data) ∈ w.uplink → data = []

/-- Reads fail only on circuits whose id is forgotten already. -/
def ReadsToEof (w : MuxSession) : Event → Prop
  | .readerFails circuit => ∀ t, w.circuits[circuit]? = some t → w.Forgotten t.streamId
  | _ => True

/-- The ids of open circuits and of close sentinels on the way to the server. -/
def openIds (w : MuxSession) : List UInt16 :=
  (w.circuits.filter fun t => t.reading).map TorCircuit.streamId ++
    (w.uplink.filter fun c => c.2 = []).map Prod.fst

/-- Few circuits are open at once. -/
def FewOpen (w : MuxSession) (_ : Event) : Prop := w.openIds.length ≤ maxStreamsPerWire

instance (w : MuxSession) (e : Event) : Decidable (w.FewOpen e) :=
  inferInstanceAs (Decidable (_ ≤ _))

/-- The invariant: whatever keeps an id alive is still going to be closed. -/
structure Tracked (w : MuxSession) : Prop where
  /-- Behind a data cell comes the close, unless the circuit is open. -/
  data : ∀ pre streamId data post, w.uplink = pre ++ (streamId, data) :: post → data ≠ [] →
    w.Reading streamId ∨ (streamId, []) ∈ post
  server : ∀ streamId ∈ w.server.streamMap, w.Reading streamId ∨ (streamId, []) ∈ w.uplink
  client : ∀ streamId ∈ w.client.streamMap,
    w.Reading streamId ∨ (streamId, []) ∈ w.uplink ∨ (streamId, []) ∈ w.downlink

variable {w w' : MuxSession} {e : Event}

theorem tracked_new (serverPub : Crypto.Key) (tail : TailPolicy) (now : Instant) :
    (new serverPub tail now).Tracked where
  data pre streamId data post h := by
    rw [new] at h
    cases List.append_eq_nil_iff.mp h.symm |>.2
  server s hs := absurd hs (AList.notMem_empty s)
  client s hs := absurd hs (AList.notMem_empty s)

theorem Tracked.cleanedUp (h : w.Tracked) : w.CleanedUp := by
  intro hup hdown streamId hmem
  rcases hmem with hmem | hmem
  · have hclient := h.client streamId hmem
    rw [hup, hdown] at hclient
    rcases hclient with hreading | hnil | hnil
    · exact hreading
    · cases hnil
    · cases hnil
  · have hserver := h.server streamId hmem
    rw [hup] at hserver
    rcases hserver with hreading | hnil
    · exact hreading
    · cases hnil

-- ============================================================================
-- Circuits
-- ============================================================================

/-- A reader that ends leaves the circuits with other ids open. -/
theorem Reading.stopReading {circuit : Nat} {streamId s : UInt16} (h : w.Reading s)
    (hc : w.circuits[circuit]? = some ⟨streamId, true⟩) (hne : s ≠ streamId) :
    (w.stopReading circuit streamId).Reading s := by
  obtain ⟨t, ht, hid, hreading⟩ := h
  obtain ⟨j, hj⟩ := List.getElem?_of_mem ht
  have hcj : circuit ≠ j := by
    rintro rfl
    rw [hc] at hj
    obtain rfl := Option.some.inj hj
    exact hne hid.symm
  refine ⟨t, ?_, hid, hreading⟩
  have hset : (w.circuits.set circuit ⟨streamId, false⟩)[j]? = some t := by
    rw [List.getElem?_set_ne hcj, hj]
  exact List.mem_of_getElem? hset

theorem reading_of_getElem? {circuit : Nat} {streamId : UInt16}
    (hc : w.circuits[circuit]? = some ⟨streamId, true⟩) : w.Reading streamId :=
  ⟨_, List.mem_of_getElem? hc, rfl, rfl⟩

/-- Appending to the uplink: a cell of the old part keeps what followed it. -/
theorem split_append {α : Type} {l pre post : List α} {a b : α}
    (h : l ++ [b] = pre ++ a :: post) :
    (pre = l ∧ a = b ∧ post = []) ∨ ∃ post', post = post' ++ [b] ∧ l = pre ++ a :: post' := by
  rcases List.eq_nil_or_concat post with rfl | ⟨post', b', rfl⟩
  · obtain ⟨hl, hb⟩ := List.append_inj' h rfl
    exact .inl ⟨hl.symm, (List.cons.inj hb).1.symm, rfl⟩
  · right
    rw [List.concat_eq_append] at h ⊢
    have h' : l ++ [b] = (pre ++ a :: post') ++ [b'] := by
      rw [h, List.append_assoc, List.cons_append]
    obtain ⟨hl, hb⟩ := List.append_inj' h' rfl
    exact ⟨post', by rw [(List.cons.inj hb).1], hl⟩

/-- A new circuit is open from the start. -/
theorem Tracked.openCircuit (h : w.Tracked) {streamId : UInt16} {client : MuxWire}
    (hadd : w.client.addStream = some (streamId, client)) :
    Tracked { w with client, circuits := w.circuits ++ [⟨streamId, true⟩] } := by
  have hkeep : ∀ s, w.Reading s →
      Reading { w with client, circuits := w.circuits ++ [⟨streamId, true⟩] } s := by
    rintro s ⟨t, ht, hid, hreading⟩
    exact ⟨t, List.mem_append_left _ ht, hid, hreading⟩
  refine ⟨?_, ?_, ?_⟩
  · intro pre s data post hup hdata
    exact (h.data pre s data post hup hdata).imp (hkeep s) id
  · exact fun s hs => (h.server s hs).imp (hkeep s) id
  · intro s hs
    rcases MuxWire.mem_of_mem_addStream hadd hs with rfl | hold
    · exact .inl ⟨⟨s, true⟩, List.mem_append_right _ List.mem_cons_self, rfl, rfl⟩
    · exact (h.client s hold).imp (hkeep s) id

/-- An open circuit may send data. -/
theorem Tracked.readerSends (h : w.Tracked) {circuit : Nat} {streamId : UInt16} (data : Bytes)
    (hc : w.circuits[circuit]? = some ⟨streamId, true⟩) :
    Tracked { w with uplink := w.uplink ++ [(streamId, data)] } := by
  refine ⟨?_, ?_, ?_⟩
  · intro pre s data' post hup hdata
    rcases split_append hup with ⟨-, hcell, -⟩ | ⟨post', rfl, hold⟩
    · obtain ⟨rfl, -⟩ := Prod.mk.inj hcell
      exact .inl (reading_of_getElem? hc)
    · exact (h.data pre s data' post' hold hdata).imp id (List.mem_append_left _)
  · exact fun s hs => (h.server s hs).imp id (List.mem_append_left _)
  · exact fun s hs => (h.client s hs).imp id (Or.imp (List.mem_append_left _) id)

/-- The reader that sees the end of its connection leaves the close behind. -/
theorem Tracked.readerEof (h : w.Tracked) {circuit : Nat} {streamId : UInt16}
    (hc : w.circuits[circuit]? = some ⟨streamId, true⟩) :
    Tracked { w.stopReading circuit streamId with uplink := w.uplink ++ [(streamId, [])] } := by
  have hclose : ∀ l : List (UInt16 × Bytes), (streamId, []) ∈ l ++ [(streamId, [])] := fun l =>
    List.mem_append_right l List.mem_cons_self
  -- an id is still open, or it is the closed one and its sentinel is on the way
  have hkeep : ∀ s, w.Reading s → (w.stopReading circuit streamId).Reading s ∨ s = streamId := by
    intro s hs
    by_cases hne : s = streamId
    · exact .inr hne
    · exact .inl (hs.stopReading hc hne)
  refine ⟨?_, ?_, ?_⟩
  · intro pre s data post hup hdata
    rcases split_append hup with ⟨-, hcell, -⟩ | ⟨post', rfl, hold⟩
    · exact absurd (Prod.mk.inj hcell).2 hdata
    · rcases h.data pre s data post' hold hdata with hs | hs
      · rcases hkeep s hs with hs | rfl
        · exact .inl hs
        · exact .inr (hclose post')
      · exact .inr (List.mem_append_left _ hs)
  · intro s hs
    rcases h.server s hs with hs | hs
    · rcases hkeep s hs with hs | rfl
      · exact .inl hs
      · exact .inr (hclose w.uplink)
    · exact .inr (List.mem_append_left _ hs)
  · intro s hs
    rcases h.client s hs with hs | hs | hs
    · rcases hkeep s hs with hs | rfl
      · exact .inl hs
      · exact .inr (.inl (hclose w.uplink))
    · exact .inr (.inl (List.mem_append_left _ hs))
    · exact .inr (.inr hs)

/-- A failed read does no harm where the id is forgotten already. -/
theorem Tracked.readerFails (h : w.Tracked) {circuit : Nat} {streamId : UInt16}
    (hc : w.circuits[circuit]? = some ⟨streamId, true⟩) (hforgot : w.Forgotten streamId) :
    (w.stopReading circuit streamId).Tracked := by
  obtain ⟨hclient, hserver, hdata⟩ := hforgot
  have hkeep : ∀ s, s ≠ streamId → w.Reading s → (w.stopReading circuit streamId).Reading s :=
    fun s hne hs => hs.stopReading hc hne
  refine ⟨?_, ?_, ?_⟩
  · intro pre s data post hup hne
    have hs : s ≠ streamId := by
      rintro rfl
      have hmem : (s, data) ∈ w.uplink := by
        rw [show w.uplink = pre ++ (s, data) :: post from hup]
        exact List.mem_append_right _ List.mem_cons_self
      exact hne (hdata data hmem)
    exact (h.data pre s data post hup hne).imp (hkeep s hs) id
  · intro s hmem
    have hs : s ≠ streamId := fun heq => hserver (heq ▸ hmem)
    exact (h.server s hmem).imp (hkeep s hs) id
  · intro s hmem
    have hs : s ≠ streamId := fun heq => hclient (heq ▸ hmem)
    exact (h.client s hmem).imp (hkeep s hs) id

-- ============================================================================
-- Cells
-- ============================================================================

/-- The server reads a cell. -/
theorem Tracked.serverReads (h : w.Tracked) {streamId : UInt16} {data : Bytes}
    {rest : List (UInt16 × Bytes)} (hup : w.uplink = (streamId, data) :: rest) {server : Demux}
    (hmap : ∀ s ∈ server.streamMap,
      s ∈ w.server.streamMap ∧ (data = [] → s ≠ streamId) ∨ s = streamId ∧ data ≠ []) :
    Tracked { w with
      uplink := rest
      server
      downlink := if data = [] then w.downlink ++ [(streamId, [])] else w.downlink } := by
  -- a sentinel that was on the way still is, unless it is the cell just read
  have hrest : ∀ s, (s, []) ∈ w.uplink → (s, []) ∈ rest ∨ s = streamId ∧ data = [] := by
    intro s hs
    rw [hup] at hs
    rcases List.mem_cons.mp hs with hhead | hs
    · obtain ⟨rfl, rfl⟩ := Prod.mk.inj hhead
      exact .inr ⟨rfl, rfl⟩
    · exact .inl hs
  refine ⟨?_, ?_, ?_⟩
  · intro pre s data' post hsplit hne
    have hold : w.uplink = ((streamId, data) :: pre) ++ (s, data') :: post := by
      rw [hup, List.cons_append]
      exact congrArg _ hsplit
    exact h.data _ s data' post hold hne
  · intro s hs
    rcases hmap s hs with ⟨hold, hclosed⟩ | ⟨rfl, hdata⟩
    · rcases h.server s hold with hreading | hmem
      · exact .inl hreading
      · rcases hrest s hmem with hmem | ⟨rfl, hnil⟩
        · exact .inr hmem
        · exact absurd rfl (hclosed hnil)
    · exact h.data [] s data rest hup hdata
  · intro s hs
    show w.Reading s ∨ _ ∨ (s, []) ∈ (if data = [] then w.downlink ++ [(streamId, [])]
      else w.downlink)
    rcases h.client s hs with hreading | hmem | hmem
    · exact .inl hreading
    · rcases hrest s hmem with hmem | ⟨rfl, hnil⟩
      · exact .inr (.inl hmem)
      · rw [if_pos hnil]
        exact .inr (.inr (List.mem_append_right _ List.mem_cons_self))
    · right; right
      split
      · exact List.mem_append_left _ hmem
      · exact hmem

/-- The client reads a cell. -/
theorem Tracked.clientReads (h : w.Tracked) {streamId : UInt16} {data : Bytes}
    {rest : List (UInt16 × Bytes)} (hdown : w.downlink = (streamId, data) :: rest) :
    Tracked { w with client := w.client.receive streamId data, downlink := rest } := by
  refine ⟨h.data, h.server, ?_⟩
  intro s hs
  obtain ⟨hold, hclosed⟩ := MuxWire.mem_of_mem_receive hs
  rcases h.client s hold with hreading | hmem | hmem
  · exact .inl hreading
  · exact .inr (.inl hmem)
  · rw [hdown] at hmem
    rcases List.mem_cons.mp hmem with hhead | hmem
    · obtain ⟨rfl, rfl⟩ := Prod.mk.inj hhead
      exact absurd rfl (hclosed rfl)
    · exact .inr (.inr hmem)

/-- More cells on the downlink, fewer streams in the maps. -/
theorem Tracked.shrink (h : w.Tracked) {client : MuxWire} {server : Demux}
    {downlink : List (UInt16 × Bytes)} {readersEnded : List Nat}
    (hclient : ∀ s ∈ client.streamMap, s ∈ w.client.streamMap)
    (hserver : server.streamMap = w.server.streamMap) (hdown : w.downlink ⊆ downlink) :
    Tracked { w with client, server, downlink, readersEnded } := by
  refine ⟨h.data, ?_, ?_⟩
  · intro s hs
    have hs' : s ∈ server.streamMap := hs
    rw [hserver] at hs'
    exact h.server s hs'
  · exact fun s hs => (h.client s (hclient s hs)).imp id (Or.imp id fun hmem => hdown hmem)

-- ============================================================================
-- Steps and runs
-- ============================================================================

theorem step_tracked (h : w.Tracked) (hc : w.ReadsToEof e) (hstep : w.step e = some w') :
    w'.Tracked := by
  cases step_stepped hstep with
  | saturated => exact h
  | opened hadd => exact h.openCircuit hadd
  | readerSends hcirc => exact h.readerSends _ hcirc
  | readerEof hcirc => exact h.readerEof hcirc
  | readerFails hcirc => exact h.readerFails hcirc (hc _ hcirc)
  | writerTakes | writerFails =>
      exact h.shrink (fun _ hs => MuxWire.mem_of_mem_updateStream hs) rfl (List.Subset.refl _)
  | serverReads hup hrouted =>
      apply h.serverReads hup
      intro s hs
      have hmem := Demux.mem_of_mem_routed hrouted hs
      rwa [Demux.record_streamMap] at hmem
  | server hmap _ => exact h.shrink (fun _ hs => hs) hmap (List.Subset.refl _)
  | bridgeSends | bridgeEof =>
      exact h.shrink (fun _ hs => hs) rfl (List.subset_append_left _ _)
  | bridgeFails => exact h.shrink (fun _ hs => hs) rfl (List.Subset.refl _)
  | clientReads hdown => exact h.clientReads hdown

/-- An id that is open, or whose close is on the way, counts as open. -/
theorem mem_openIds {s : UInt16} (h : w.Reading s ∨ (s, []) ∈ w.uplink) : s ∈ w.openIds := by
  rw [openIds, List.mem_append]
  rcases h with ⟨t, ht, rfl, hreading⟩ | hmem
  · exact .inl (List.mem_map.mpr ⟨t, List.mem_filter.mpr ⟨ht, hreading⟩, rfl⟩)
  · exact .inr (List.mem_map.mpr ⟨(s, []), List.mem_filter.mpr ⟨hmem, decide_eq_true rfl⟩, rfl⟩)

/-- A new stream finds room on the wire while few circuits are open. -/
theorem Tracked.belowCap (h : w.Tracked) (hfew : w.openIds.length ≤ maxStreamsPerWire)
    {streamId : UInt16} {data : Bytes} {rest : List (UInt16 × Bytes)}
    (hup : w.uplink = (streamId, data) :: rest) (hdata : data ≠ [])
    (hl : w.server.streamMap.lookup streamId = none) :
    w.server.streamMap.entries.length < maxStreamsPerWire := by
  have hnew : streamId ∉ w.server.streamMap.keys := AList.lookup_eq_none.mp hl
  have hnodup : (streamId :: w.server.streamMap.keys).Nodup :=
    List.nodup_cons.mpr ⟨hnew, w.server.streamMap.keys_nodup⟩
  have hsub : streamId :: w.server.streamMap.keys ⊆ w.openIds := by
    intro s hs
    rcases List.mem_cons.mp hs with rfl | hs
    · apply mem_openIds
      refine (h.data [] s data rest hup hdata).imp id fun hmem => ?_
      rw [hup]
      exact List.mem_cons_of_mem _ hmem
    · exact mem_openIds (h.server s hs)
  have hlen := hnodup.length_le_of_subset hsub
  have hkeys : w.server.streamMap.keys.length = w.server.streamMap.entries.length :=
    List.length_map ..
  rw [List.length_cons, hkeys] at hlen
  omega

/-- While few circuits are open the server keeps the wire. -/
theorem step_wireUp (h : w.Tracked) (hfew : w.FewOpen e) (hup : w.server.ended = false)
    (hstep : w.step e = some w') : w'.server.ended = false := by
  cases step_stepped hstep with
  | @serverReads _ streamId data _ _ hcell hrouted =>
      have hrec : (w.server.record streamId data).ended = false :=
        (Demux.record_ended ..).trans hup
      cases hrouted with
      | closes | gone => exact (Demux.closeStream_ended ..).trans hrec
      | dangles | sends | full | globalCap | opens => exact hrec
      | wireCap hdata hl hcap =>
          rw [Demux.record_streamMap] at hl hcap
          exact absurd hcap (Nat.not_le_of_lt (h.belowCap hfew hcell hdata hl))
  | server _ hended => exact hended.trans hup
  | saturated | opened | readerSends | readerEof | readerFails | writerTakes | writerFails
  | bridgeSends | bridgeEof | bridgeFails | clientReads => exact hup

/-- **Clean-up of ended circuits.** Along every run of a wire in which reads of
    local connections fail only for circuits that are forgotten already, an id in
    either map belongs to an open circuit whenever no cell is on the way; and as
    long as at most 512 circuits are open or still being closed, the server does
    not drop the wire. -/
theorem cleanedUp_of_readsToEof (serverPub : Crypto.Key) (tail : TailPolicy) (now : Instant)
    (events : List Event) (hreads : Machine.Meets step ReadsToEof (new serverPub tail now) events) :
    Machine.Always step CleanedUp (new serverPub tail now) events ∧
      (Machine.Meets step FewOpen (new serverPub tail now) events →
        Machine.Always step (fun w => w.server.ended = false) (new serverPub tail now) events) := by
  have htracked := tracked_new serverPub tail now
  constructor
  · exact (Machine.always_of_meets (fun _ _ _ => step_tracked) htracked hreads).mono
      fun _ h => h.cleanedUp
  · intro hfew
    have hinv : Machine.Always step (fun w => w.Tracked ∧ w.server.ended = false)
        (new serverPub tail now) events := by
      apply Machine.always_of_meets (c := fun w e => w.ReadsToEof e ∧ w.FewOpen e)
      · rintro w e w' ⟨h, hup⟩ ⟨hc, hf⟩ hstep
        exact ⟨step_tracked h hc hstep, step_wireUp h hf hup hstep⟩
      · exact ⟨htracked, rfl⟩
      · exact hreads.and hfew
    exact hinv.mono fun _ h => h.2

/-- A circuit that sends a chunk and ends, up to the sentinel that comes back. -/
theorem cleanedUp_of_readsToEof_one_circuit :
    ∃ w, Machine.run step (new (Vector.replicate 32 7) .off 0)
        [.openCircuit, .readerSends 0 [7], .serverReads 0, .readerEof 0, .serverReads 0,
          .clientReads] = some w ∧
      w.client.streamMap.keys = [] ∧ w.server.streamMap.keys = [] ∧ w.CleanedUp ∧
      w.server.ended = false := by
  have hrun : (Machine.run step (new (Vector.replicate 32 7) .off 0)
      [.openCircuit, .readerSends 0 [7], .serverReads 0, .readerEof 0, .serverReads 0,
        .clientReads]).map (fun w => (w.client.streamMap.keys, w.server.streamMap.keys)) =
      some ([], []) := by
    decide +kernel
  have hreads : Machine.Meets step ReadsToEof (new (Vector.replicate 32 7) .off 0)
      [.openCircuit, .readerSends 0 [7], .serverReads 0, .readerEof 0, .serverReads 0,
        .clientReads] := by
    apply Machine.meets_of_mem
    intro e he s
    simp only [List.mem_cons, List.not_mem_nil, or_false] at he
    rcases he with rfl | rfl | rfl | rfl | rfl | rfl <;> trivial
  obtain ⟨w, hw, hkeys⟩ := Option.map_eq_some_iff.mp hrun
  obtain ⟨hclean, hup⟩ := cleanedUp_of_readsToEof (Vector.replicate 32 7) .off 0 _ hreads
  exact ⟨w, hw, (Prod.mk.inj hkeys).1, (Prod.mk.inj hkeys).2, hclean.last hw,
    (hup (by decide +kernel)).last hw⟩

/-- A circuit sends a chunk, the connection behind it fails in both directions
    and so does the read of its local connection. -/
def readErrorRun : List Event :=
  [.openCircuit, .readerSends 0 [7], .serverReads 0, .server (.poll 0), .server (.poll 0),
    .server (.writeFails 0 0), .bridgeFails 0, .readerFails 0]

/-- Everything has ended and no cell is on the way, but the id of the circuit is
    in both maps. -/
theorem id_left_after_read_error :
    (∃ w, Machine.run step (new (Vector.replicate 32 7) .off 0) readErrorRun = some w ∧
      w.circuits = [⟨1, false⟩] ∧ w.server.bridges.map (fun b => b.relay.phase) = [.ended] ∧
      w.readersEnded = [0] ∧ w.uplink = [] ∧ w.downlink = [] ∧
      w.client.streamMap.keys = [1] ∧ w.server.streamMap.keys = [1]) ∧
    ¬ Machine.Always step CleanedUp (new (Vector.replicate 32 7) .off 0) readErrorRun := by
  have hends : ∃ w, Machine.run step (new (Vector.replicate 32 7) .off 0) readErrorRun = some w ∧
      w.circuits = [⟨1, false⟩] ∧ w.server.bridges.map (fun b => b.relay.phase) = [.ended] ∧
      w.readersEnded = [0] ∧ w.uplink = [] ∧ w.downlink = [] ∧
      w.client.streamMap.keys = [1] ∧ w.server.streamMap.keys = [1] :=
    ⟨_, rfl, by decide +kernel⟩
  refine ⟨hends, fun h => ?_⟩
  obtain ⟨w, hw, hcirc, -, -, hup, hdown, -, hkeys⟩ := hends
  have hmem : (1 : UInt16) ∈ w.server.streamMap := by
    show (1 : UInt16) ∈ w.server.streamMap.keys
    rw [hkeys]
    exact List.mem_singleton_self 1
  obtain ⟨t, ht, -, hreading⟩ := h.last hw hup hdown 1 (.inr hmem)
  rw [hcirc, List.mem_singleton] at ht
  rw [ht] at hreading
  cases hreading

end MuxSession

end MixTor
