/-
  MixTor.Mux.StreamIds

  Stream ids on the client's mux wire (transport.rs): `MuxWire::add_stream` and the
  removals of `receive_mux_inbound`, lock by lock.

  `add_stream` scans for an id and inserts its sender under one lock.  The receive loop
  takes the lock to clone a sender, sends without it, and takes it again to remove the
  sender if its channel was closed; circuits come and go in between.  The senders are
  told apart by the number of their stream, so that the entry that was cloned and the
  entry that is removed can be compared.
-/

import MixTor.Mux.MuxWire

namespace MixTor

open Channel
open Crypto (Bytes)

/-- A stream that was given to a circuit, with its downlink channel. -/
structure TorStream where
  streamId : UInt16
  down : Chan Bytes streamChannelCap

/-- Where `receive_mux_inbound` stands between two locks. -/
inductive InboundTask where
  | reading
  /-- It has cloned the sender of `stream` and released the lock. -/
  | sending (streamId : UInt16) (data : Bytes) (stream : Nat)
  /-- Its send found the channel of `stream` closed. -/
  | removing (streamId : UInt16) (stream : Nat)
  | ended
  deriving DecidableEq

/-- The stream map of a wire and the tasks that use it. -/
structure StreamTable where
  /-- The index in `streams` of the stream behind each sender. -/
  streamMap : StreamMap Nat
  nextId : UInt16
  /-- Every stream ever given out. -/
  streams : List TorStream
  inbound : InboundTask

namespace StreamTable

def start (nextId : UInt16) : StreamTable := ⟨∅, nextId, [], .reading⟩

/-- Allocate a new stream, or `none` if the wire is saturated. -/
def addStream (s : StreamTable) : Option (UInt16 × StreamTable) :=
  if 65535 - 1 ≤ s.streamMap.entries.length then none
  else (MuxWire.nextFree s.streamMap 65536 s.nextId).map fun (id, nextId) =>
    (id, { s with
      streamMap := s.streamMap.insert id s.streams.length
      nextId
      streams := s.streams ++ [⟨id, .new⟩] })

def modifyStream (s : StreamTable) (i : Nat)
    (f : Chan Bytes streamChannelCap → Chan Bytes streamChannelCap) : StreamTable :=
  { s with streams := s.streams.modify i fun st => { st with down := f st.down } }

/-- `stream_map.lock().await.remove`, which drops the sender. -/
def removeStream (s : StreamTable) (streamId : UInt16) : StreamTable :=
  match s.streamMap.lookup streamId with
  | none => s
  | some i =>
      { s.modifyStream i Chan.dropSenders with streamMap := s.streamMap.erase streamId }

inductive Event where
  | addStream
  /-- The receive loop decodes a real cell and takes the lock. -/
  | readsCell (streamId : UInt16) (data : Bytes)
  /-- Its `try_send`, without the lock. -/
  | sends
  /-- It takes the lock again, after `Closed`. -/
  | removes
  | inboundEnds
  /-- A circuit's writer takes a chunk from its channel. -/
  | takeDown (stream : Nat)
  /-- A circuit drops its receiver. -/
  | dropDown (stream : Nat)
  deriving DecidableEq

def step (s : StreamTable) : Event → Option StreamTable
  | .addStream => some ((s.addStream.map Prod.snd).getD s)
  | .readsCell streamId data =>
      if s.inbound = .reading then
        if data = [] then some (s.removeStream streamId)
        else match s.streamMap.lookup streamId with
          | none => some s
          | some i => some { s with inbound := .sending streamId data i }
      else none
  | .sends =>
      match s.inbound with
      | .sending streamId data i =>
          (s.streams[i]?).map fun st =>
            match st.down.trySend data with
            | .ok down => { s.modifyStream i (fun _ => down) with inbound := .reading }
            | .error .closed => { s with inbound := .removing streamId i }
            | .error .full => { s with inbound := .reading }  -- the cell is dropped
      | _ => none
  | .removes =>
      match s.inbound with
      | .removing streamId _ => some { s.removeStream streamId with inbound := .reading }
      | _ => none
  | .inboundEnds => if s.inbound = .reading then some { s with inbound := .ended } else none
  | .takeDown i => some (s.modifyStream i fun down => down.tryRecv.2)
  | .dropDown i => some (s.modifyStream i Chan.dropReceiver)

-- ============================================================================
-- Allocation
-- ============================================================================

/-- The scan stops at its first free candidate. -/
theorem nextFree_eq_some {α : Type} {map : StreamMap α} {fuel : Nat} {next id next' : UInt16}
    (h : MuxWire.nextFree map fuel next = some (id, next')) :
    ∃ k < fuel, id = next + UInt16.ofNat k ∧ next' = id + 1 ∧ id ≠ streamIdSingle ∧ id ∉ map ∧
      ∀ j < k, next + UInt16.ofNat j = streamIdSingle ∨ next + UInt16.ofNat j ∈ map := by
  induction fuel generalizing next with
  | zero => cases h
  | succ fuel ih =>
      rw [MuxWire.nextFree] at h
      split at h
      · next hfree =>
        obtain ⟨rfl, rfl⟩ := Prod.mk.inj (Option.some.inj h)
        exact ⟨0, Nat.succ_pos _, (UInt16.add_zero _).symm, rfl, hfree.1, hfree.2,
          fun j hj => absurd hj (Nat.not_lt_zero j)⟩
      · next hbusy =>
        obtain ⟨k, hk, hid, hnext, hne, hmem, hskip⟩ := ih h
        have hshift : ∀ n, next + UInt16.ofNat (n + 1) = next + 1 + UInt16.ofNat n := fun n => by
          rw [UInt16.ofNat_add, UInt16.add_assoc, UInt16.add_comm (UInt16.ofNat n)]
          rfl
        refine ⟨k + 1, Nat.succ_lt_succ hk, hid.trans (hshift k).symm, hnext, hne, hmem, ?_⟩
        intro j hj
        cases j with
        | zero =>
            rw [show next + UInt16.ofNat 0 = next from UInt16.add_zero next]
            by_cases h0 : next = streamIdSingle
            · exact .inl h0
            · exact .inr (not_not.mp fun hmem => hbusy ⟨h0, hmem⟩)
        | succ j =>
            rw [hshift]
            exact hskip j (Nat.lt_of_succ_lt_succ hj)

/-- What an allocation that succeeds does. -/
structure Allocated (s : StreamTable) (id : UInt16) (t : StreamTable) : Prop where
  nonzero : id ≠ streamIdSingle
  fresh : id ∉ s.streamMap
  /-- The scan has passed over `k` candidates, none of which was free. -/
  iterations : ∃ k < 65536, id = s.nextId + UInt16.ofNat k ∧ t.nextId = id + 1 ∧
    ∀ j < k, s.nextId + UInt16.ofNat j = streamIdSingle ∨ s.nextId + UInt16.ofNat j ∈ s.streamMap
  inserted : t.streamMap.lookup id = some s.streams.length
  others : ∀ other, other ≠ id → t.streamMap.lookup other = s.streamMap.lookup other
  count : t.streamMap.entries.length = s.streamMap.entries.length + 1
  streams : t.streams = s.streams ++ [⟨id, .new⟩]
  inbound : t.inbound = s.inbound

theorem addStream_eq_none (s : StreamTable) :
    s.addStream = none ↔ 65534 ≤ s.streamMap.entries.length := by
  rw [addStream]
  split
  · next hfull => exact ⟨fun _ => hfull, fun _ => rfl⟩
  · next hroom =>
    have hsome := MuxWire.nextFree_isSome (Nat.lt_of_not_le hroom) s.nextId
    rw [Option.map_eq_none_iff]
    exact ⟨fun hnone => absurd hsome (by rw [hnone]; exact Bool.false_ne_true),
      fun hfull => absurd hfull hroom⟩

theorem addStream_allocated {s t : StreamTable} {id : UInt16}
    (h : s.addStream = some (id, t)) : s.Allocated id t := by
  rw [addStream] at h
  split at h
  · cases h
  · obtain ⟨⟨id', next'⟩, hfree, heq⟩ := Option.map_eq_some_iff.mp h
    obtain ⟨rfl, rfl⟩ := Prod.mk.inj heq
    obtain ⟨k, hk, hid, hnext, hne, hmem, hskip⟩ := nextFree_eq_some hfree
    refine ⟨hne, hmem, ⟨k, hk, hid, hnext, hskip⟩, AList.lookup_insert s.streamMap,
      fun other hother => AList.lookup_insert_ne hother, ?_, rfl, rfl⟩
    show (s.streamMap.insert id' s.streams.length).entries.length = _
    rw [AList.insert_of_notMem hmem]
    rfl

-- ============================================================================
-- What a step does
-- ============================================================================

/-- What one event does. -/
inductive Stepped (s : StreamTable) : Event → StreamTable → Prop where
  | allocates {id : UInt16} {t : StreamTable} (halloc : s.Allocated id t) : Stepped s .addStream t
  | saturated (hnone : s.addStream = none) : Stepped s .addStream s
  | closes {id : UInt16} (hin : s.inbound = .reading) :
      Stepped s (.readsCell id []) (s.removeStream id)
  | unknown {id : UInt16} {data : Bytes} (hin : s.inbound = .reading) (hdata : data ≠ [])
      (hl : s.streamMap.lookup id = none) : Stepped s (.readsCell id data) s
  | clones {id : UInt16} {data : Bytes} {i : Nat} (hin : s.inbound = .reading)
      (hdata : data ≠ []) (hl : s.streamMap.lookup id = some i) :
      Stepped s (.readsCell id data) { s with inbound := .sending id data i }
  | delivers {id : UInt16} {data : Bytes} {i : Nat} {st : TorStream}
      {down : Chan Bytes streamChannelCap} (hin : s.inbound = .sending id data i)
      (hst : s.streams[i]? = some st) (hsend : st.down.trySend data = .ok down) :
      Stepped s .sends { s.modifyStream i (fun _ => down) with inbound := .reading }
  | closed {id : UInt16} {data : Bytes} {i : Nat} {st : TorStream}
      (hin : s.inbound = .sending id data i) (hst : s.streams[i]? = some st)
      (hsend : st.down.trySend data = .error .closed) :
      Stepped s .sends { s with inbound := .removing id i }
  | drops {id : UInt16} {data : Bytes} {i : Nat} {st : TorStream}
      (hin : s.inbound = .sending id data i) (hst : s.streams[i]? = some st)
      (hsend : st.down.trySend data = .error .full) :
      Stepped s .sends { s with inbound := .reading }
  | removes {id : UInt16} {i : Nat} (hin : s.inbound = .removing id i) :
      Stepped s .removes { s.removeStream id with inbound := .reading }
  | ends (hin : s.inbound = .reading) : Stepped s .inboundEnds { s with inbound := .ended }
  | takes (i : Nat) : Stepped s (.takeDown i) (s.modifyStream i fun down => down.tryRecv.2)
  | hangsUp (i : Nat) : Stepped s (.dropDown i) (s.modifyStream i Chan.dropReceiver)

theorem step_stepped {s t : StreamTable} {e : Event} (h : s.step e = some t) : s.Stepped e t := by
  cases e with
  | addStream =>
      obtain rfl := Option.some.inj h
      cases hadd : s.addStream with
      | none => exact .saturated hadd
      | some r => exact .allocates (addStream_allocated hadd)
  | readsCell id data =>
      rw [step] at h
      split at h
      · next hin =>
        split at h
        · next hdata =>
          obtain rfl := Option.some.inj h
          subst hdata
          exact .closes hin
        · next hdata =>
          split at h
          · next hl => exact Option.some.inj h ▸ .unknown hin hdata hl
          · next i hl => exact Option.some.inj h ▸ .clones hin hdata hl
      · cases h
  | sends =>
      rw [step] at h
      split at h
      · next id data i hin =>
        obtain ⟨st, hst, rfl⟩ := Option.map_eq_some_iff.mp h
        split
        · next hsend => exact .delivers hin hst hsend
        · next hsend => exact .closed hin hst hsend
        · next hsend => exact .drops hin hst hsend
      · cases h
  | removes =>
      rw [step] at h
      split at h
      · next hin => exact Option.some.inj h ▸ .removes hin
      · cases h
  | inboundEnds =>
      rw [step] at h
      split at h
      · next hin => exact Option.some.inj h ▸ .ends hin
      · cases h
  | takeDown i => exact Option.some.inj h ▸ .takes i
  | dropDown i => exact Option.some.inj h ▸ .hangsUp i

-- ============================================================================
-- Which entry the receive loop removes
-- ============================================================================

/-- Every entry of the map is that of a stream with its id, and the entry that the
    receive loop holds is still the one in the map. -/
structure Held (s : StreamTable) : Prop where
  mapped : ∀ id i, s.streamMap.lookup id = some i →
    id ≠ streamIdSingle ∧ (s.streams[i]?).map TorStream.streamId = some id
  sending : ∀ id data i, s.inbound = .sending id data i → s.streamMap.lookup id = some i
  removing : ∀ id i, s.inbound = .removing id i → s.streamMap.lookup id = some i ∧
    (s.streams[i]?).map (fun st => st.down.receiver) = some false

variable {s t : StreamTable} {i : Nat}

theorem held_start (nextId : UInt16) : (start nextId).Held where
  mapped id i h := by
    rw [start, show (∅ : StreamMap Nat).lookup id = none from AList.lookup_empty id] at h
    cases h
  sending id data i h := by cases h
  removing id i h := by cases h

/-- A channel that changes keeps the id of its stream. -/
theorem modifyStream_streamId (s : StreamTable) (i j : Nat)
    (f : Chan Bytes streamChannelCap → Chan Bytes streamChannelCap) :
    ((s.modifyStream i f).streams[j]?).map TorStream.streamId
      = (s.streams[j]?).map TorStream.streamId := by
  show ((s.streams.modify i _)[j]?).map _ = _
  rw [List.getElem?_modify]
  cases s.streams[j]? with
  | none => rfl
  | some st =>
      simp only [Option.map_eq_map, Option.map_some]
      split <;> rfl

/-- A receiver that is gone stays gone, if the change of its channel leaves it. -/
theorem modifyStream_receiver (s : StreamTable) (i j : Nat)
    {f : Chan Bytes streamChannelCap → Chan Bytes streamChannelCap}
    (hf : ∀ st, s.streams[i]? = some st → st.down.receiver = false →
      (f st.down).receiver = false)
    (h : (s.streams[j]?).map (fun st => st.down.receiver) = some false) :
    ((s.modifyStream i f).streams[j]?).map (fun st => st.down.receiver) = some false := by
  show ((s.streams.modify i _)[j]?).map _ = _
  rw [List.getElem?_modify]
  cases hj : s.streams[j]? with
  | none =>
      rw [hj] at h
      cases h
  | some st =>
      rw [hj] at h
      have hst : st.down.receiver = false := Option.some.inj h
      simp only [Option.map_eq_map, Option.map_some]
      split
      · next hij => exact congrArg some (hf st (hij ▸ hj) hst)
      · exact congrArg some hst

/-- One end of a channel moves. -/
theorem Held.modifyStream (h : s.Held) (i : Nat)
    {f : Chan Bytes streamChannelCap → Chan Bytes streamChannelCap}
    (hf : ∀ st, s.streams[i]? = some st → st.down.receiver = false →
      (f st.down).receiver = false) : (s.modifyStream i f).Held where
  mapped id j hl := by
    rw [modifyStream_streamId]
    exact h.mapped id j hl
  sending := h.sending
  removing id j hr :=
    ⟨(h.removing id j hr).1, modifyStream_receiver s i j hf (h.removing id j hr).2⟩

/-- A task that holds no entry. -/
theorem Held.idle (h : s.Held) {inbound : InboundTask}
    (hsend : ∀ id data i, inbound ≠ .sending id data i)
    (hremove : ∀ id i, inbound ≠ .removing id i) : { s with inbound }.Held where
  mapped := h.mapped
  sending id data i hin := absurd hin (hsend id data i)
  removing id i hin := absurd hin (hremove id i)

theorem removeStream_lookup_self (s : StreamTable) (id : UInt16) :
    (s.removeStream id).streamMap.lookup id = none := by
  rw [removeStream]
  split
  · next hnone => exact hnone
  · exact AList.lookup_erase id s.streamMap

theorem removeStream_lookup_ne (s : StreamTable) {id other : UInt16} (hne : other ≠ id) :
    (s.removeStream id).streamMap.lookup other = s.streamMap.lookup other := by
  rw [removeStream]
  split
  · rfl
  · exact AList.lookup_erase_ne hne

theorem removeStream_streamId (s : StreamTable) (id : UInt16) (j : Nat) :
    ((s.removeStream id).streams[j]?).map TorStream.streamId
      = (s.streams[j]?).map TorStream.streamId := by
  rw [removeStream]
  split
  · rfl
  · exact modifyStream_streamId s _ j _

/-- An entry that is left after a removal was there before. -/
theorem Held.removeStream (h : s.Held) (id : UInt16) {inbound : InboundTask}
    (hsend : ∀ id data i, inbound ≠ .sending id data i)
    (hremove : ∀ id i, inbound ≠ .removing id i) : { s.removeStream id with inbound }.Held where
  mapped other j hl := by
    by_cases hne : other = id
    · subst hne
      rw [show ({ s.removeStream other with inbound } : StreamTable).streamMap.lookup other = none
        from removeStream_lookup_self s other] at hl
      cases hl
    · have hold : s.streamMap.lookup other = some j := (removeStream_lookup_ne s hne).symm.trans hl
      obtain ⟨hzero, hid⟩ := h.mapped other j hold
      exact ⟨hzero, (removeStream_streamId s id j).trans hid⟩
  sending id data i hin := absurd hin (hsend id data i)
  removing id i hin := absurd hin (hremove id i)

/-- A new stream takes no entry away. -/
theorem Allocated.held {id : UInt16} (halloc : s.Allocated id t) (h : s.Held) : t.Held := by
  have hkeep : ∀ {other i}, s.streamMap.lookup other = some i →
      t.streamMap.lookup other = some i := by
    intro other i hl
    have hne : other ≠ id := by
      rintro rfl
      exact halloc.fresh (AList.lookup_isSome.mp (by rw [hl]; rfl))
    rw [halloc.others other hne, hl]
  have hold : ∀ {other i}, s.streamMap.lookup other = some i → i < s.streams.length := by
    intro other i hl
    obtain ⟨st, hst, -⟩ := Option.map_eq_some_iff.mp (h.mapped other i hl).2
    exact (List.getElem?_eq_some_iff.mp hst).1
  refine ⟨?_, ?_, ?_⟩
  · intro other i hl
    rw [halloc.streams]
    by_cases hne : other = id
    · subst hne
      obtain rfl := Option.some.inj (hl.symm.trans halloc.inserted)
      exact ⟨halloc.nonzero, by rw [List.getElem?_concat_length]; rfl⟩
    · rw [halloc.others other hne] at hl
      rw [List.getElem?_append_left (hold hl)]
      exact h.mapped other i hl
  · intro other data i hin
    exact hkeep (h.sending other data i (halloc.inbound.symm.trans hin))
  · intro other i hin
    obtain ⟨hl, hgone⟩ := h.removing other i (halloc.inbound.symm.trans hin)
    refine ⟨hkeep hl, ?_⟩
    rw [halloc.streams, List.getElem?_append_left (hold hl)]
    exact hgone

/-- **Step lemma.**  The entry that the receive loop holds stays in the map: circuits add
    entries under other ids, and no one else removes any. -/
theorem Held.step (h : s.Held) {e : Event} (hstep : s.step e = some t) : t.Held := by
  have hread : ∀ id data i, InboundTask.reading ≠ .sending id data i := by
    intro id data i hin
    cases hin
  have hread' : ∀ id i, InboundTask.reading ≠ .removing id i := by
    intro id i hin
    cases hin
  cases step_stepped hstep with
  | allocates halloc => exact halloc.held h
  | saturated _ => exact h
  | @closes id hin =>
      have hsame : (s.removeStream id).inbound = .reading := by
        rw [StreamTable.removeStream]
        split <;> exact hin
      have hheld := h.removeStream id hread hread'
      rwa [← hsame] at hheld
  | unknown _ _ _ => exact h
  | clones _ _ hl =>
      refine ⟨h.mapped, ?_, ?_⟩
      · intro id' data' i' hin'
        cases hin'
        exact hl
      · intro id' i' hin'
        cases hin'
  | @delivers _ _ i st down _ hst hsend =>
      -- a send that succeeds finds the receiver alive
      have halive : st.down.receiver = true := (Chan.trySend_eq_ok hsend).1
      have hkeep := h.modifyStream i (f := fun _ => down) fun st' hst' hgone => by
        obtain rfl := Option.some.inj (hst.symm.trans hst')
        exact absurd (halive.symm.trans hgone) Bool.noConfusion
      exact hkeep.idle hread hread'
  | @closed id data i st hin hst hsend =>
      refine ⟨h.mapped, ?_, ?_⟩
      · intro id' data' i' hin'
        cases hin'
      · intro id' i' hin'
        cases hin'
        refine ⟨h.sending id data i hin, ?_⟩
        rw [hst]
        exact congrArg some (Chan.receiver_of_closed hsend)
  | drops _ _ _ => exact h.idle hread hread'
  | removes _ => exact h.removeStream _ hread hread'
  | ends _ =>
      refine h.idle ?_ ?_
      · intro id data i hin
        cases hin
      · intro id i hin
        cases hin
  | takes i => exact h.modifyStream i fun st _ hgone => (Chan.tryRecv_receiver st.down).trans hgone
  | hangsUp i => exact h.modifyStream i fun _ _ _ => rfl

/-- Why an entry of the map goes away in a step. -/
inductive Removal (s : StreamTable) (e : Event) (id : UInt16) (i : Nat) : Prop
  /-- The close sentinel of its id. -/
  | closed (sentinel : e = .readsCell id []) (reading : s.inbound = .reading)
  /-- The receiver of this very stream is gone. -/
  | gone (removes : e = .removes) (found : s.inbound = .removing id i)
      (receiver : (s.streams[i]?).map (fun st => st.down.receiver) = some false)

/-- **What a step removes, and why.** -/
theorem step_removal (h : s.Held) {e : Event} (hstep : s.step e = some t) {id : UInt16}
    (hl : s.streamMap.lookup id = some i) (hgone : t.streamMap.lookup id ≠ some i) :
    s.Removal e id i := by
  cases step_stepped hstep with
  | @allocates new _ halloc =>
      have hne : id ≠ new := by
        rintro rfl
        exact halloc.fresh (AList.lookup_isSome.mp (by rw [hl]; rfl))
      exact absurd ((halloc.others id hne).trans hl) hgone
  | @closes id' hin =>
      by_cases hid : id = id'
      · exact .closed (by rw [hid]) hin
      · exact absurd ((removeStream_lookup_ne s hid).trans hl) hgone
  | @removes id' i' hin =>
      obtain ⟨hheld, hreceiver⟩ := h.removing id' i' hin
      by_cases hid : id = id'
      · subst hid
        obtain rfl := Option.some.inj (hl.symm.trans hheld)
        exact .gone rfl hin hreceiver
      · exact absurd ((removeStream_lookup_ne s hid).trans hl) hgone
  | saturated _ | unknown _ _ _ | clones _ _ _ | delivers _ _ _ | closed _ _ _ | drops _ _ _
  | ends _ | takes _ | hangsUp _ => exact absurd hl hgone

-- ============================================================================
-- Runs
-- ============================================================================

/-- The sender of stream `i` is in the map, under its id. -/
def Live (s : StreamTable) (i : Nat) (id : UInt16) : Prop :=
  (s.streams[i]?).map TorStream.streamId = some id ∧ s.streamMap.lookup id = some i

/-- Live streams have distinct ids, none of them reserved, and the map holds no other
    entries. -/
structure DistinctIds (s : StreamTable) : Prop where
  nonzero : ∀ i id, s.Live i id → id ≠ streamIdSingle
  distinct : ∀ i j id, s.Live i id → s.Live j id → i = j
  live : ∀ id i, s.streamMap.lookup id = some i → s.Live i id

theorem Held.distinctIds (h : s.Held) : s.DistinctIds where
  nonzero i id hlive := (h.mapped id i hlive.2).1
  distinct _ _ _ hi hj := Option.some.inj (hi.2.symm.trans hj.2)
  live id i hl := ⟨(h.mapped id i hl).2, hl⟩

/-- **Stream ids.** For every value of the counter and every interleaving of allocations,
    of the receive loop between its locks and of circuits that come and go: in every
    state, `add_stream` refuses exactly when the map holds 65,534 entries and otherwise
    gives out a fresh nonzero id after at most 65,536 candidates, changing no other
    entry; live streams have distinct nonzero ids; and an entry is removed by its close
    sentinel, or because the receiver of that same stream is gone. -/
theorem always_distinctIds (nextId : UInt16) (events : List Event) :
    Machine.Always step (fun s => s.DistinctIds ∧
        (s.addStream = none ↔ 65534 ≤ s.streamMap.entries.length) ∧
        ∀ id t, s.addStream = some (id, t) → s.Allocated id t) (start nextId) events ∧
      Machine.Meets step (fun s e => ∀ t, s.step e = some t → ∀ id i,
        s.streamMap.lookup id = some i → t.streamMap.lookup id ≠ some i → s.Removal e id i)
        (start nextId) events := by
  constructor
  · exact (Machine.always_of_invariant (fun _ _ _ h => h.step) (held_start nextId) events).mono
      fun s h => ⟨h.distinctIds, addStream_eq_none s, fun _ _ => addStream_allocated⟩
  · exact Machine.meets_of_invariant (I := Held) (fun _ _ _ h => h.step)
      (fun _ _ h _ hstep _ _ => step_removal h hstep) (held_start nextId) events

-- A receiver that goes away between the clone and the send, and a stream that is opened
-- before the removal; the counter wraps past the reserved id.
example : ((Machine.run step (start 65535)
    [.addStream, .addStream, .readsCell 65535 [1], .dropDown 0, .sends, .addStream, .removes]).map
      fun s => (s.streamMap.keys, s.nextId)) = some ([2, 1], 3) := by decide +kernel

end StreamTable

end MixTor
