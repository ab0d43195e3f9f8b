/-
  MixTor.Mux.MuxWire

  The client's mux wire (transport.rs): one shaped connection shared by many Tor
  circuits.  `add_stream` gives a circuit a free stream id and the receiver of a
  downlink channel; the inbound task routes decoded cells to these channels.

  Liveness of the wire is read off the uplink channel, which belongs to the
  emitter.  The inbound task is another task: nothing it does when it ends
  closes the uplink or empties the map.
-/

import MixTor.Lib.Channel
import MixTor.Lib.Machine
import MixTor.Crypto.Primitives
import Mathlib.Data.List.AList

namespace MixTor

open Channel
open Crypto (Bytes Key)

/-- `HashMap<u16, _>`. -/
abbrev StreamMap (α : Type) := AList (fun _ : UInt16 => α)

/-- Capacity of a per-stream channel, on either side of the wire. -/
def streamChannelCap : Nat := 256

/-- Stream ID of non-mux connections. -/
def streamIdSingle : UInt16 := 0

/-- The shared mux wire. -/
structure MuxWire where
  /-- The key the handshake of this wire succeeded with. -/
  serverPub : Key
  /-- The emitter still holds the flow behind `cell_tx`. -/
  uplinkOpen : Bool
  /-- The downlink channel of every circuit whose sender is in the map. -/
  streamMap : StreamMap (Chan Bytes streamChannelCap)
  nextId : UInt16
  /-- `receive_mux_inbound` has returned. -/
  inboundEnded : Bool

namespace MuxWire

/-- A wire whose handshake has succeeded. -/
def connect (serverPub : Key) : MuxWire where
  serverPub
  uplinkOpen := true
  streamMap := ∅
  nextId := 1
  inboundEnded := false

def isAlive (w : MuxWire) : Bool := w.uplinkOpen

/-- Scan forward from `next` for an id that is not reserved and not in the map;
    also returns the counter behind it. -/
def nextFree {α : Type} (map : StreamMap α) : Nat → UInt16 → Option (UInt16 × UInt16)
  | 0, _ => none
  | fuel + 1, next =>
      if next ≠ streamIdSingle ∧ next ∉ map then some (next, next + 1)
      else nextFree map fuel (next + 1)

/-- Allocate a new stream, or `none` if the wire is saturated.  The scan visits
    every id within 65,536 steps. -/
def addStream (w : MuxWire) : Option (UInt16 × MuxWire) :=
  if 65535 - 1 ≤ w.streamMap.entries.length then none
  else (nextFree w.streamMap 65536 w.nextId).map fun (id, nextId) =>
    (id, { w with streamMap := w.streamMap.insert id .new, nextId })

/-- The inbound task routes one real cell. -/
def receive (w : MuxWire) (streamId : UInt16) (data : Bytes) : MuxWire :=
  if data = [] then { w with streamMap := w.streamMap.erase streamId }
  else match w.streamMap.lookup streamId with
    | none => w
    | some tx =>
        match tx.trySend data with
        | .ok tx => { w with streamMap := w.streamMap.replace streamId tx }
        | .error .closed => { w with streamMap := w.streamMap.erase streamId }
        | .error .full => w  -- the cell is dropped

/-- A change of the receiving end of a downlink channel. -/
def updateStream (w : MuxWire) (streamId : UInt16)
    (f : Chan Bytes streamChannelCap → Chan Bytes streamChannelCap) : MuxWire :=
  match w.streamMap.lookup streamId with
  | none => w
  | some rx => { w with streamMap := w.streamMap.replace streamId (f rx) }

inductive Event where
  /-- A circuit asks for a stream. -/
  | addStream
  /-- The inbound task decodes a real cell. -/
  | receive (streamId : UInt16) (data : Bytes)
  /-- The inbound task ends: clean EOF, I/O error or a frame that does not open. -/
  | inboundEnds
  /-- The emitter drops the uplink flow. -/
  | uplinkDrops
  /-- A circuit's writer takes a chunk from its channel. -/
  | takeDown (streamId : UInt16)
  /-- A circuit's writer ends and drops its receiver. -/
  | dropDown (streamId : UInt16)

def step (w : MuxWire) : Event → Option MuxWire
  | .addStream => some ((w.addStream.map Prod.snd).getD w)
  | .receive streamId data => if w.inboundEnded then none else some (w.receive streamId data)
  | .inboundEnds => if w.inboundEnded then none else some { w with inboundEnded := true }
  | .uplinkDrops => some { w with uplinkOpen := false }
  | .takeDown streamId => some (w.updateStream streamId fun rx => rx.tryRecv.2)
  | .dropDown streamId => some (w.updateStream streamId Chan.dropReceiver)

-- ============================================================================
-- Allocation
-- ============================================================================

/-- A scan that finds nothing has seen only reserved and live ids. -/
theorem nextFree_eq_none {α : Type} {map : StreamMap α} {fuel : Nat} {next : UInt16}
    (h : nextFree map fuel next = none) :
    ∀ k < fuel, next + UInt16.ofNat k = streamIdSingle ∨ next + UInt16.ofNat k ∈ map := by
  induction fuel generalizing next with
  | zero => exact fun k hk => absurd hk (Nat.not_lt_zero k)
  | succ fuel ih =>
      rw [nextFree] at h
      split at h
      · cases h
      · next hbusy =>
        intro k hk
        cases k with
        | zero =>
            have hnext : next + UInt16.ofNat 0 = next := UInt16.add_zero next
            rw [hnext]
            by_cases h0 : next = streamIdSingle
            · exact .inl h0
            · exact .inr (not_not.mp fun hmem => hbusy ⟨h0, hmem⟩)
        | succ k =>
            have hshift : next + UInt16.ofNat (k + 1) = next + 1 + UInt16.ofNat k := by
              rw [UInt16.ofNat_add, UInt16.add_assoc, UInt16.add_comm (UInt16.ofNat k)]
              rfl
            rw [hshift]
            exact ih h k (by omega)

/-- The ids that can be given out. -/
def circuitIds : List UInt16 := (List.range 65535).map fun k => UInt16.ofNat (k + 1)

theorem circuitIds_nodup : circuitIds.Nodup := by
  refine List.Nodup.map_on ?_ List.nodup_range
  intro a ha b hb hab
  rw [List.mem_range] at ha hb
  have := congrArg UInt16.toNat hab
  rw [UInt16.toNat_ofNat', UInt16.toNat_ofNat', Nat.mod_eq_of_lt (by omega),
    Nat.mod_eq_of_lt (by omega)] at this
  omega

theorem mem_circuitIds_ne {id : UInt16} (h : id ∈ circuitIds) : id ≠ streamIdSingle := by
  obtain ⟨k, hk, rfl⟩ := List.mem_map.mp h
  rw [List.mem_range] at hk
  intro h0
  have := congrArg UInt16.toNat h0
  rw [UInt16.toNat_ofNat', Nat.mod_eq_of_lt (by omega)] at this
  exact absurd this (Nat.succ_ne_zero k)

/-- While the map is not saturated the scan finds a free id. -/
theorem nextFree_isSome {α : Type} {map : StreamMap α} (hroom : map.entries.length < 65534)
    (next : UInt16) : (nextFree map 65536 next).isSome := by
  by_contra hnone
  have hall := nextFree_eq_none (Option.not_isSome_iff_eq_none.mp hnone)
  -- every circuit id is a key, so the map has 65,535 entries
  have hsub : circuitIds ⊆ map.keys := by
    intro id hid
    have hk : (id - next).toNat < 65536 := (id - next).toNat_lt
    rcases hall _ hk with h | h
    · rw [UInt16.ofNat_toNat, UInt16.add_comm, UInt16.sub_add_cancel] at h
      exact absurd h (mem_circuitIds_ne hid)
    · rwa [UInt16.ofNat_toNat, UInt16.add_comm, UInt16.sub_add_cancel] at h
  have hlen := circuitIds_nodup.length_le_of_subset hsub
  rw [circuitIds, List.length_map, List.length_range] at hlen
  have hkeys : map.keys.length = map.entries.length := List.length_map ..
  omega

theorem addStream_isSome {w : MuxWire} (hroom : w.streamMap.entries.length < 65534) :
    ∃ id w', w.addStream = some (id, w') ∧ w'.streamMap = w.streamMap.insert id .new ∧
      w'.inboundEnded = w.inboundEnded ∧ w'.uplinkOpen = w.uplinkOpen := by
  obtain ⟨⟨id, nextId⟩, hfree⟩ := Option.isSome_iff_exists.mp (nextFree_isSome hroom w.nextId)
  rw [addStream, if_neg (by omega), hfree]
  exact ⟨id, _, rfl, rfl, rfl, rfl⟩

-- ============================================================================
-- After the inbound task has ended
-- ============================================================================

/-- The wire is not handed out again and no circuit waits on it for downlink. -/
def QuietOnceEnded (w : MuxWire) : Prop :=
  w.inboundEnded = true → w.isAlive = false ∧ w.streamMap = ∅

/-- The inbound task ends only on a wire that is already dead and empty, and no
    circuit asks for a stream afterwards. -/
def EndsQuietly (w : MuxWire) : Event → Prop
  | .inboundEnds => w.isAlive = false ∧ w.streamMap = ∅
  | .addStream => w.inboundEnded = false
  | _ => True

theorem lookup_empty_map (streamId : UInt16) :
    (∅ : StreamMap (Chan Bytes streamChannelCap)).lookup streamId = none :=
  AList.lookup_empty streamId

/-- The receiving end of a channel cannot fill an empty map. -/
theorem updateStream_of_empty {w : MuxWire} (h : w.streamMap = ∅) (streamId : UInt16)
    (f : Chan Bytes streamChannelCap → Chan Bytes streamChannelCap) :
    w.updateStream streamId f = w := by
  rw [updateStream, h, lookup_empty_map]

theorem updateStream_ended (w : MuxWire) (streamId : UInt16)
    (f : Chan Bytes streamChannelCap → Chan Bytes streamChannelCap) :
    (w.updateStream streamId f).inboundEnded = w.inboundEnded := by
  rw [updateStream]
  split <;> rfl

theorem receive_ended (w : MuxWire) (streamId : UInt16) (data : Bytes) :
    (w.receive streamId data).inboundEnded = w.inboundEnded := by
  rw [receive]
  split
  · rfl
  · split
    · rfl
    · split <;> rfl

/-- A quiet step keeps the wire quiet. -/
theorem step_quiet {w w' : MuxWire} {e : Event} (h : w.QuietOnceEnded) (hc : w.EndsQuietly e)
    (hstep : w.step e = some w') : w'.QuietOnceEnded := by
  cases e with
  | addStream =>
      obtain rfl := Option.some.inj hstep
      intro hend
      have hrun : w.inboundEnded = false := hc
      cases hadd : w.addStream with
      | none =>
          rw [hadd] at hend
          exact h hend
      | some r =>
          have hkeep : r.2.inboundEnded = w.inboundEnded := by
            rw [addStream] at hadd
            split at hadd
            · cases hadd
            · obtain ⟨p, -, rfl⟩ := Option.map_eq_some_iff.mp hadd
              rfl
          rw [hadd] at hend
          exact absurd ((hkeep.trans hrun).symm.trans hend) Bool.false_ne_true
  | receive streamId data =>
      rw [step] at hstep
      split at hstep
      · cases hstep
      · next hrun =>
        obtain rfl := Option.some.inj hstep
        intro hend
        rw [receive_ended] at hend
        exact absurd hend hrun
  | inboundEnds =>
      rw [step] at hstep
      split at hstep
      · cases hstep
      · obtain rfl := Option.some.inj hstep
        exact fun _ => hc
  | uplinkDrops =>
      obtain rfl := Option.some.inj hstep
      exact fun hend => ⟨rfl, (h hend).2⟩
  | takeDown streamId =>
      obtain rfl := Option.some.inj hstep
      intro hend
      rw [updateStream_ended] at hend
      rw [updateStream_of_empty (h hend).2]
      exact h hend
  | dropDown streamId =>
      obtain rfl := Option.some.inj hstep
      intro hend
      rw [updateStream_ended] at hend
      rw [updateStream_of_empty (h hend).2]
      exact h hend

/-- A step that is not quiet leaves a dead inbound task behind a wire that looks
    alive, or a circuit waiting on it. -/
theorem step_not_quiet {w w' : MuxWire} {e : Event} (h : w.QuietOnceEnded)
    (hc : ¬ w.EndsQuietly e) (hstep : w.step e = some w') : ¬ w'.QuietOnceEnded := by
  cases e with
  | inboundEnds =>
      rw [step] at hstep
      split at hstep
      · cases hstep
      · obtain rfl := Option.some.inj hstep
        exact fun hquiet => hc (hquiet rfl)
  | addStream =>
      have hend : w.inboundEnded = true := Bool.not_eq_false _ ▸ hc
      have hempty := (h hend).2
      have hroom : w.streamMap.entries.length < 65534 := by
        rw [hempty]
        decide
      obtain ⟨id, w'', hadd, hmap, hkeep, -⟩ := addStream_isSome hroom
      obtain rfl := Option.some.inj hstep
      intro hquiet
      have hquiet' : w''.QuietOnceEnded := by
        rw [hadd] at hquiet
        exact hquiet
      have hmem : id ∈ w''.streamMap := by
        rw [hmap]
        exact (AList.mem_insert _).mpr (.inl rfl)
      rw [(hquiet' (hkeep.trans hend)).2] at hmem
      exact AList.notMem_empty id hmem
  | receive | uplinkDrops | takeDown | dropDown => exact absurd trivial hc

/-- **When the end of the inbound task is noticed.** Along a run of a wire,
    `is_alive` is false and the map empty from the end of the inbound task on if
    and only if the task only ends on a wire whose uplink is already closed and
    whose map is empty, and no circuit asks for a stream afterwards. -/
theorem quietOnceEnded_iff (serverPub : Key) (events : List Event) :
    Machine.Always step QuietOnceEnded (connect serverPub) events ↔
      Machine.Meets step EndsQuietly (connect serverPub) events :=
  Machine.always_iff_meets (fun _ h => h) (fun _ _ _ => step_quiet)
    (fun _ _ _ => step_not_quiet) (fun h => absurd h Bool.false_ne_true)

/-- The inbound task ends while a circuit is open: the wire is still alive, its
    sender is still in the map, and the next circuit is put on the same wire. -/
theorem not_quietOnceEnded_open_circuit :
    ((Machine.run step (connect (Vector.replicate 32 7))
        [.addStream, .inboundEnds, .addStream]).map fun w =>
          (w.inboundEnded, w.isAlive, w.streamMap.keys)) = some (true, true, [2, 1]) ∧
      ¬ Machine.Always step QuietOnceEnded (connect (Vector.replicate 32 7))
        [.addStream, .inboundEnds, .addStream] := by
  have hrun : ((Machine.run step (connect (Vector.replicate 32 7))
      [.addStream, .inboundEnds, .addStream]).map fun w =>
        (w.inboundEnded, w.isAlive, w.streamMap.keys)) = some (true, true, [2, 1]) := by
    decide +kernel
  refine ⟨hrun, fun h => ?_⟩
  obtain ⟨w, hw, hstate⟩ := Option.map_eq_some_iff.mp hrun
  obtain ⟨hend, hrest⟩ := Prod.mk.inj hstate
  have halive := (h.last hw hend).1
  rw [(Prod.mk.inj hrest).1] at halive
  cases halive

end MuxWire

end MixTor
