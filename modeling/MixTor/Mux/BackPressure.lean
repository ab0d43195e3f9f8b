/-
  MixTor.Mux.BackPressure

  What happens to a cell that its relay does not want yet.

  A relay at its byte cap stops pulling, so that its channel fills and the
  client is held back.  But the loop that fills the channel does not wait for
  room: once 256 cells wait behind a relay at its cap, the next one is dropped.

  The runs are those in which relays are prompt: a cell is only read when every
  relay has done what it can, and the bridge accepts every connection and write.
-/

import MixTor.Mux.Demux

namespace MixTor

open Channel
open Crypto (Bytes)

namespace BridgeRelay

/-- In the hold phase. -/
def isHolding (r : BridgeRelay) : Bool :=
  match r.phase with
  | .hold _ => true
  | _ => false

/-- In the hold phase with `EPOCH_HOLD_MAX_BYTES` held. -/
def heldAtCap (r : BridgeRelay) : Bool :=
  match r.phase with
  | .hold held => epochHoldMaxBytes ≤ heldBytes held
  | _ => false

/-- The relay has done all it can do by `now`. -/
def Settled (r : BridgeRelay) (now : Instant) : Prop :=
  r.poll now = none ∧ (r.gateUntil ≤ now → r.isHolding = false)

instance (r : BridgeRelay) (now : Instant) : Decidable (r.Settled now) :=
  inferInstanceAs (Decidable (_ ∧ _))

variable {r r' : BridgeRelay} {now : Instant}

/-- A relay at rest takes a cell, unless it is at its cap and its channel full. -/
theorem Open.trySend (h : r.Open) (hidle : r.Idle)
    (hroom : ¬ (r.heldAtCap = true ∧ r.dataRx.queue.length = streamChannelCap)) (data : Bytes) :
    ∃ rx, r.dataRx.trySend data = .ok rx := by
  apply Chan.trySend_of_room data h.receiver
  have hle := r.dataRx.queue_le
  cases hidle with
  | atCap hp hcap _ =>
      have hheld : r.heldAtCap = true := by
        rw [heldAtCap, hp]
        exact decide_eq_true hcap
      have hne : r.dataRx.queue.length ≠ streamChannelCap := fun hfull => hroom ⟨hheld, hfull⟩
      omega
  | holding _ _ hq _ | drained _ hq _ =>
      rw [hq]
      decide
  | finished hp => exact absurd hp h.notOver

end BridgeRelay

namespace Demux

/-- Every relay is settled. -/
def AtRest (d : Demux) : Prop := ∀ b ∈ d.bridges, b.relay.Settled d.now

instance (d : Demux) : Decidable d.AtRest :=
  inferInstanceAs (Decidable (∀ b ∈ d.bridges, _))

/-- The steps of a run with prompt relays and a bridge that accepts everything. -/
def promptStep (d : Demux) : Event → Option Demux
  | .cell cell prev => if d.AtRest then d.step (.cell cell prev) else none
  | .connectFails _ | .writeFails _ _ => none
  | e => d.step e

/-- There is room for a cell of `streamId`: it carries no data, or its relay is
    not at its byte cap with a full channel behind it, or it starts a stream and
    meets neither stream cap. -/
def RoomFor (d : Demux) (streamId : UInt16) (data : Bytes) (prev : Nat) : Prop :=
  data ≠ [] →
    match d.streamMap.lookup streamId with
    | some i => ∀ b, d.bridges[i]? = some b →
        ¬ (b.relay.heldAtCap = true ∧ b.relay.dataRx.queue.length = streamChannelCap)
    | none => d.streamMap.entries.length < maxStreamsPerWire ∧ prev < maxGlobalBridgeStreams

def HasRoom (d : Demux) : Event → Prop
  | .cell cell prev =>
      d.RoomFor (decodeRealCell cell.bytes).1 (decodeRealCell cell.bytes).2 prev
  | _ => True

/-- The invariant of a run that drops nothing. -/
structure Flowing (d : Demux) : Prop where
  mapped : d.Mapped
  dropped : d.dropped = []

variable {d d' : Demux} {streamId : UInt16} {data : Bytes} {prev : Nat}

theorem flowing_new (tail : TailPolicy) (now : Instant) : (new tail now).Flowing where
  mapped := mappedTo_new tail now
  dropped := rfl

-- ============================================================================
-- One cell
-- ============================================================================

/-- A prompt step is a step without a failure, and reads a cell only at rest. -/
theorem promptStep_eq_some {e : Event} (h : d.promptStep e = some d') :
    d.step e = some d' ∧ e.NoFailure ∧ ∀ cell prev, e = .cell cell prev → d.AtRest := by
  cases e with
  | cell cell prev =>
      rw [promptStep] at h
      split at h
      · next hrest => exact ⟨h, trivial, fun _ _ _ => hrest⟩
      · cases h
  | connectFails | writeFails => cases h
  | wireEnds | advance | poll | deadline => exact ⟨h, trivial, nofun⟩

/-- A cell that finds room is not dropped. -/
theorem Flowing.routed (h : d.Flowing) (hrest : d.AtRest) (hroom : d.RoomFor streamId data prev)
    (hrouted : (d.record streamId data).Routed streamId data prev d') : d'.dropped = [] := by
  have hdropped : (d.record streamId data).dropped = [] := (record_dropped ..).trans h.dropped
  -- an open relay at rest takes the cell
  have htakes : ∀ i b, data ≠ [] → (d.record streamId data).streamMap.lookup streamId = some i →
      (d.record streamId data).bridges[i]? = some b →
      ∃ rx, b.relay.dataRx.trySend data = .ok rx := by
    intro i b hdata hl hb
    rw [record_streamMap] at hl
    rw [record_bridges] at hb
    obtain ⟨b', hb', -, hopen⟩ := h.mapped streamId i hl
    obtain rfl := Option.some.inj (hb.symm.trans hb')
    have hidle := BridgeRelay.idle_of_poll (hrest b (List.mem_of_getElem? hb)).1
    have hfree := hroom hdata
    rw [hl] at hfree
    exact hopen.trySend hidle (hfree b hb) data
  cases hrouted with
  | closes => exact (closeStream_dropped ..).trans hdropped
  | dangles | sends | opens => exact hdropped
  | gone hdata hl hb hsend | full hdata hl hb hsend =>
      obtain ⟨rx, hrx⟩ := htakes _ _ hdata hl hb
      rw [hsend] at hrx
      cases hrx
  | wireCap hdata hl hcap =>
      rw [record_streamMap] at hl hcap
      have hfree := hroom hdata
      rw [hl] at hfree
      exact absurd hcap (Nat.not_le_of_lt hfree.1)
  | globalCap hdata hl hcap =>
      rw [record_streamMap] at hl
      have hfree := hroom hdata
      rw [hl] at hfree
      exact absurd hcap (Nat.not_le_of_lt hfree.2)

/-- A cell that finds no room is dropped. -/
theorem Flowing.drops (h : d.Flowing) (hroom : ¬ d.RoomFor streamId data prev)
    (hrouted : (d.record streamId data).Routed streamId data prev d') : d'.dropped ≠ [] := by
  obtain ⟨hdata, hbusy⟩ := Classical.not_imp.mp hroom
  have hlast : ∀ l : List (UInt16 × Bytes), l ++ [(streamId, data)] ≠ [] := fun l =>
    List.append_ne_nil_of_right_ne_nil l (List.cons_ne_nil _ _)
  cases hrouted with
  | closes hnil => exact absurd hnil hdata
  | dangles _ hl hb =>
      rw [record_streamMap] at hl
      rw [record_bridges] at hb
      obtain ⟨b, hb', -⟩ := h.mapped streamId _ hl
      rw [hb] at hb'
      cases hb'
  | sends _ hl hb hsend =>
      rw [record_streamMap] at hl
      rw [record_bridges] at hb
      rw [hl] at hbusy
      refine absurd (fun b' hb' hfull => ?_) hbusy
      obtain rfl := Option.some.inj (hb.symm.trans hb')
      obtain ⟨-, hlt, -⟩ := Chan.trySend_eq_ok hsend
      exact absurd hfull.2 (Nat.ne_of_lt hlt)
  | gone | full | wireCap | globalCap => exact hlast _
  | opens _ hl hwire hglobal _ =>
      rw [record_streamMap] at hl hwire
      rw [hl] at hbusy
      exact absurd ⟨hwire, hglobal⟩ hbusy

-- ============================================================================
-- Runs
-- ============================================================================

/-- Only a cell can be dropped. -/
theorem step_dropped {e : Event} (hstep : d.step e = some d')
    (hcell : ∀ cell prev, e ≠ .cell cell prev) : d'.dropped = d.dropped := by
  cases e with
  | cell cell prev => exact absurd rfl (hcell cell prev)
  | wireEnds =>
      rw [step] at hstep
      split at hstep
      · cases hstep
      · obtain rfl := Option.some.inj hstep
        rfl
  | advance elapsed =>
      obtain rfl := Option.some.inj hstep
      rfl
  | poll | deadline | connectFails | writeFails =>
      rw [step] at hstep
      obtain ⟨b, r, -, -, rfl⟩ := onRelay_eq_some hstep
      rfl

theorem promptStep_flowing {e : Event} (h : d.Flowing) (hroom : d.HasRoom e)
    (hprompt : d.promptStep e = some d') : d'.Flowing := by
  obtain ⟨hstep, hok, hrest⟩ := promptStep_eq_some hprompt
  refine ⟨step_mapped h.mapped hok hstep, ?_⟩
  cases e with
  | cell cell prev => exact h.routed (hrest cell prev rfl) hroom (readCell_eq_some hstep).2
  | wireEnds | advance | poll | deadline | connectFails | writeFails =>
      exact (step_dropped hstep nofun).trans h.dropped

/-- **When no uplink cell is dropped.** For every tail policy, every sequence of
    cells and every interleaving in which relays run promptly and the bridge
    accepts every write, the loop drops no data cell if and only if no data cell
    meets a relay at its byte cap with 256 cells waiting behind it, and no cell
    that starts a stream meets a stream cap. -/
theorem dropped_nil_iff (tail : TailPolicy) (now : Instant) (events : List Event) :
    Machine.Always promptStep (fun d => d.dropped = []) (new tail now) events ↔
      Machine.Meets promptStep HasRoom (new tail now) events := by
  refine Machine.always_iff_meets (fun _ h => h.dropped) (fun _ _ _ => promptStep_flowing) ?_
    (flowing_new tail now)
  intro d e d' h hroom hstep
  cases e with
  | cell cell prev => exact h.drops hroom (readCell_eq_some (promptStep_eq_some hstep).1).2
  | _ => exact absurd trivial hroom

/-- A cell with as many data bytes as fit. -/
def fullCell : Cell := (encodeRealCell 1 (List.replicate cellPayload 0) (⟨0⟩ : FixedRng)).1

/-- 515 full cells reach the cap of the relay, 257 more follow them. -/
def heldBurst : List Event :=
  [.cell fullCell 0, .poll 0, .poll 0] ++
    (List.replicate 514 [Event.cell fullCell 0, .poll 0]).flatten ++
    List.replicate 257 (.cell fullCell 0)

set_option maxRecDepth 20000 in
/-- Within one epoch of a second the client sends 772 cells: 515 are held, 256
    wait in the channel and the last one is dropped. -/
theorem last_cell_of_heldBurst_dropped :
    ((Machine.run promptStep (new (.epoch ⟨0, .fromSecs 1⟩) 0) heldBurst).map fun d =>
        (d.bridges.map fun b => b.relay.dataRx.queue.length, d.dropped.length))
          = some ([256], 1) ∧
      ¬ Machine.Always promptStep (fun d => d.dropped = []) (new (.epoch ⟨0, .fromSecs 1⟩) 0)
        heldBurst := by
  have hrun : ((Machine.run promptStep (new (.epoch ⟨0, .fromSecs 1⟩) 0) heldBurst).map fun d =>
      (d.bridges.map fun b => b.relay.dataRx.queue.length, d.dropped.length))
        = some ([256], 1) := by
    decide +kernel
  refine ⟨hrun, fun h => ?_⟩
  obtain ⟨d, hd, hstate⟩ := Option.map_eq_some_iff.mp hrun
  have hlen := (Prod.mk.inj hstate).2
  rw [h.last hd] at hlen
  cases hlen

end Demux

end MixTor
