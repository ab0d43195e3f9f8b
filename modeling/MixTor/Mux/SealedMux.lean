/-
  MixTor.Mux.SealedMux

  A mux wire with everything between its tasks (transport.rs): the circuits of a
  client and the relays of its server, and the two sealed links their cells take.

  In `MuxTraffic` a cell that a task sends is on the way until the task at the
  other end takes it.  Here it is put on the channel of a flow, waits for a slot
  of the departure clock, is sealed and written in pieces, and at the other end
  read in pieces, opened and decoded, among dummies that are dropped.

  That makes no difference to the tasks.  With the cells that were handed to a
  flow and are not decoded yet for the cells on the way, every run is one of
  `MuxTraffic`, and what holds of those holds over sealed wires.
-/

import MixTor.Mux.HalfClose
import MixTor.Transport.CircuitSession

namespace MixTor

open Crypto (Bytes Aead Blake3 Blake3Kdf Curve FrameCipher)

-- ============================================================================
-- The tasks, whatever is on the way
-- ============================================================================

namespace MuxTraffic

/-- The event of a task that reads no wire. -/
def Event.isLocal : Event → Bool
  | .serverReads _ | .clientReads | .wireEnds => false
  | .openCircuit | .readerSends _ _ | .readerEof _ | .readerFails _ | .writerPolls _
  | .writerFails _ _ | .server _ | .bridgeSends _ _ | .bridgeEof _ | .bridgeFails _ => true

/-- The tasks, with more cells on the way ahead of those they know of. -/
def behind (w : MuxTraffic) (up down : List TaggedCell) : MuxTraffic :=
  { w with uplink := up ++ w.uplink, downlink := down ++ w.downlink }

variable {w w' : MuxTraffic} {up down : List TaggedCell}

theorem onReader_behind (w : MuxTraffic) (circuit : Nat) (f : MuxCircuit → MuxTraffic) :
    (w.behind up down).onReader circuit (fun t => (f t).behind up down)
      = (w.onReader circuit f).map (·.behind up down) := by
  rw [onReader, onReader]
  show (w.circuits[circuit]?).bind _ = _
  cases w.circuits[circuit]? with
  | none => rfl
  | some t =>
      rw [Option.bind_some, Option.bind_some]
      split <;> rfl

theorem onWriter_behind (w : MuxTraffic) (circuit : Nat) (f : MuxCircuit → Option MuxCircuit) :
    (w.behind up down).onWriter circuit f = (w.onWriter circuit f).map (·.behind up down) := by
  rw [onWriter, onWriter]
  show (w.circuits[circuit]?).bind _ = _
  cases w.circuits[circuit]? with
  | none => rfl
  | some t =>
      rw [Option.bind_some, Option.bind_some, Option.map_map]
      rfl

theorem onBridge_behind (w : MuxTraffic) (relay : Nat) (f : Bridge → Upstream → MuxTraffic) :
    (w.behind up down).onBridge relay (fun b u => (f b u).behind up down)
      = (w.onBridge relay f).map (·.behind up down) := by
  rw [onBridge, onBridge]
  show (w.server.bridges[relay]?).bind _ = _
  cases w.server.bridges[relay]? with
  | none => rfl
  | some b =>
      rw [Option.bind_some, Option.bind_some]
      show (w.upstreams[relay]?).bind _ = _
      cases w.upstreams[relay]? with
      | none => rfl
      | some u =>
          rw [Option.bind_some, Option.bind_some]
          split <;> rfl

/-- A task that reads no wire does not see what is on the way, and sends behind it. -/
theorem step_behind {e : Event} (hlocal : e.isLocal = true) (w : MuxTraffic)
    (up down : List TaggedCell) :
    (w.behind up down).step e = (w.step e).map (·.behind up down) := by
  cases e with
  | openCircuit =>
      rw [step, step, show (w.behind up down).addStream = w.addStream from rfl]
      cases w.addStream with
      | none => rfl
      | some id => rfl
  | readerSends circuit data =>
      rw [step, step]
      split
      · rw [← onReader_behind]
        simp only [behind, List.append_assoc]
      · rfl
  | readerEof circuit =>
      rw [step, step, ← onReader_behind]
      simp only [behind, List.append_assoc]
  | readerFails circuit =>
      rw [step, step, ← onReader_behind]
      rfl
  | writerPolls circuit => exact onWriter_behind w circuit _
  | writerFails circuit n => exact onWriter_behind w circuit _
  | server e =>
      rw [step, step]
      split
      · show (w.server.step e).map _ = _
        rw [Option.map_map]
        rfl
      · rfl
  | bridgeSends relay data =>
      rw [step, step]
      split
      · rw [← onBridge_behind]
        simp only [behind, List.append_assoc]
      · rfl
  | bridgeEof relay =>
      rw [step, step, ← onBridge_behind]
      simp only [behind, endReader, List.append_assoc]
  | bridgeFails relay =>
      rw [step, step, ← onBridge_behind]
      rfl
  | serverReads _ | clientReads | wireEnds => cases hlocal

theorem wireEnds_behind (w : MuxTraffic) (up down : List TaggedCell) :
    (w.behind up down).step .wireEnds = (w.step .wireEnds).map (·.behind up down) := by
  rw [step, step]
  show (if w.server.ended = true then none else _) = _
  split <;> rfl

theorem demux_behind (w : MuxTraffic) (cell : TaggedCell) (server : Demux) :
    (w.behind up down).demux cell server = (w.demux cell server).behind up down := by
  rw [demux, demux]
  by_cases hdata : cell.data = []
  · simp only [if_pos hdata, behind, List.append_assoc]
    rfl
  · simp only [if_neg hdata, behind]
    rfl

theorem receive_behind (w : MuxTraffic) (cell : TaggedCell) :
    (w.behind up down).receive cell = (w.receive cell).behind up down := by
  simp only [receive, show (w.behind up down).streamMap = w.streamMap from rfl,
    show (w.behind up down).circuits = w.circuits from rfl]
  cases w.streamMap.lookup cell.streamId with
  | none => rfl
  | some c =>
      dsimp only
      split
      · rfl
      · cases w.circuits[c]? with
        | none => rfl
        | some t =>
            dsimp only
            split <;> rfl

/-- The demux takes the first cell and leaves those behind it. -/
theorem serverReads_behind (cell : TaggedCell) (prev : Nat) (w : MuxTraffic)
    (hup : w.uplink = []) :
    (w.behind (cell :: up) down).step (.serverReads prev)
      = (step { w with uplink := [cell] } (.serverReads prev)).map (·.behind up down) := by
  have hrest : ({ w.behind (cell :: up) down with uplink := up ++ w.uplink } : MuxTraffic)
      = ({ w with uplink := [] } : MuxTraffic).behind up down := by
    rw [behind, behind, hup]
  show (w.server.readCell cell.streamId cell.data prev).map
      (demux { w.behind (cell :: up) down with uplink := up ++ w.uplink } cell) = _
  rw [hrest, step, Option.map_map]
  exact congrArg (Option.map · _) (funext fun server => demux_behind _ _ _)

/-- The inbound task takes the first cell and leaves those behind it. -/
theorem clientReads_behind (cell : TaggedCell) (w : MuxTraffic) (hdown : w.downlink = []) :
    (w.behind up (cell :: down)).step .clientReads
      = (step { w with downlink := [cell] } .clientReads).map (·.behind up down) := by
  have hrest : ({ w.behind up (cell :: down) with downlink := down ++ w.downlink } : MuxTraffic)
      = ({ w with downlink := [] } : MuxTraffic).behind up down := by
    rw [behind, behind, hdown]
  show some (receive { w.behind up (cell :: down) with downlink := down ++ w.downlink } cell) = _
  rw [hrest, receive_behind]
  rfl

end MuxTraffic

-- ============================================================================
-- What a link brings
-- ============================================================================

/-- The stream id and the payload that are encoded in the cell. -/
def TaggedCell.addressed (cell : TaggedCell) : UInt16 × Bytes := (cell.streamId, cell.data)

/-- What has arrived on the channel of the flow is the first part of what was handed to
    it. -/
def Carries {ρ : Type} (handed : List TaggedCell) (l : Link ρ) : Prop :=
  l.flow.cellRx.sent.map (fun c => decodeRealCell c.bytes) <+: handed.map TaggedCell.addressed

instance {ρ : Type} (handed : List TaggedCell) (l : Link ρ) : Decidable (Carries handed l) :=
  inferInstanceAs (Decidable (_ <+: _))

/-- The receiver moves. -/
def LinkEvent.atReceiver : LinkEvent → Bool
  | .service _ => false
  | .read _ | .eof => true

namespace Link

variable {ρ : Type}

/-- The cells handed over that are not decoded yet. -/
def undecoded (l : Link ρ) (handed : List TaggedCell) : List TaggedCell :=
  handed.drop l.receiver.decoded.length

/-- The real cell that a step from `l` to `l'` has decoded, marked as it was when it was
    handed over. -/
def arrived (l l' : Link ρ) (handed : List TaggedCell) : Option TaggedCell :=
  (l'.receiver.decoded[l.receiver.decoded.length]?).bind fun p =>
    (handed[l.receiver.decoded.length]?).map fun c => ⟨c.circuit, p.1, p.2⟩

variable {A : Aead} {cipher₀ : FrameCipher} {l l' : Link ρ} {handed : List TaggedCell}

/-- What has been decoded is the first part of what was handed over. -/
theorem decoded_prefix_handed (h : l.Inv A cipher₀) (hcarries : Carries handed l) :
    l.receiver.decoded <+: handed.map TaggedCell.addressed := by
  refine (decoded_prefix_received h).trans (List.IsPrefix.trans ?_ hcarries)
  rw [Channel.Chan.sent, List.map_append]
  exact List.prefix_append _ _

theorem decoded_length_le (h : l.Inv A cipher₀) (hcarries : Carries handed l) :
    l.receiver.decoded.length ≤ handed.length := by
  have hle := (decoded_prefix_handed h hcarries).length_le
  rwa [List.length_map] at hle

/-- A step of a link decodes one real cell at most. -/
theorem decoded_step [RngCore ρ] {F : F64} {e : LinkEvent} (hstep : step F A l e = some l') :
    l'.receiver.decoded = l.receiver.decoded ∨
      ∃ p, l'.receiver.decoded = l.receiver.decoded ++ [p] := by
  cases e with
  | service call =>
      rw [step] at hstep
      split at hstep
      · obtain rfl := Option.some.inj hstep
        exact .inl rfl
      · cases hstep
  | eof =>
      rw [step] at hstep
      split at hstep
      · obtain rfl := Option.some.inj hstep
        exact .inl rfl
      · cases hstep
  | read n =>
      simp only [step] at hstep
      split at hstep
      · obtain rfl := Option.some.inj hstep
        simp only [Receiver.read]
        split
        · exact .inl rfl
        · split
          · exact .inl rfl
          · next kind cell cipher hopen =>
            dsimp only
            split
            · exact .inr ⟨_, rfl⟩
            · exact .inl rfl
      · cases hstep

/-- A step of a link decodes nothing, or the first of the cells not decoded yet. -/
theorem arrived_cases [RngCore ρ] {F : F64} {e : LinkEvent} (hstep : step F A l e = some l')
    (h' : l'.Inv A cipher₀) (hcarries' : Carries handed l') :
    (l.arrived l' handed = none ∧ l'.undecoded handed = l.undecoded handed) ∨
      ∃ cell, l.arrived l' handed = some cell ∧
        l.undecoded handed = cell :: l'.undecoded handed := by
  rcases decoded_step hstep with hsame | ⟨p, hmore⟩
  · left
    rw [arrived, undecoded, undecoded, hsame, List.getElem?_eq_none le_rfl]
    exact ⟨rfl, rfl⟩
  · right
    have hpre := decoded_prefix_handed h' hcarries'
    rw [hmore] at hpre
    have hlt : l.receiver.decoded.length < handed.length := by
      have := decoded_length_le h' hcarries'
      rw [hmore, List.length_append, List.length_singleton] at this
      omega
    have hp : p = (handed[l.receiver.decoded.length]).addressed := by
      have hget := hpre.getElem (i := l.receiver.decoded.length) (by simp)
      rw [List.getElem_concat_length rfl, List.getElem_map] at hget
      exact hget
    refine ⟨handed[l.receiver.decoded.length], ?_, ?_⟩
    · rw [arrived, hmore, List.getElem?_concat_length, List.getElem?_eq_getElem hlt, hp]
      rfl
    · rw [undecoded, undecoded, hmore, List.length_append, List.length_singleton]
      exact List.drop_eq_getElem_cons hlt

end Link

-- ============================================================================
-- The sealed wire
-- ============================================================================

structure SealedMux (ρ : Type) where
  /-- The tasks of both ends.  No cell is on the way here. -/
  tasks : MuxTraffic
  up : Link ρ
  down : Link ρ
  /-- All cells that were handed to the flow of the uplink, and whom they are there for. -/
  handedUp : List TaggedCell
  handedDown : List TaggedCell
  uplink_nil : tasks.uplink = []
  downlink_nil : tasks.downlink = []

namespace SealedMux

variable {ρ : Type}

inductive Event where
  /-- A task that reads no wire moves. -/
  | task (e : MuxTraffic.Event)
  /-- The uplink moves, and the demux with it; `prev` is what the global counter holds. -/
  | up (e : LinkEvent) (prev : Nat)
  /-- The downlink moves, and `receive_mux_inbound` with it. -/
  | down (e : LinkEvent)

/-- The tasks have moved to `w`: what they have sent is handed to the flows. -/
def hand (s : SealedMux ρ) (w : MuxTraffic) : SealedMux ρ :=
  { s with
    tasks := { w with uplink := [], downlink := [] }
    handedUp := s.handedUp ++ w.uplink
    handedDown := s.handedDown ++ w.downlink
    uplink_nil := rfl
    downlink_nil := rfl }

/-- The demux takes the cell that was decoded, or returns with the end of the wire. -/
def demuxAfter (s : SealedMux ρ) (l : Link ρ) (prev : Nat) : Option MuxTraffic :=
  match s.up.arrived l s.handedUp with
  | some cell => { s.tasks with uplink := [cell] }.step (.serverReads prev)
  | none =>
      if l.receiver.ended && !s.up.receiver.ended then s.tasks.step .wireEnds else some s.tasks

/-- The inbound task takes the cell that was decoded. -/
def inboundAfter (s : SealedMux ρ) (l : Link ρ) : Option MuxTraffic :=
  match s.down.arrived l s.handedDown with
  | some cell => { s.tasks with downlink := [cell] }.step .clientReads
  | none => some s.tasks

variable [RngCore ρ]

/-- A wire after its handshake. -/
def start (tail : TailPolicy) (now : Instant) (upFlow downFlow : FlowSlot ρ)
    (serverRecv clientRecv : FrameCipher) : SealedMux ρ where
  tasks := .new tail now
  up := ⟨upFlow, true, .new serverRecv, []⟩
  down := ⟨downFlow, true, .new clientRecv, []⟩
  handedUp := []
  handedDown := []
  uplink_nil := rfl
  downlink_nil := rfl

def step (F : F64) (A : Aead) (s : SealedMux ρ) : Event → Option (SealedMux ρ)
  | .task e => if e.isLocal then (s.tasks.step e).map s.hand else none
  | .up e prev =>
      (s.up.step F A e).bind fun l =>
        -- a demux that has returned does not read
        if Carries s.handedUp l ∧ ¬ (e.atReceiver ∧ s.tasks.server.ended) then
          (s.demuxAfter l prev).map fun w => { s.hand w with up := l }
        else none
  | .down e =>
      (s.down.step F A e).bind fun l =>
        if Carries s.handedDown l then
          (s.inboundAfter l).map fun w => { s.hand w with down := l }
        else none

/-- The wire as its tasks see it. -/
def traffic (s : SealedMux ρ) : MuxTraffic :=
  s.tasks.behind (s.up.undecoded s.handedUp) (s.down.undecoded s.handedDown)

/-- Both links deliver in order what is handed to their flows. -/
structure Inv (A : Aead) (upCipher downCipher : FrameCipher) (s : SealedMux ρ) : Prop where
  up : s.up.Inv A upCipher
  down : s.down.Inv A downCipher
  carriesUp : Carries s.handedUp s.up
  carriesDown : Carries s.handedDown s.down

variable {F : F64} {A : Aead} {upCipher downCipher : FrameCipher} {s s' : SealedMux ρ}

/-- A step lets a task move, or one of the links and the task that reads it. -/
theorem step_cases {e : Event} (h : s.step F A e = some s') :
    ∃ w l l', s' = { s.hand w with up := l, down := l' } ∧
      ((∃ m, e = .task m ∧ m.isLocal = true ∧ s.tasks.step m = some w ∧ l = s.up ∧
          l' = s.down) ∨
        (∃ e' prev, e = .up e' prev ∧ s.up.step F A e' = some l ∧ Carries s.handedUp l ∧
          s.demuxAfter l prev = some w ∧ l' = s.down) ∨
        (∃ e', e = .down e' ∧ s.down.step F A e' = some l' ∧ Carries s.handedDown l' ∧
          s.inboundAfter l' = some w ∧ l = s.up)) := by
  cases e with
  | task m =>
      rw [step] at h
      split at h
      · next hlocal =>
        obtain ⟨w, hw, rfl⟩ := Option.map_eq_some_iff.mp h
        exact ⟨w, s.up, s.down, rfl, .inl ⟨m, rfl, hlocal, hw, rfl, rfl⟩⟩
      · cases h
  | up e' prev =>
      obtain ⟨l, hl, h⟩ := Option.bind_eq_some_iff.mp h
      split at h
      · next hcarries =>
        obtain ⟨w, hw, rfl⟩ := Option.map_eq_some_iff.mp h
        exact ⟨w, l, s.down, rfl, .inr (.inl ⟨e', prev, rfl, hl, hcarries.1, hw, rfl⟩)⟩
      · cases h
  | down e' =>
      obtain ⟨l, hl, h⟩ := Option.bind_eq_some_iff.mp h
      split at h
      · next hcarries =>
        obtain ⟨w, hw, rfl⟩ := Option.map_eq_some_iff.mp h
        exact ⟨w, s.up, l, rfl, .inr (.inr ⟨e', rfl, hl, hcarries, hw, rfl⟩)⟩
      · cases h

omit [RngCore ρ] in
theorem carries_append {handed : List TaggedCell} {l : Link ρ} (h : Carries handed l)
    (more : List TaggedCell) : Carries (handed ++ more) l := by
  rw [Carries, List.map_append]
  exact h.trans (List.prefix_append _ _)

/-- Every step keeps both links in order. -/
theorem step_inv (hA : A.Lawful) {e : Event} (h : s.Inv A upCipher downCipher)
    (hstep : s.step F A e = some s') : s'.Inv A upCipher downCipher := by
  obtain ⟨w, l, l', rfl, hmove⟩ := step_cases hstep
  rcases hmove with ⟨m, -, -, -, rfl, rfl⟩ | ⟨e', prev, -, hl, hcarries, -, rfl⟩ |
    ⟨e', -, hl, hcarries, -, rfl⟩
  · exact ⟨h.up, h.down, carries_append h.carriesUp _, carries_append h.carriesDown _⟩
  · exact ⟨Link.step_inv hA h.up hl, h.down, carries_append hcarries _,
      carries_append h.carriesDown _⟩
  · exact ⟨h.up, Link.step_inv hA h.down hl, carries_append h.carriesUp _,
      carries_append hcarries _⟩

omit [RngCore ρ] in
/-- What is handed over goes behind what is not decoded yet. -/
theorem traffic_hand (w : MuxTraffic) {l l' : Link ρ}
    (hup : l.receiver.decoded.length ≤ s.handedUp.length)
    (hdown : l'.receiver.decoded.length ≤ s.handedDown.length) :
    traffic { s.hand w with up := l, down := l' }
      = w.behind (l.undecoded s.handedUp) (l'.undecoded s.handedDown) := by
  simp only [traffic, hand, MuxTraffic.behind, Link.undecoded, List.append_nil,
    List.drop_append_of_le_length hup, List.drop_append_of_le_length hdown]

omit [RngCore ρ] in
theorem demuxAfter_of_some {l : Link ρ} {cell : TaggedCell}
    (h : s.up.arrived l s.handedUp = some cell) (prev : Nat) :
    s.demuxAfter l prev = MuxTraffic.step { s.tasks with uplink := [cell] } (.serverReads prev) := by
  rw [demuxAfter, h]

omit [RngCore ρ] in
theorem demuxAfter_of_none {l : Link ρ} (h : s.up.arrived l s.handedUp = none) (prev : Nat) :
    s.demuxAfter l prev = if l.receiver.ended && !s.up.receiver.ended then s.tasks.step .wireEnds
      else some s.tasks := by
  rw [demuxAfter, h]

omit [RngCore ρ] in
theorem inboundAfter_of_some {l : Link ρ} {cell : TaggedCell}
    (h : s.down.arrived l s.handedDown = some cell) :
    s.inboundAfter l = MuxTraffic.step { s.tasks with downlink := [cell] } .clientReads := by
  rw [inboundAfter, h]

omit [RngCore ρ] in
theorem inboundAfter_of_none {l : Link ρ} (h : s.down.arrived l s.handedDown = none) :
    s.inboundAfter l = some s.tasks := by
  rw [inboundAfter, h]

/-- The move of a task that reads no wire. -/
def Event.own : Event → Option MuxTraffic.Event
  | .task m => some m
  | .up _ _ | .down _ => none

/-- What an event may be to the tasks. -/
inductive Event.Does : Event → MuxTraffic.Event → Prop where
  | task {m : MuxTraffic.Event} (hlocal : m.isLocal = true) : Does (.task m) m
  | takes (e : LinkEvent) (prev : Nat) : Does (.up e prev) (.serverReads prev)
  | ends (e : LinkEvent) (prev : Nat) : Does (.up e prev) .wireEnds
  | receives (e : LinkEvent) : Does (.down e) .clientReads

/-- **Step lemma.**  The tasks see nothing of a step, or one step of their own. -/
theorem step_traffic (hA : A.Lawful) {e : Event} (h : s.Inv A upCipher downCipher)
    (hstep : s.step F A e = some s') :
    (e.own = none ∧ s'.traffic = s.traffic) ∨
      ∃ m, e.Does m ∧ s.traffic.step m = some s'.traffic := by
  have hupLen := Link.decoded_length_le h.up h.carriesUp
  have hdownLen := Link.decoded_length_le h.down h.carriesDown
  obtain ⟨w, l, l', rfl, hmove⟩ := step_cases hstep
  rcases hmove with ⟨m, rfl, hlocal, hw, rfl, rfl⟩ | ⟨e', prev, rfl, hl, hcarries, hw, rfl⟩ |
    ⟨e', rfl, hl, hcarries, hw, rfl⟩
  · -- a task that reads no wire
    refine .inr ⟨m, .task hlocal, ?_⟩
    rw [traffic, MuxTraffic.step_behind hlocal, hw, traffic_hand w hupLen hdownLen]
    rfl
  · -- the uplink
    have hlink := Link.step_inv hA h.up hl
    rw [traffic_hand w (Link.decoded_length_le hlink hcarries) hdownLen]
    rcases Link.arrived_cases hl hlink hcarries with ⟨hnone, hsame⟩ | ⟨cell, hcell, hnext⟩
    · rw [demuxAfter_of_none hnone] at hw
      rw [hsame]
      split at hw
      · refine .inr ⟨.wireEnds, .ends e' prev, ?_⟩
        rw [traffic, MuxTraffic.wireEnds_behind, hw]
        rfl
      · obtain rfl := Option.some.inj hw
        exact .inl ⟨rfl, rfl⟩
    · rw [demuxAfter_of_some hcell] at hw
      refine .inr ⟨.serverReads prev, .takes e' prev, ?_⟩
      rw [traffic, hnext, MuxTraffic.serverReads_behind _ _ _ s.uplink_nil, hw]
      rfl
  · -- the downlink
    have hlink := Link.step_inv hA h.down hl
    rw [traffic_hand w hupLen (Link.decoded_length_le hlink hcarries)]
    rcases Link.arrived_cases hl hlink hcarries with ⟨hnone, hsame⟩ | ⟨cell, hcell, hnext⟩
    · rw [inboundAfter_of_none hnone] at hw
      obtain rfl := Option.some.inj hw
      rw [hsame]
      exact .inl ⟨rfl, rfl⟩
    · rw [inboundAfter_of_some hcell] at hw
      refine .inr ⟨.clientReads, .receives e', ?_⟩
      rw [traffic, hnext, MuxTraffic.clientReads_behind _ _ s.downlink_nil, hw]
      rfl

omit [RngCore ρ] in
theorem Event.Does.filter_isLocal {e : Event} {m : MuxTraffic.Event} (h : e.Does m) :
    [m].filter (·.isLocal) = e.own.toList := by
  cases h with
  | task hlocal =>
      rw [List.filter_singleton, hlocal]
      rfl
  | takes | ends | receives => rfl

/-- Since `s` the tasks have made, in the order of `events`, the moves of those that read
    no wire, and some that do. -/
def Followed (s : SealedMux ρ) (events : List Event) (t : SealedMux ρ) : Prop :=
  ∃ moves, moves.filter (·.isLocal) = events.filterMap Event.own ∧
    Machine.run MuxTraffic.step s.traffic moves = some t.traffic

theorem Followed.step (hA : A.Lawful) {t t' : SealedMux ρ} {events : List Event} {e : Event}
    (h : s.Followed events t) (hinv : t.Inv A upCipher downCipher)
    (hstep : t.step F A e = some t') : s.Followed (events ++ [e]) t' := by
  obtain ⟨moves, hown, hmoves⟩ := h
  rcases step_traffic hA hinv hstep with ⟨hnone, hsame⟩ | ⟨m, hdoes, hm⟩
  · refine ⟨moves, ?_, by rw [hmoves, hsame]⟩
    rw [List.filterMap_append, List.filterMap_cons_none hnone, hown]
    exact (List.append_nil _).symm
  · refine ⟨moves ++ [m], ?_, ?_⟩
    · rw [List.filter_append, List.filterMap_append, hown, hdoes.filter_isLocal]
      rfl
    · rw [Machine.run_append, hmoves, Option.bind_some, Machine.run_cons, hm]
      rfl

/-- A run of the sealed wire is a run of the tasks, as they see it. -/
theorem run_followed (hA : A.Lawful) (h : s.Inv A upCipher downCipher) {events : List Event}
    (hrun : Machine.run (step F A) s events = some s') : s.Followed events s' := by
  have hstart : s.Inv A upCipher downCipher ∧ s.Followed [] s := ⟨h, [], rfl, rfl⟩
  refine (Machine.run_history (J := fun es t => t.Inv A upCipher downCipher ∧ s.Followed es t)
    ?_ hstart hrun).2
  rintro es t e t' ⟨hinv, hfollowed⟩ hstep
  exact ⟨step_inv hA hinv hstep, hfollowed.step hA hinv hstep⟩

-- ============================================================================
-- From the handshake on
-- ============================================================================

/-- The wire after a handshake (`MuxWire::connect` and the server's handler): each side's
    flow seals with its sending cipher, and its receive loop opens with the other. -/
def connect {C : Curve} {K : Blake3Kdf} (F : F64) (H : Blake3) (e : Exchange C K)
    (up down : NewFlow ρ) (now : Instant) : Option (SealedMux ρ) :=
  match e.client.result, e.server.result with
  | .ok (clientSend, clientRecv), .ok (serverSend, serverRecv) =>
      match registerShapedFlow F H { up with cipher := clientSend },
          registerShapedFlow F H { down with cipher := serverSend } with
      | some upFlow, some downFlow =>
          some (start down.tail now upFlow downFlow serverRecv clientRecv)
      | _, _ => none
  | _, _ => none

variable {C : Curve} {K : Blake3Kdf}

/-- After an undisturbed exchange both links are in order, and nothing has been sent. -/
theorem connect_eq_some (hC : C.Commutes) {H : Blake3} {e : Exchange C K} {up down : NewFlow ρ}
    {now : Instant} (h : connect F H e up down now = some s) :
    s.Inv A (.new (e.transcript.kC2s K)) (.new (e.transcript.kS2c K)) ∧
      s.traffic = .new down.tail now := by
  obtain ⟨hclient, hserver⟩ := e.ciphers_match hC
  simp only [connect, hclient, hserver] at h
  split at h
  · next upFlow downFlow hup hdown =>
    obtain rfl := Option.some.inj h
    have hlink : ∀ {new : NewFlow ρ} {flow : FlowSlot ρ},
        registerShapedFlow F H new = some flow →
          (⟨flow, true, .new new.cipher, []⟩ : Link ρ).Inv A new.cipher ∧
            Carries [] (⟨flow, true, .new new.cipher, []⟩ : Link ρ) := by
      intro new flow hflow
      obtain ⟨hacc, -, hcipher, hwire, hrx⟩ := Direction.Registered.spec (A := A) (.inr hflow)
      refine ⟨?_, ?_⟩
      · rw [← hcipher] at hacc ⊢
        exact Link.start_inv hacc hwire
      · rw [Carries, hrx]
        exact List.prefix_rfl
    exact ⟨⟨(hlink hup).1, (hlink hdown).1, (hlink hup).2, (hlink hdown).2⟩, rfl⟩
  · cases h

/-- The uplink and the downlink of the sample handshake. -/
def sampleStart : SealedMux FixedRng :=
  start .off 0
    (CircuitSession.sampleFlow (.new (CircuitSession.sampleExchange.transcript.kC2s .sumBytes)))
    (CircuitSession.sampleFlow (.new (CircuitSession.sampleExchange.transcript.kS2c .sumBytes)))
    (.new (CircuitSession.sampleExchange.transcript.kC2s .sumBytes))
    (.new (CircuitSession.sampleExchange.transcript.kS2c .sumBytes))

theorem connect_sampleExchange :
    connect .steep .sumBytes CircuitSession.sampleExchange Direction.steepOff Direction.steepOff 0
      = some sampleStart := by
  have hnew : ShapedSession.new .steep .sumBytes Direction.steepOff.clock Direction.steepOff.seed
      (shapedCompositionConfig .steep Direction.steepOff.initialIatMs)
      Direction.steepOff.composerRng = some (.ok (steepSession 157, .const 0)) :=
    new_steepSession 157
  obtain ⟨hclient, hserver⟩ := CircuitSession.sampleExchange.ciphers_match Curve.sum_commutes
  simp only [connect, hclient, hserver, registerShapedFlow, hnew]
  rfl

/-- A call at a fixed time, before which a cell arrives. -/
def sends (t : Instant) (streamId : UInt16) (data : Bytes) : LinkEvent :=
  .service ⟨.const t, fun i =>
    if i = 0 then ⟨[(CellSend.real streamId data (⟨0⟩ : FixedRng)).encode], false⟩ else .none, .ok⟩

def slotAt (t : Instant) : LinkEvent := .service ⟨.const t, fun _ => .none, .ok⟩

/-- A circuit sends a byte to its bridge, which answers with one. -/
def sampleRun : List Event :=
  [.task .openCircuit, .task (.readerSends 0 [7]), .up (sends 0 1 [7]) 0, .up (slotAt 60000000) 0,
    .up (.read 500) 0, .up (.read 31) 0] ++
  List.replicate 3 (.task (.server (.poll 0))) ++
  [.task (.bridgeSends 0 [8]), .down (sends 0 1 [8]), .down (slotAt 60000000),
    .down (.read 531), .task (.writerPolls 0)]

theorem run_sampleRun : ∃ t, Machine.run (step .steep .tagOnly) sampleStart sampleRun = some t ∧
    t.tasks.ids = [1] ∧ (t.tasks.server.bridges.map fun b => b.relay.written) = [[[7]]] ∧
    t.tasks.circuits.map MuxCircuit.written = [[[8]]] := by
  have hrun : (Machine.run (step .steep .tagOnly) sampleStart sampleRun).map
      (fun t => (t.tasks.ids, t.tasks.server.bridges.map fun b => b.relay.written,
        t.tasks.circuits.map MuxCircuit.written)) = some ([1], [[[7]]], [[[8]]]) := by
    decide +kernel
  obtain ⟨t, ht, hval⟩ := Option.map_eq_some_iff.mp hrun
  obtain ⟨hids, hwritten⟩ := Prod.mk.inj hval
  exact ⟨t, ht, hids, Prod.mk.inj hwritten⟩

-- ============================================================================
-- What holds over sealed wires
-- ============================================================================

/-- **A sealed wire is a wire of cells.**  After an undisturbed handshake, however the
    tasks, the emitter, the sockets and the receive loops of both ends interleave, and
    whatever the clock and the dummies do: some run of `MuxTraffic`, in which every task
    makes the moves it makes here, leads to what is here, with the cells that were handed
    to a flow and are not decoded yet for the cells on the way. -/
theorem refines_traffic (hA : A.Lawful) (hC : C.Commutes) (H : Blake3) (e : Exchange C K)
    (up down : NewFlow ρ) (now : Instant) (hstart : connect F H e up down now = some s)
    (events : List Event) (hrun : Machine.run (step F A) s events = some s') :
    ∃ moves, moves.filter (·.isLocal) = events.filterMap Event.own ∧
      Machine.run MuxTraffic.step (.new down.tail now) moves = some s'.traffic := by
  obtain ⟨hinv, hnew⟩ := connect_eq_some (A := A) hC hstart
  obtain ⟨moves, hown, hmoves⟩ := run_followed hA hinv hrun
  rw [hnew] at hmoves
  exact ⟨moves, hown, hmoves⟩

theorem refines_traffic_one_byte : ∃ (t : SealedMux FixedRng) (moves : List MuxTraffic.Event),
    t.tasks.circuits.map MuxCircuit.written = [[[8]]] ∧
      moves.filter (·.isLocal) = sampleRun.filterMap Event.own ∧
      Machine.run MuxTraffic.step (.new .off 0) moves = some t.traffic := by
  obtain ⟨t, hrun, -, -, hwritten⟩ := run_sampleRun
  obtain ⟨moves, hown, hmoves⟩ := refines_traffic Aead.tagOnly_lawful Curve.sum_commutes .sumBytes
    CircuitSession.sampleExchange Direction.steepOff Direction.steepOff 0 connect_sampleExchange
    sampleRun hrun
  exact ⟨t, moves, hwritten, hown, hmoves⟩

/-- **Circuits are isolated end to end**, from the local connections to the upstream
    connections and back, with the links between them: as long as no stream id was used
    twice, what comes out of a circuit or a relay is what went in at the other end of its
    own stream, in order and nothing twice. -/
theorem circuits_isolated (hA : A.Lawful) (hC : C.Commutes) (H : Blake3) (e : Exchange C K)
    (up down : NewFlow ρ) (now : Instant) (hstart : connect F H e up down now = some s)
    (events : List Event) (hrun : Machine.run (step F A) s events = some s')
    (hnodup : s'.tasks.ids.Nodup) : s'.tasks.Isolated := by
  obtain ⟨hinv, hnew⟩ := connect_eq_some (A := A) hC hstart
  obtain ⟨moves, -, hmoves⟩ := run_followed hA hinv hrun
  rw [hnew] at hmoves
  obtain ⟨hknown, hcarried⟩ := (MuxTraffic.always_carried down.tail now moves).last hmoves
  obtain ⟨hup, hdown⟩ := hcarried hnodup
  have hisolated := MuxTraffic.isolated_of_carried hknown hnodup hup hdown
  exact ⟨hisolated.down, hisolated.replies, hisolated.up⟩

theorem circuits_isolated_one_byte : ∃ t : SealedMux FixedRng,
    (t.tasks.server.bridges.map fun b => b.relay.written) = [[[7]]] ∧
      t.tasks.circuits.map MuxCircuit.written = [[[8]]] ∧ t.tasks.Isolated := by
  obtain ⟨t, hrun, hids, hup, hdown⟩ := run_sampleRun
  refine ⟨t, hup, hdown, circuits_isolated Aead.tagOnly_lawful Curve.sum_commutes .sumBytes
    CircuitSession.sampleExchange Direction.steepOff Direction.steepOff 0 connect_sampleExchange
    sampleRun hrun ?_⟩
  rw [hids]
  exact List.nodup_singleton 1

/-- No I/O of a task fails, no bridge sends when a close of its stream has been read, and
    the next cell of the downlink finds room. -/
def Undisturbed (s : SealedMux ρ) : Event → Prop
  | .task m => MuxTraffic.NoIoError m ∧ s.tasks.RepliesBeforeClose m
  | .up _ _ => True
  | .down _ => s.traffic.HasRoom .clientReads

instance (s : SealedMux ρ) : DecidablePred s.Undisturbed
  | .task m => inferInstanceAs (Decidable (MuxTraffic.NoIoError m ∧ s.tasks.RepliesBeforeClose m))
  | .up _ _ => isTrue trivial
  | .down _ => inferInstanceAs (Decidable (s.traffic.HasRoom .clientReads))

omit [RngCore ρ] in
/-- What is undisturbed here is to the tasks. -/
theorem Undisturbed.traffic {e : Event} {m : MuxTraffic.Event} (h : s.Undisturbed e)
    (hdoes : e.Does m) :
    s.traffic.Undisturbed m ∧ s.traffic.RepliesBeforeClose m := by
  cases hdoes with
  | task hlocal =>
      obtain ⟨hio, hreplies⟩ := h
      cases m with
      | clientReads => cases hlocal
      | openCircuit | readerSends | readerEof | readerFails | writerPolls | writerFails
        | serverReads | server | wireEnds | bridgeSends | bridgeEof | bridgeFails =>
          exact ⟨⟨hio, trivial⟩, hreplies⟩
  | takes | ends => exact ⟨⟨trivial, trivial⟩, trivial⟩
  | receives => exact ⟨⟨trivial, h⟩, trivial⟩

end SealedMux

end MixTor
