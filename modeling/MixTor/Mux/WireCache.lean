/-
  MixTor.Mux.WireCache

  `MuxClientHandle` (transport.rs): one long-lived wire per server address,
  reused across circuits for as long as it stays alive.

  Every circuit brings the identity key of the bridge it wants; the cache is
  keyed by the address alone.  A circuit that finds a live wire is put on it
  whatever key that wire was opened with.

  `get_or_connect_wire` holds the lock of the map from the lookup to the insert,
  so the calls of a handle follow one another; wires live and die in between.
-/

import MixTor.Mux.MuxWire
import Mathlib.Logic.Function.Basic

namespace MixTor

open Crypto (Key)

/-- `IpAddr`. -/
inductive IpAddr where
  | v4 (octets : Vector UInt8 4)
  | v6 (octets : Vector UInt8 16)
  deriving DecidableEq

/-- `SocketAddr`. -/
structure SocketAddr where
  ip : IpAddr
  port : UInt16
  deriving DecidableEq

/-- A circuit that was given a stream: the identity it asked for, the wire it
    was put on and its stream id. -/
structure Circuit where
  serverPub : Key
  wire : Nat
  streamId : UInt16
  deriving DecidableEq

/-- The handle, with every wire it ever connected.  A wire is its index in
    `opened`. -/
structure MuxClientHandle where
  opened : List MuxWire
  /-- `server addr → persistent shaped wire`. -/
  wires : SocketAddr → Option Nat
  circuits : List Circuit

namespace MuxClientHandle

def new : MuxClientHandle := ⟨[], fun _ => none, []⟩

/-- The live wire cached for an address. -/
def liveWire (h : MuxClientHandle) (server : SocketAddr) : Option (Nat × MuxWire) :=
  (h.wires server).bind fun i => (h.opened[i]?).bind fun w =>
    if w.isAlive then some (i, w) else none

/-- The wire a circuit to `server` goes on.  `connects` says whether
    `MuxWire::connect`, and in it the handshake with `serverPub`, succeeds. -/
def getOrConnectWire (h : MuxClientHandle) (server : SocketAddr) (serverPub : Key)
    (connects : Bool) : Option Nat × MuxClientHandle :=
  match h.liveWire server with
  | some (i, _) => (some i, h)
  | none =>
      if connects then
        (some h.opened.length, { h with
          opened := h.opened ++ [.connect serverPub]
          wires := Function.update h.wires server (some h.opened.length) })
      else (none, h)

/-- Put a circuit on wire `i`, unless the wire is saturated. -/
def openStream (h : MuxClientHandle) (i : Nat) (serverPub : Key) : MuxClientHandle :=
  match (h.opened[i]?).bind MuxWire.addStream with
  | none => h
  | some (streamId, w) => { h with
      opened := h.opened.set i w
      circuits := h.circuits ++ [⟨serverPub, i, streamId⟩] }

inductive Event where
  | prewarm (server : SocketAddr) (serverPub : Key) (connects : Bool)
  | connectCircuit (server : SocketAddr) (serverPub : Key) (connects : Bool)
  /-- Something happens on wire `i`; circuits only enter through this handle. -/
  | wire (i : Nat) (e : MuxWire.Event) (notAdd : e ≠ .addStream)

def step (h : MuxClientHandle) : Event → Option MuxClientHandle
  | .prewarm server serverPub connects => some (h.getOrConnectWire server serverPub connects).2
  | .connectCircuit server serverPub connects =>
      match h.getOrConnectWire server serverPub connects with
      | (some i, h) => some (h.openStream i serverPub)
      | (none, h) => some h
  | .wire i e _ => (h.opened[i]?).bind fun w => (w.step e).map fun w => { h with
      opened := h.opened.set i w }

/-- The key a wire's handshake succeeded with. -/
def keyOf (h : MuxClientHandle) (i : Nat) : Option Key := (h.opened[i]?).map MuxWire.serverPub

/-- Every circuit is on a wire that was opened with the key it asked for. -/
def Authentic (h : MuxClientHandle) : Prop :=
  ∀ c ∈ h.circuits, h.keyOf c.wire = some c.serverPub

/-- A circuit that would be put on a cached wire asks for the key of that wire. -/
def KeyMatches (h : MuxClientHandle) : Event → Prop
  | .connectCircuit server serverPub _ => ∀ i w, h.liveWire server = some (i, w) →
      w.addStream.isSome → w.serverPub = serverPub
  | _ => True

-- ============================================================================
-- Keys never change
-- ============================================================================

variable {h h' : MuxClientHandle}

theorem liveWire_eq_some {server : SocketAddr} {i : Nat} {w : MuxWire}
    (hl : h.liveWire server = some (i, w)) : h.opened[i]? = some w := by
  obtain ⟨j, -, hj⟩ := Option.bind_eq_some_iff.mp hl
  obtain ⟨w', hw', hlive⟩ := Option.bind_eq_some_iff.mp hj
  split at hlive
  · obtain ⟨rfl, rfl⟩ := Prod.mk.inj (Option.some.inj hlive)
    exact hw'
  · cases hlive

theorem addStream_serverPub {w w' : MuxWire} {id : UInt16} (h : w.addStream = some (id, w')) :
    w'.serverPub = w.serverPub := by
  rw [MuxWire.addStream] at h
  split at h
  · cases h
  · obtain ⟨r, -, hr⟩ := Option.map_eq_some_iff.mp h
    obtain ⟨-, rfl⟩ := Prod.mk.inj hr
    rfl

theorem wire_step_serverPub {w w' : MuxWire} {e : MuxWire.Event} (h : w.step e = some w') :
    w'.serverPub = w.serverPub := by
  cases e with
  | addStream =>
      obtain rfl := Option.some.inj h
      cases hadd : w.addStream with
      | none => rfl
      | some r => exact addStream_serverPub hadd
  | receive streamId data =>
      rw [MuxWire.step] at h
      split at h
      · cases h
      · obtain rfl := Option.some.inj h
        rw [MuxWire.receive]
        split
        · rfl
        · split
          · rfl
          · split <;> rfl
  | inboundEnds =>
      rw [MuxWire.step] at h
      split at h
      · cases h
      · obtain rfl := Option.some.inj h
        rfl
  | uplinkDrops =>
      obtain rfl := Option.some.inj h
      rfl
  | takeDown streamId | dropDown streamId =>
      obtain rfl := Option.some.inj h
      rw [MuxWire.updateStream]
      split <;> rfl

/-- Replacing a wire by one with the same key changes no key. -/
theorem keyOf_set {i : Nat} {w w' : MuxWire} (hw : h.opened[i]? = some w)
    (hkey : w'.serverPub = w.serverPub) (circuits : List Circuit) (j : Nat) :
    keyOf { h with opened := h.opened.set i w', circuits } j = h.keyOf j := by
  show ((h.opened.set i w')[j]?).map MuxWire.serverPub = (h.opened[j]?).map MuxWire.serverPub
  obtain ⟨hlt, -⟩ := List.getElem?_eq_some_iff.mp hw
  rcases eq_or_ne i j with rfl | hne
  · rw [List.getElem?_set_self hlt, hw, Option.map_some, Option.map_some, hkey]
  · rw [List.getElem?_set_ne hne]

/-- A key once fixed stays fixed when further wires are opened. -/
theorem keyOf_append {i : Nat} {key : Key} (hk : h.keyOf i = some key) (w : MuxWire)
    (wires : SocketAddr → Option Nat) :
    keyOf { h with opened := h.opened ++ [w], wires } i = some key := by
  obtain ⟨w', hw', hkey⟩ := Option.map_eq_some_iff.mp hk
  show ((h.opened ++ [w])[i]?).map MuxWire.serverPub = some key
  obtain ⟨hlt, -⟩ := List.getElem?_eq_some_iff.mp hw'
  rw [List.getElem?_append_left hlt, hw', Option.map_some, hkey]

/-- Getting or connecting a wire adds no circuit and changes no key; the wire it
    returns is the cached live one, or a new one with the requested key. -/
theorem getOrConnectWire_spec (h : MuxClientHandle) (server : SocketAddr) (serverPub : Key)
    (connects : Bool) :
    (h.getOrConnectWire server serverPub connects).2.circuits = h.circuits ∧
      (∀ i key, h.keyOf i = some key →
        (h.getOrConnectWire server serverPub connects).2.keyOf i = some key) ∧
      (∀ i, (h.getOrConnectWire server serverPub connects).1 = some i →
        (∃ w, h.liveWire server = some (i, w) ∧
          (h.getOrConnectWire server serverPub connects).2 = h) ∨
        (h.getOrConnectWire server serverPub connects).2.keyOf i = some serverPub) := by
  rw [getOrConnectWire]
  split
  · next i w hl =>
    exact ⟨rfl, fun _ _ hk => hk, fun j hj => .inl ⟨w, Option.some.inj hj ▸ hl, rfl⟩⟩
  · split
    · refine ⟨rfl, fun i key hk => keyOf_append hk _ _, fun i hi => .inr ?_⟩
      obtain rfl := Option.some.inj hi
      show ((h.opened ++ [MuxWire.connect serverPub])[h.opened.length]?).map MuxWire.serverPub
        = some serverPub
      rw [List.getElem?_concat_length]
      rfl
    · exact ⟨rfl, fun _ _ hk => hk, nofun⟩

/-- Opening a stream changes no key and adds a circuit on that wire, or nothing
    when the wire is saturated. -/
theorem openStream_spec (h : MuxClientHandle) (i : Nat) (serverPub : Key) :
    (∀ j, (h.openStream i serverPub).keyOf j = h.keyOf j) ∧
      ((h.openStream i serverPub).circuits = h.circuits ∨
        ∃ streamId, (h.openStream i serverPub).circuits
          = h.circuits ++ [⟨serverPub, i, streamId⟩]) := by
  rw [openStream]
  split
  · exact ⟨fun _ => rfl, .inl rfl⟩
  · next streamId w hadd =>
    obtain ⟨w₀, hw₀, hadd⟩ := Option.bind_eq_some_iff.mp hadd
    exact ⟨keyOf_set hw₀ (addStream_serverPub hadd) _, .inr ⟨streamId, rfl⟩⟩

-- ============================================================================
-- One call after another
-- ============================================================================

/-- Circuits keep their key when no key changes and none is added. -/
theorem Authentic.of_keys (ha : h.Authentic) (hcirc : h'.circuits = h.circuits)
    (hkeys : ∀ i key, h.keyOf i = some key → h'.keyOf i = some key) : h'.Authentic := by
  intro c hc
  rw [hcirc] at hc
  exact hkeys c.wire c.serverPub (ha c hc)

/-- A stream opened on a wire of the right key is authentic. -/
theorem Authentic.openStream (ha : h.Authentic) {i : Nat} {serverPub : Key}
    (hkey : ((h.opened[i]?).bind MuxWire.addStream).isSome → h.keyOf i = some serverPub) :
    (h.openStream i serverPub).Authentic := by
  obtain ⟨hkeys, hcirc⟩ := openStream_spec h i serverPub
  cases hadd : (h.opened[i]?).bind MuxWire.addStream with
  | none =>
      have hsame : h.openStream i serverPub = h := by
        rw [MuxClientHandle.openStream, hadd]
      rw [hsame]
      exact ha
  | some r =>
      have hi : h.keyOf i = some serverPub := hkey (by rw [hadd]; rfl)
      rcases hcirc with hcirc | ⟨streamId, hcirc⟩
      · exact ha.of_keys hcirc fun j key hk => (hkeys j).trans hk
      · intro c hc
        rw [hcirc, List.mem_append, List.mem_singleton] at hc
        rw [hkeys]
        rcases hc with hc | rfl
        · exact ha c hc
        · exact hi

/-- A call that meets the condition keeps every circuit authentic. -/
theorem step_authentic {e : Event} (ha : h.Authentic) (hc : h.KeyMatches e)
    (hstep : h.step e = some h') : h'.Authentic := by
  cases e with
  | prewarm server serverPub connects =>
      obtain rfl := Option.some.inj hstep
      obtain ⟨hcirc, hkeys, -⟩ := getOrConnectWire_spec h server serverPub connects
      exact ha.of_keys hcirc hkeys
  | connectCircuit server serverPub connects =>
      obtain ⟨hcirc, hkeys, hwire⟩ := getOrConnectWire_spec h server serverPub connects
      have ha' := ha.of_keys hcirc hkeys
      rw [step] at hstep
      split at hstep
      · next i h₁ hget =>
        obtain rfl := Option.some.inj hstep
        rw [hget] at hwire ha'
        apply ha'.openStream
        intro hadd
        rcases hwire i rfl with ⟨w, hl, hsame⟩ | hnew
        · have hw : h.opened[i]? = some w := liveWire_eq_some hl
          have h₁h : h₁ = h := hsame
          rw [h₁h, hw] at hadd
          rw [h₁h, keyOf, hw, Option.map_some, hc i w hl hadd]
        · exact hnew
      · next h₁ hget =>
        obtain rfl := Option.some.inj hstep
        rw [hget] at ha'
        exact ha'
  | wire i e notAdd =>
      obtain ⟨w, hw, hstep⟩ := Option.bind_eq_some_iff.mp hstep
      obtain ⟨w', hw', rfl⟩ := Option.map_eq_some_iff.mp hstep
      exact ha.of_keys rfl fun j key hk =>
        (keyOf_set hw (wire_step_serverPub hw') h.circuits j).trans hk

/-- A call that breaks the condition puts a circuit on a wire of another key. -/
theorem step_not_authentic {e : Event} (hc : ¬ h.KeyMatches e)
    (hstep : h.step e = some h') : ¬ h'.Authentic := by
  cases e with
  | connectCircuit server serverPub connects =>
      have hbad : ∃ i w, h.liveWire server = some (i, w) ∧ w.addStream.isSome ∧
          w.serverPub ≠ serverPub := by
        simpa only [KeyMatches, not_forall, exists_prop] using hc
      obtain ⟨i, w, hl, hadd, hne⟩ := hbad
      have hw : h.opened[i]? = some w := liveWire_eq_some hl
      have hget : h.getOrConnectWire server serverPub connects = (some i, h) := by
        rw [getOrConnectWire, hl]
      rw [step, hget] at hstep
      obtain rfl := Option.some.inj hstep
      obtain ⟨hkeys, -⟩ := openStream_spec h i serverPub
      obtain ⟨⟨streamId, w'⟩, hadd⟩ := Option.isSome_iff_exists.mp hadd
      intro ha
      have hnew : (⟨serverPub, i, streamId⟩ : Circuit) ∈ (h.openStream i serverPub).circuits := by
        rw [openStream, hw, Option.bind_some, hadd]
        exact List.mem_append_right _ List.mem_cons_self
      have hkey : (h.openStream i serverPub).keyOf i = some serverPub := ha _ hnew
      rw [hkeys, keyOf, hw, Option.map_some] at hkey
      exact hne (Option.some.inj hkey)
  | prewarm | wire => exact absurd trivial hc

/-- **Which circuits are authenticated.** Along every sequence of calls, with
    wires living and dying in between, each circuit is on a wire whose handshake
    succeeded with the key the circuit asked for if and only if no call finds a
    live wire cached for its address, with a stream id to give, that was opened
    with another key. -/
theorem authentic_iff (events : List Event) :
    Machine.Always step Authentic new events ↔ Machine.Meets step KeyMatches new events :=
  Machine.always_iff_meets (fun _ h => h) (fun _ _ _ => step_authentic)
    (fun _ _ _ _ => step_not_authentic) nofun

/-- Two bridge lines for one address with two keys: the second circuit, which
    asks for the second key, is put on the wire of the first. -/
theorem second_key_on_first_wire :
    ((Machine.run step new
        [.connectCircuit ⟨.v4 #v[127, 0, 0, 1], 9001⟩ (Vector.replicate 32 1) true,
          .connectCircuit ⟨.v4 #v[127, 0, 0, 1], 9001⟩ (Vector.replicate 32 2) true]).map
      fun h => (h.circuits, h.opened.map MuxWire.serverPub))
        = some ([⟨Vector.replicate 32 1, 0, 1⟩, ⟨Vector.replicate 32 2, 0, 2⟩],
          [Vector.replicate 32 1]) ∧
      ¬ Machine.Always step Authentic new
        [.connectCircuit ⟨.v4 #v[127, 0, 0, 1], 9001⟩ (Vector.replicate 32 1) true,
          .connectCircuit ⟨.v4 #v[127, 0, 0, 1], 9001⟩ (Vector.replicate 32 2) true] := by
  have hrun : ((Machine.run step new
      [.connectCircuit ⟨.v4 #v[127, 0, 0, 1], 9001⟩ (Vector.replicate 32 1) true,
        .connectCircuit ⟨.v4 #v[127, 0, 0, 1], 9001⟩ (Vector.replicate 32 2) true]).map
      fun h => (h.circuits, h.opened.map MuxWire.serverPub))
        = some ([⟨Vector.replicate 32 1, 0, 1⟩, ⟨Vector.replicate 32 2, 0, 2⟩],
          [Vector.replicate 32 1]) := by
    decide +kernel
  refine ⟨hrun, fun h => ?_⟩
  obtain ⟨m, hm, hstate⟩ := Option.map_eq_some_iff.mp hrun
  obtain ⟨hcirc, hopened⟩ := Prod.mk.inj hstate
  have hkey := (h.last hm) ⟨Vector.replicate 32 2, 0, 2⟩ (by rw [hcirc]; decide)
  have hkeyOf : m.keyOf 0 = (m.opened.map MuxWire.serverPub)[0]? := by
    rw [keyOf, List.getElem?_map]
  rw [hkeyOf, hopened] at hkey
  exact absurd hkey (by decide)

end MuxClientHandle

end MixTor
