/-
  MixTor.Transport.InOrderDelivery

  One flow, its wire and the loop that reads it.

  The receiver fills a frame buffer by reads of any size, opens each full frame
  with its own counter and keeps the payloads of the real cells
  (`read_sealed_frame`, and the decoding common to the loops built on it).  The
  invariant of the joint machine splits the emissions in two: those the receiver
  has opened, whose sealed frames are what it has read except for its partial
  buffer, and those still on their way.
-/

import MixTor.Lib.Machine
import MixTor.Transport.FlowAccounting

namespace MixTor

open Channel
open Crypto (Bytes Key Aead FrameCipher Blake3 HandshakeError kindReal encFrameLen)

/-- On-wire length of one sealed cell. -/
def frameLen : Nat := encFrameLen cellBytes

/-- A loop built on `read_sealed_frame`. -/
structure Receiver where
  cipher : FrameCipher
  /-- The part of the frame buffer that `read_exact` has filled. -/
  buf : Bytes
  /-- The stream id and payload of every real cell decoded. -/
  decoded : List (UInt16 × Bytes)
  ended : Bool

namespace Receiver

def new (cipher : FrameCipher) : Receiver := ⟨cipher, [], [], false⟩

/-- One read of `read_exact` brings `chunk`; a full buffer is opened. -/
def read (A : Aead) (r : Receiver) (chunk : Bytes) : Receiver :=
  if (r.buf ++ chunk).length < frameLen then { r with buf := r.buf ++ chunk }
  else match r.cipher.openFrame A (r.buf ++ chunk) with
    | (.error _, cipher) => { r with buf := [], cipher, ended := true }
    | (.ok (kind, cell), cipher) =>
        { r with
          buf := []
          cipher
          decoded := if kind = kindReal then r.decoded ++ [decodeRealCell cell] else r.decoded }

end Receiver

/-- A flow and the receiver at the other end of its wire. -/
structure Link (ρ : Type) where
  flow : FlowSlot ρ
  /-- The emitter still services the flow. -/
  kept : Bool
  receiver : Receiver
  /-- The bytes the receiver has read from the wire. -/
  got : Bytes

inductive LinkEvent where
  | service (call : ServiceCall)
  /-- A read returns the next `n` bytes of the wire. -/
  | read (n : Nat)
  /-- The end of the wire, between frames or inside one. -/
  | eof

namespace Link

variable {ρ : Type} [RngCore ρ]

def start (flow : FlowSlot ρ) : Link ρ := ⟨flow, true, .new flow.cipher, []⟩

def step (F : F64) (A : Aead) (l : Link ρ) : LinkEvent → Option (Link ρ)
  | .service call =>
      if l.kept then
        let r := l.flow.serviceFlow F A call
        some { l with flow := r.2, kept := r.1 }
      else none
  | .read n =>
      let chunk := (l.flow.wire.drop l.got.length).take n
      if !l.receiver.ended ∧ 0 < n ∧ chunk.length = n ∧ l.receiver.buf.length + n ≤ frameLen then
        some { l with receiver := l.receiver.read A chunk, got := l.got ++ chunk }
      else none
  | .eof =>
      if !l.receiver.ended then some { l with receiver := { l.receiver with ended := true } }
      else none

end Link

-- ============================================================================
-- Histories only grow
-- ============================================================================

namespace FlowSlot

variable {ρ : Type}

/-- `flow'` has written and emitted everything `flow` has. -/
structure Grows (flow flow' : FlowSlot ρ) : Prop where
  wire : flow.wire <+: flow'.wire
  emitted : flow.emitted <+: flow'.emitted

theorem Grows.refl (flow : FlowSlot ρ) : flow.Grows flow := ⟨List.prefix_rfl, List.prefix_rfl⟩

theorem Grows.trans {f g h : FlowSlot ρ} (hfg : f.Grows g) (hgh : g.Grows h) : f.Grows h :=
  ⟨hfg.wire.trans hgh.wire, hfg.emitted.trans hgh.emitted⟩

theorem flush_grows (w : Nat → TryWrite) (flow : FlowSlot ρ) : flow.Grows (flow.flush w).2 := by
  unfold flush
  split
  · exact .refl _
  · split
    · exact .refl _
    · exact ⟨List.prefix_append _ _, List.prefix_rfl⟩
    · exact .refl _
    · exact .refl _

theorem serviceFlow_grows [RngCore ρ] {F : F64} {A : Aead} {cipher₀ : FrameCipher}
    {flow : FlowSlot ρ} (call : ServiceCall) (h : flow.Accounted A cipher₀) :
    flow.Grows (flow.serviceFlow F A call).2 := by
  refine (serviceFlow_invariant (P := fun f => f.Accounted A cipher₀ ∧ flow.Grows f) call
    (fun _ h => h.1.steady) ?_ ?_ ?_ ?_ ?_ ⟨h, .refl _⟩).2
  · intro f i ⟨hf, hg⟩
    refine ⟨arrive_accounted _ hf, hg.trans ?_⟩
    rw [arrive]
    split <;> exact ⟨List.prefix_rfl, List.prefix_rfl⟩
  · intro f ⟨hf, hg⟩
    refine ⟨startClock_accounted _ hf, hg.trans ?_⟩
    rw [startClock]
    split <;> exact ⟨List.prefix_rfl, List.prefix_rfl⟩
  · intro f n f' clk' ⟨hf, hg⟩ hp
    refine ⟨pulled_accounted hf hp, hg.trans ?_⟩
    cases hp <;> exact ⟨List.prefix_rfl, List.prefix_rfl⟩
  · intro f n f' clk' ⟨hf, hg⟩ hfire
    refine ⟨fired_accounted hf hfire, hg.trans ?_⟩
    cases hfire with
    | waits _ => exact .refl _
    | emits => exact ⟨List.prefix_rfl, List.prefix_append _ _⟩
  · intro f ⟨hf, hg⟩
    exact ⟨flush_accounted _ hf, hg.trans (flush_grows _ f)⟩

end FlowSlot

-- ============================================================================
-- The joint invariant
-- ============================================================================

namespace Link

variable {ρ : Type} {A : Aead} {cipher₀ : FrameCipher} {l : Link ρ}

/-- What the receiver has read is the sealed frames of the emissions it has
    opened, followed by a partial frame. -/
structure Inv (A : Aead) (cipher₀ : FrameCipher) (l : Link ρ) : Prop where
  accounted : l.flow.Accounted A cipher₀
  got_prefix : l.got <+: l.flow.wire
  opened : ∃ done rest, l.flow.emitted = done ++ rest ∧
    l.receiver.cipher = (FrameCipher.sealAll A cipher₀ (sealedCells done)).2 ∧
    l.got = (FrameCipher.sealAll A cipher₀ (sealedCells done)).1.flatten ++ l.receiver.buf ∧
    l.receiver.decoded = (realCells done).map decodeRealCell

theorem start_inv {flow : FlowSlot ρ} (h : flow.Accounted A flow.cipher) (hw : flow.wire = []) :
    (start flow).Inv A flow.cipher := by
  refine ⟨h, ?_, [], flow.emitted, rfl, rfl, rfl, rfl⟩
  rw [show (start flow).flow.wire = [] from hw]
  exact List.prefix_rfl

/-- The next frame of a stream of sealed cells is what its first `frameLen`
    bytes are, and opening it gives the first cell back. -/
theorem open_next (hA : A.Lawful) {cipher : FrameCipher} {rest : List Emission} {buf : Bytes}
    (hsize : ∀ e ∈ rest, (frameCell e.frame).2.length = cellBytes)
    (hpre : buf <+: (FrameCipher.sealAll A cipher (sealedCells rest)).1.flatten)
    (hlen : buf.length = frameLen) :
    ∃ e rest', rest = e :: rest' ∧
      buf = (FrameCipher.sealAll A cipher (sealedCells [e])).1.flatten ∧
      cipher.openFrame A buf = (.ok (frameCell e.frame), cipher.nextNonce.2) := by
  cases rest with
  | nil =>
      have := hpre.length_le
      rw [hlen] at this
      simp [sealedCells, frameLen, encFrameLen, cellBytes] at this
  | cons e rest =>
      have hfirst : (cipher.sealFrame A (frameCell e.frame).1 (frameCell e.frame).2).1.length
          = frameLen := by
        rw [FrameCipher.sealFrame_length hA, hsize e List.mem_cons_self, frameLen]
      have hbuf : buf = (cipher.sealFrame A (frameCell e.frame).1 (frameCell e.frame).2).1 := by
        refine List.IsPrefix.eq_of_length (List.prefix_of_prefix_length_le hpre ?_ ?_) ?_
        · exact List.prefix_append _ _
        · rw [hlen, hfirst]
        · rw [hlen, hfirst]
      refine ⟨e, rest, rfl, ?_, ?_⟩
      · simp [sealedCells, FrameCipher.sealAll_singleton, hbuf]
      · rw [hbuf, FrameCipher.openFrame_sealFrame hA]

/-- What has been decoded is a prefix of what the channel has carried. -/
theorem decoded_prefix_received (h : l.Inv A cipher₀) :
    l.receiver.decoded <+: l.flow.cellRx.received.map fun c => decodeRealCell c.bytes := by
  obtain ⟨hacc, -, done, rest, hem, -, -, hdec⟩ := h
  have hcells := congrArg (List.map decodeRealCell) hacc.cells
  rw [hem, realCells_append, List.map_append, List.map_append, List.append_assoc, ← hdec] at hcells
  exact ⟨_, hcells.trans (List.map_map ..)⟩

/-- The partial buffer with the bytes read now begins the frames still to come. -/
theorem buf_prefix {done rest : List Emission} {chunk : Bytes} (hacc : l.flow.Accounted A cipher₀)
    (hem : l.flow.emitted = done ++ rest)
    (hcipher : l.receiver.cipher = (FrameCipher.sealAll A cipher₀ (sealedCells done)).2)
    (hread : l.got
      = (FrameCipher.sealAll A cipher₀ (sealedCells done)).1.flatten ++ l.receiver.buf)
    (hgot : l.got ++ chunk <+: l.flow.wire) :
    l.receiver.buf ++ chunk
      <+: (FrameCipher.sealAll A l.receiver.cipher (sealedCells rest)).1.flatten := by
  have hall : l.got ++ chunk
      <+: (FrameCipher.sealAll A cipher₀ (sealedCells l.flow.emitted)).1.flatten := by
    rw [← hacc.bytes]
    exact hgot.trans (List.prefix_append _ _)
  rw [hread, hem, sealedCells_append, FrameCipher.sealAll_append, List.flatten_append,
    ← hcipher, List.append_assoc] at hall
  exact (List.prefix_append_right_inj _).mp hall

/-- A read that does not fill the buffer. -/
theorem Inv.read_part {chunk : Bytes} (h : l.Inv A cipher₀) (hgot : l.got ++ chunk <+: l.flow.wire)
    (hpart : (l.receiver.buf ++ chunk).length < frameLen) :
    ({ l with receiver := l.receiver.read A chunk, got := l.got ++ chunk } : Link ρ).Inv A
      cipher₀ := by
  obtain ⟨hacc, -, done, rest, hem, hcipher, hread, hdec⟩ := h
  refine ⟨hacc, hgot, done, rest, hem, ?_, ?_, ?_⟩ <;> simp only [Receiver.read, if_pos hpart]
  · exact hcipher
  · rw [hread, List.append_assoc]
  · exact hdec

/-- A read that fills it opens the next frame. -/
theorem Inv.read_frame (hA : A.Lawful) {chunk : Bytes} (h : l.Inv A cipher₀)
    (hgot : l.got ++ chunk <+: l.flow.wire)
    (hlen : (l.receiver.buf ++ chunk).length = frameLen) :
    ({ l with receiver := l.receiver.read A chunk, got := l.got ++ chunk } : Link ρ).Inv A
      cipher₀ := by
  obtain ⟨hacc, -, done, rest, hem, hcipher, hread, hdec⟩ := h
  have hbuf := buf_prefix hacc hem hcipher hread hgot
  have hsize : ∀ e ∈ rest, (frameCell e.frame).2.length = cellBytes := fun e he =>
    hacc.sizes e (by rw [hem]; exact List.mem_append_right _ he)
  obtain ⟨e, rest', rfl, hframe, hopen⟩ := open_next hA hsize hbuf hlen
  refine ⟨hacc, hgot, done ++ [e], rest', by rw [hem, List.append_assoc]; rfl, ?_, ?_, ?_⟩ <;>
    simp only [Receiver.read, if_neg hlen.not_lt, hopen]
  · rw [sealedCells_append, FrameCipher.sealAll_append, ← hcipher]
    rfl
  · rw [sealedCells_append, FrameCipher.sealAll_append, List.flatten_append, ← hcipher,
      ← hframe, hread, List.append_assoc, List.append_nil]
  · rw [realCells_append, List.map_append, ← hdec]
    cases hf : e.frame with
    | real p => simp [frameCell, realCells, hf]
    | dummy b => simp [frameCell, realCells, hf, Crypto.kindDummy, kindReal]

variable [RngCore ρ] {F : F64}

/-- Every step of either end keeps the invariant. -/
theorem step_inv (hA : A.Lawful) {l' : Link ρ} {e : LinkEvent} (h : l.Inv A cipher₀)
    (hstep : step F A l e = some l') : l'.Inv A cipher₀ := by
  have inv := h
  obtain ⟨hacc, hgot, done, rest, hem, hcipher, hread, hdec⟩ := h
  cases e with
  | service call =>
      simp only [step] at hstep
      split at hstep
      · obtain rfl := Option.some.inj hstep
        obtain ⟨hwire, more, hmore⟩ := FlowSlot.serviceFlow_grows (F := F) call hacc
        refine ⟨FlowSlot.serviceFlow_accounted call hacc, hgot.trans hwire, done, rest ++ more,
          ?_, hcipher, hread, hdec⟩
        rw [← List.append_assoc, ← hem]
        exact hmore.symm
      · cases hstep
  | eof =>
      simp only [step] at hstep
      split at hstep
      · obtain rfl := Option.some.inj hstep
        exact ⟨hacc, hgot, done, rest, hem, hcipher, hread, hdec⟩
      · cases hstep
  | read n =>
      simp only [step] at hstep
      split at hstep
      · next hguard =>
        obtain ⟨-, -, hchunk, hroom⟩ := hguard
        obtain rfl := Option.some.inj hstep
        have hgot' : l.got ++ (l.flow.wire.drop l.got.length).take n <+: l.flow.wire := by
          obtain ⟨suffix, hsuffix⟩ := hgot
          rw [← hsuffix, List.drop_left]
          exact (List.prefix_append_right_inj _).mpr (List.take_prefix _ _)
        by_cases hfull :
            (l.receiver.buf ++ (l.flow.wire.drop l.got.length).take n).length < frameLen
        · exact inv.read_part hgot' hfull
        · refine inv.read_frame hA hgot' ?_
          rw [List.length_append] at hfull ⊢
          omega
      · cases hstep

/-- **In-order delivery.** From a production flow and a receiver at the same
    key, however the service calls, the partial writes and the reads interleave:
    the pairs the receiver has decoded are a prefix of the pairs that were sent
    into the channel. -/
theorem decoded_prefix_sent {σ : Type} [RngCore σ] (hA : A.Lawful) (H : Blake3)
    (clk clk' : Clock) (seed : EphemeralSeed) (initialIatMs : Double) (composerRng : ρ)
    (session : ShapedSession ρ)
    (hnew : ShapedSession.new F H clk seed (shapedCompositionConfig F initialIatMs) composerRng
      = some (.ok (session, clk')))
    (sessionStart : Instant) (policy : TailPolicy) (thresholds : FuzzedClassThresholds)
    (realHoldUntil : Instant) (key : Key) (events : List LinkEvent)
    (hrun : Machine.run (step F A) (start (.registered session sessionStart policy thresholds
      realHoldUntil (.new key))) events = some l)
    (sends : List (CellSend σ)) (hsent : l.flow.cellRx.sent = sends.map CellSend.encode) :
    l.receiver.decoded <+: sends.map CellSend.payload := by
  have hreg := FlowSlot.registered_accounted (A := A) hnew sessionStart policy thresholds
    realHoldUntil (.new key)
  have hinv := Machine.run_invariant (fun _ _ _ h hs => step_inv hA h hs)
    (start_inv hreg rfl) hrun
  refine (decoded_prefix_received hinv).trans ?_
  have hpairs : l.flow.cellRx.sent.map (fun c => decodeRealCell c.bytes)
      = sends.map CellSend.payload := by
    rw [hsent, List.map_map]
    exact List.map_congr_left fun s _ => CellSend.decodeRealCell_encode s
  rw [← hpairs, Chan.sent, List.map_append]
  exact List.prefix_append _ _

/-- One cell is sent, emitted in the first slot and read in two pieces. -/
theorem decoded_prefix_sent_one_cell :
    ∃ l : Link FixedRng, l.receiver.decoded = [(1, [42])] ∧
      l.receiver.decoded <+: [CellSend.real 1 [42] (⟨0⟩ : FixedRng)].map CellSend.payload := by
  have hrun : (Machine.run (step .steep .tagOnly) (start (.registered (steepSession 157) 0 .off
        ⟨1, 2, 3⟩ 0 (.new (Vector.replicate 32 9))))
      [.service ⟨.const 0, fun _ => ⟨[(CellSend.real 1 [42] (⟨0⟩ : FixedRng)).encode], true⟩, .ok⟩,
        .service ⟨.const 60000000, fun _ => .none, .ok⟩, .read 500, .read 31]).map
      (fun l => (l.receiver.decoded, l.flow.cellRx.sent))
      = some ([(1, [42])], [(CellSend.real 1 [42] (⟨0⟩ : FixedRng)).encode]) := by
    decide +kernel
  obtain ⟨l, hl, hpair⟩ := Option.map_eq_some_iff.mp hrun
  obtain ⟨hdec, hsent⟩ := Prod.mk.inj hpair
  exact ⟨l, hdec, decoded_prefix_sent Aead.tagOnly_lawful .sumBytes (.const 0) (.const 0)
    ⟨Vector.replicate 32 157⟩ (.finite 5) ⟨0⟩ (steepSession 157) (new_steepSession 157) 0 .off
    ⟨1, 2, 3⟩ 0
    (Vector.replicate 32 9) _ hl _ hsent⟩

end Link

end MixTor
