/-
  MixTor.Transport.FlowAccounting

  Where the cells and the bytes of a flow are.

  Every cell taken from the reader channel has either been emitted in a real
  frame or waits in the correlator, in order; and the bytes written followed by
  the bytes pending are the emitted frames, sealed one after the other by one
  cipher.  Every stage of a service call keeps both.
-/

import MixTor.Transport.ServiceFlow

namespace MixTor

open Channel
open Crypto (Bytes Aead FrameCipher Blake3)

/-- The cells of the real frames among the emissions, in order. -/
def realCells (es : List Emission) : List Bytes :=
  es.filterMap fun e => match e.frame with
    | .real packet => some packet.bytes
    | .dummy _ => none

/-- What the cipher seals for each emission. -/
def sealedCells (es : List Emission) : List (UInt8 × Bytes) := es.map fun e => frameCell e.frame

theorem realCells_append (es fs : List Emission) :
    realCells (es ++ fs) = realCells es ++ realCells fs := List.filterMap_append

theorem sealedCells_append (es fs : List Emission) :
    sealedCells (es ++ fs) = sealedCells es ++ sealedCells fs := List.map_append

namespace FlowSlot

variable {ρ : Type} {A : Aead} {cipher₀ : FrameCipher} {flow : FlowSlot ρ}

/-- The accounts of a flow whose cipher was `cipher₀` when it was registered. -/
structure Accounted (A : Aead) (cipher₀ : FrameCipher) (flow : FlowSlot ρ) : Prop where
  steady : flow.Steady
  cells : realCells flow.emitted ++ flow.queue.map Packet.bytes
    = flow.cellRx.received.map Cell.bytes
  bytes : flow.wire ++ flow.pending
    = (FrameCipher.sealAll A cipher₀ (sealedCells flow.emitted)).1.flatten
  cipher : flow.cipher = (FrameCipher.sealAll A cipher₀ (sealedCells flow.emitted)).2
  sizes : ∀ e ∈ flow.emitted, (frameCell e.frame).2.length = cellBytes

theorem arrive_accounted (a : Arrival) (h : flow.Accounted A cipher₀) :
    (flow.arrive a).Accounted A cipher₀ := by
  obtain ⟨⟨hfix, hcell⟩, hcells, hbytes, hcipher, hsizes⟩ := h
  unfold arrive
  split
  · refine ⟨⟨hfix, hcell⟩, ?_, hbytes, hcipher, hsizes⟩
    simp only [queue] at hcells ⊢
    rw [hcells]
    split <;> rfl
  · exact ⟨⟨hfix, hcell⟩, hcells, hbytes, hcipher, hsizes⟩

theorem pulled_accounted {flow' : FlowSlot ρ} {clk clk' : Clock} (h : flow.Accounted A cipher₀)
    (hp : Pulled flow clk flow' clk') : flow'.Accounted A cipher₀ := by
  obtain ⟨⟨hfix, hcell⟩, hcells, hbytes, hcipher, hsizes⟩ := h
  cases hp with
  | idle => exact ⟨⟨hfix, hcell⟩, hcells, hbytes, hcipher, hsizes⟩
  | eof tail n _ _ _ _ => exact ⟨⟨hfix, hcell⟩, hcells, hbytes, hcipher, hsizes⟩
  | cell c rest session' unread _ fixed same queued =>
      refine ⟨⟨fixed, same.config ▸ hcell⟩, ?_, hbytes, hcipher, hsizes⟩
      -- the cell leaves the channel and joins the end of the correlator queue
      simp only [queue, queued, (Chan.tryRecv_of_cons unread).2, List.map_append, List.map_cons,
        List.map_nil, ← List.append_assoc]
      rw [← hcells, queue]

theorem fired_accounted {F : F64} [RngCore ρ] {flow' : FlowSlot ρ} {clk clk' : Clock}
    (h : flow.Accounted A cipher₀) (hf : Fired F A flow clk flow' clk') :
    flow'.Accounted A cipher₀ := by
  obtain ⟨⟨hfix, hcell⟩, hcells, hbytes, hcipher, hsizes⟩ := h
  cases hf with
  | waits _ => exact ⟨⟨hfix, hcell⟩, hcells, hbytes, hcipher, hsizes⟩
  | emits frame session' due fixed size took hcfg _ _ _ =>
      refine ⟨⟨fixed, hcfg ▸ hcell⟩, ?_, ?_, ?_, ?_⟩
      · -- a real frame carries the head of the queue, a dummy leaves the queue alone
        simp only [queue] at hcells ⊢
        rw [realCells_append]
        cases took with
        | real p _ head =>
            rw [head] at hcells
            simpa [realCells] using hcells
        | dummy b _ same =>
            rw [same]
            simpa [realCells] using hcells
      · simp only [sealedCells_append]
        rw [FrameCipher.sealAll_append, ← hcipher, List.flatten_append, ← hbytes,
          List.append_assoc]
        simp [sealedCells, FrameCipher.sealAll_singleton, encodeFrame]
      · simp only [sealedCells_append]
        rw [FrameCipher.sealAll_append, ← hcipher]
        rfl
      · intro e he
        rcases List.mem_append.mp he with he | he
        · exact hsizes e he
        · obtain rfl := List.mem_singleton.mp he
          cases frame <;> exact size

theorem startClock_accounted {F : F64} [RngCore ρ] (clk : Clock) (h : flow.Accounted A cipher₀) :
    (flow.startClock F clk).1.Accounted A cipher₀ := by
  unfold startClock
  split
  · exact h
  · obtain ⟨⟨⟨hfix, hcomp, hsz⟩, hcell⟩, hcells, hbytes, hcipher, hsizes⟩ := h
    exact ⟨⟨⟨hfix, hcomp, hsz⟩, hcell⟩, hcells, hbytes, hcipher, hsizes⟩

/-- A partial write moves bytes from `pending` to the wire. -/
theorem flush_accounted (w : Nat → TryWrite) (h : flow.Accounted A cipher₀) :
    (flow.flush w).2.Accounted A cipher₀ := by
  obtain ⟨⟨hfix, hcell⟩, hcells, hbytes, hcipher, hsizes⟩ := h
  unfold flush
  split
  · exact ⟨⟨hfix, hcell⟩, hcells, hbytes, hcipher, hsizes⟩
  · split
    · exact ⟨⟨hfix, hcell⟩, hcells, hbytes, hcipher, hsizes⟩
    · refine ⟨⟨hfix, hcell⟩, hcells, ?_, hcipher, hsizes⟩
      rw [List.append_assoc, List.take_append_drop]
      exact hbytes
    · exact ⟨⟨hfix, hcell⟩, hcells, hbytes, hcipher, hsizes⟩
    · exact ⟨⟨hfix, hcell⟩, hcells, hbytes, hcipher, hsizes⟩

/-- **A service call keeps the accounts**, whatever the clock, the arrivals, the
    generator and the socket do. -/
theorem serviceFlow_accounted {F : F64} [RngCore ρ] (call : ServiceCall)
    (h : flow.Accounted A cipher₀) : (flow.serviceFlow F A call).2.Accounted A cipher₀ :=
  serviceFlow_invariant call (fun _ h => h.steady) (fun _ _ h => arrive_accounted _ h)
    (fun _ h => startClock_accounted _ h) (fun _ _ _ _ h hp => pulled_accounted h hp)
    (fun _ _ _ _ h hf => fired_accounted h hf) (fun _ h => flush_accounted _ h) h

/-- A flow registered with a production session has its accounts in order. -/
theorem registered_accounted {F : F64} [RngCore ρ] {H : Blake3} {clk clk' : Clock}
    {seed : EphemeralSeed} {initialIatMs : Double} {composerRng : ρ} {session : ShapedSession ρ}
    (hnew : ShapedSession.new F H clk seed (shapedCompositionConfig F initialIatMs) composerRng
      = some (.ok (session, clk')))
    (sessionStart : Instant) (policy : TailPolicy) (thresholds : FuzzedClassThresholds)
    (realHoldUntil : Instant) (cipher : FrameCipher) :
    (registered session sessionStart policy thresholds realHoldUntil cipher).Accounted A
      cipher := by
  obtain ⟨hsteady, hq⟩ := registered_steady hnew sessionStart policy thresholds realHoldUntil cipher
  refine ⟨hsteady, ?_, rfl, rfl, nofun⟩
  rw [hq]
  rfl

end FlowSlot

end MixTor
