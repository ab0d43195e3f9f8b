/-
  MixTor.Transport.DirectionClose

  A direction that closes in an orderly way.

  The readers end, the emitter drains the flow and drops it, and the receiver
  reads the wire to its end.  Where the peer takes what it is sent and no call
  closes the flow over waiting cells, every stream has then delivered all it was
  given, and every sentinel has arrived.  An echoed stream may be announced as
  closed without its reader's sentinel, but loses no byte either.
-/

import MixTor.Transport.Direction
import MixTor.Transport.FlowClose

namespace MixTor

open Channel
open Crypto (Bytes Aead Blake3 FrameCipher StreamRead encFrameLen)

-- ============================================================================
-- Frames and bytes
-- ============================================================================

/-- Sealed cells of full size take a whole number of frames. -/
theorem sealAll_length {A : Aead} (hA : A.Lawful) (cipher : FrameCipher)
    {cells : List (UInt8 × Bytes)} (hsize : ∀ c ∈ cells, c.2.length = cellBytes) :
    (FrameCipher.sealAll A cipher cells).1.flatten.length = cells.length * frameLen := by
  induction cells generalizing cipher with
  | nil => exact (Nat.zero_mul _).symm
  | cons c cells ih =>
      obtain ⟨hc, hcells⟩ := List.forall_mem_cons.mp hsize
      obtain ⟨kind, cell⟩ := c
      rw [FrameCipher.sealAll_cons, List.flatten_cons, List.length_append, ih _ hcells,
        FrameCipher.sealFrame_length hA, hc, List.length_cons, Nat.succ_mul, Nat.add_comm]
      rfl

namespace Receiver

/-- The buffer is opened as soon as it is full. -/
theorem read_buf_length (A : Aead) {r : Receiver} {chunk : Bytes} :
    (r.read A chunk).buf.length < frameLen := by
  rw [read]
  split
  · assumption
  · split <;> exact Nat.lt_of_lt_of_eq (by decide : 0 < 531) rfl

end Receiver

namespace FlowSlot

variable {ρ : Type} [RngCore ρ] {F : F64} {A : Aead}

/-- A call to a draining peer drops the flow only at the end of its reader. -/
theorem readerDone_of_dropped {flow : FlowSlot ρ} {call : ServiceCall}
    (hdrain : call.tryWrite = .ok) (hdrop : (flow.serviceFlow F A call).1 = false) :
    (flow.serviceFlow F A call).2.readerDone = true := by
  rw [serviceFlow_snd, hdrain]
  rw [serviceFlow, hdrain, if_pos (flush_ok _).1, Bool.not_eq_false'] at hdrop
  exact (finished_eq_true hdrop).1

end FlowSlot

-- ============================================================================
-- Orderly runs
-- ============================================================================

namespace Direction

variable {ρ σ : Type} [RngCore ρ] [RngCore σ] {F : F64} {A : Aead} {cipher₀ : FrameCipher}
  {d : Direction ρ σ} {flow : FlowSlot ρ}

/-- The peer takes what it is sent, and the call does not close the flow over cells. -/
def Orderly (d : Direction ρ σ) : DirectionEvent → Prop
  | .link (.service call) => call.tryWrite = .ok ∧ d.link.flow.Safe call
  | _ => True

/-- A dropped flow has written everything, and the receiver holds less than a frame. -/
structure Closing (A : Aead) (cipher₀ : FrameCipher) (d : Direction ρ σ) : Prop where
  inv : d.Inv A cipher₀
  reader : d.link.flow.ReaderState
  buf : d.link.receiver.buf.length < frameLen
  dropped : d.link.kept = false → d.link.flow.AllWritten ∧ d.link.flow.cellRx.senders = false

theorem step_closing (hA : A.Lawful) {d' : Direction ρ σ} {e : DirectionEvent}
    (h : d.Closing A cipher₀) (horderly : d.Orderly e) (hstep : step F A d e = some d') :
    d'.Closing A cipher₀ := by
  have hinv := step_inv hA h.inv hstep
  have hacc := h.inv.link.accounted
  obtain ⟨-, hreader, hbuf, hdropped⟩ := h
  rcases step_cases hstep with ⟨i, read, r, -, -, -, -, rfl⟩ | ⟨streamId, -, -, rfl⟩ |
    ⟨e', link, rfl, hlink, -, rfl⟩
  · exact ⟨hinv, hreader, hbuf, hdropped⟩
  · exact ⟨hinv, hreader, hbuf, hdropped⟩
  · cases e' with
    | service call =>
        obtain ⟨hdrain, hsafe⟩ := horderly
        simp only [Link.step] at hlink
        split at hlink
        · obtain rfl := Option.some.inj hlink
          obtain ⟨hstate, hall⟩ :=
            FlowSlot.serviceFlow_allWritten (F := F) hacc hreader hdrain hsafe
          exact ⟨hinv, hstate, hbuf, fun hdrop =>
            ⟨hall hdrop, (hstate.closed (FlowSlot.readerDone_of_dropped hdrain hdrop)).2⟩⟩
        · cases hlink
    | read n =>
        simp only [Link.step] at hlink
        split at hlink
        · obtain rfl := Option.some.inj hlink
          exact ⟨hinv, hreader, Receiver.read_buf_length A, hdropped⟩
        · cases hlink
    | eof =>
        simp only [Link.step] at hlink
        split at hlink
        · obtain rfl := Option.some.inj hlink
          exact ⟨hinv, hreader, hbuf, hdropped⟩
        · cases hlink

omit [RngCore ρ] in
/-- A receiver that has read the whole wire of a flow that has written everything has
    decoded every cell that was sent. -/
theorem Closing.decoded_all (hA : A.Lawful) (h : d.Closing A cipher₀)
    (hwritten : d.link.flow.AllWritten) (hread : d.link.got = d.link.flow.wire) :
    d.link.receiver.decoded = d.link.flow.cellRx.sent.map fun c => decodeRealCell c.bytes := by
  obtain ⟨hacc, -, done, rest, hemitted, -, hgot, hdecoded⟩ := h.inv.link
  have hbytes := hacc.bytes
  rw [hwritten.pending, List.append_nil, ← hread, hgot, hemitted, sealedCells_append,
    FrameCipher.sealAll_append, List.flatten_append] at hbytes
  have hbuf := congrArg List.length (List.append_cancel_left hbytes)
  have hsize : ∀ c ∈ sealedCells rest, c.2.length = cellBytes := by
    intro c hc
    obtain ⟨e, he, rfl⟩ := List.mem_map.mp hc
    exact hacc.sizes e (by rw [hemitted]; exact List.mem_append_right _ he)
  -- what is left of the wire is less than a frame, so nothing is left
  have hrest : rest = [] := by
    rw [sealAll_length hA _ hsize, sealedCells, List.length_map] at hbuf
    have hless := h.buf
    rw [hbuf] at hless
    rw [← List.length_eq_zero_iff]
    by_contra hne
    exact absurd hless (Nat.not_lt.mpr (Nat.le_mul_of_pos_left _ (Nat.pos_of_ne_zero hne)))
  rw [hrest, List.append_nil] at hemitted
  rw [hdecoded, ← hemitted, hwritten.cells, List.map_map]
  rfl

omit [RngCore ρ] in
/-- Once all cells of a reader have been carried and decoded, its bytes and its sentinel have
    come out. -/
theorem Inv.pipe_of_decoded (h : d.Inv A cipher₀) {r : StreamReader σ} (hr : r ∈ d.readers)
    (hsent : r.cells.Sublist (cellsOf r.streamId d.link.flow.cellRx.sent))
    (hdecoded : decodedFor r.streamId d.link.receiver.decoded
      = (cellsOf r.streamId d.link.flow.cellRx.sent).map fun c => (decodeRealCell c.bytes).2) :
    (d.pipe r).output = (d.pipe r).input ∧
      ((r.sentinel && r.sawEof) = true → (d.pipe r).closed = true) ∧
      (r.streamId ∉ d.echoed → (d.pipe r).closed = (r.sentinel && r.sawEof)) := by
  have hpay := hsent.map fun c => (decodeRealCell c.bytes).2
  rw [← hdecoded] at hpay
  obtain ⟨datas, hsplit, hne, -⟩ := r.payloads_eq
  refine ⟨?_, fun hclose => ?_, fun hecho => ?_⟩
  · -- the data cells carried are those of the reader
    have hdata : dataCells (cellsOf r.streamId d.link.flow.cellRx.sent) = dataCells r.cells :=
      List.Sublist.antisymm (h.feeds.data r hr).sublist (hsent.filter _)
    rw [pipe, hdecoded, ← flatten_dataCells, hdata, flatten_dataCells]
    exact r.flatten_payloads
  · have hmem : [] ∈ r.payloads := by
      rw [hsplit, if_pos hclose]
      exact List.mem_append_right _ List.mem_cons_self
    exact decide_eq_true (hpay.mem hmem)
  · have hall : decodedFor r.streamId d.link.receiver.decoded = r.payloads :=
      List.Sublist.antisymm (h.decodedFor_prefix hr hecho).sublist hpay
    have hno : [] ∉ datas := fun h => hne [] h rfl
    rw [pipe, hall, hsplit]
    cases hclose : (r.sentinel && r.sawEof) <;> simp [hno]

/-- Two readers read one byte and then the end of their sources, and the second stream is
    echoed before its byte is sent.  The first call takes the data, and the second the
    sentinel of the second reader and the end of both. -/
def closeRun : List DirectionEvent :=
  let cells := (singleReader.push (.bytes [42])).cells ++ [(encodeCloseCell 7 (⟨0⟩ : FixedRng)).1]
    ++ (echoedReader.push (.bytes [7])).cells
  let closed := ((echoedReader.push (.bytes [7])).push (.bytes [])).cells.drop 1
  [.source 0 (.bytes [42]), .source 1 (.bytes [7]), .echo 7,
    .link (.service (Service.callAt 0 ⟨cells, false⟩)),
    .source 0 (.bytes []), .source 1 (.bytes []),
    .link (.service (Service.callAt 300000000 ⟨closed, true⟩))]
  ++ List.replicate 5 (.link (.read 531))

def twoStart : Direction FixedRng FixedRng :=
  start [singleReader, echoedReader] (Service.steepFlow 157 .off) steepOff.cipher

theorem orderly_closeRun :
    Machine.Meets (step .steep .tagOnly) Orderly twoStart closeRun := by
  intro s₁ h₁
  refine ⟨trivial, fun s₂ h₂ => ⟨trivial, fun s₃ h₃ => ⟨trivial, fun s₄ h₄ =>
    ⟨⟨rfl, Service.safe_of_off 0 ?_ rfl⟩, fun s₅ h₅ => ⟨trivial, fun s₆ h₆ => ⟨trivial, fun s₇ h₇ =>
      ⟨⟨rfl, Service.safe_of_off 300000000 ?_ rfl⟩, ?_⟩⟩⟩⟩⟩⟩⟩
  · have hstate : (Machine.run (step .steep .tagOnly) twoStart (closeRun.take 3)).map
        (fun s => (s.link.flow.policy, s.link.flow.readerDone)) = some (.off, false) := by
      decide +kernel
    have hrun : Machine.run (step .steep .tagOnly) twoStart (closeRun.take 3) = some s₃ :=
      Machine.run_cons_eq_some.mpr ⟨s₁, h₁, Machine.run_cons_eq_some.mpr ⟨s₂, h₂,
        Machine.run_cons_eq_some.mpr ⟨s₃, h₃, rfl⟩⟩⟩
    rw [hrun] at hstate
    exact Option.some.inj hstate
  · have hstate : (Machine.run (step .steep .tagOnly) twoStart (closeRun.take 6)).map
        (fun s => (s.link.flow.policy, s.link.flow.readerDone)) = some (.off, false) := by
      decide +kernel
    have hrun : Machine.run (step .steep .tagOnly) twoStart (closeRun.take 6) = some s₆ :=
      Machine.run_cons_eq_some.mpr ⟨s₁, h₁, Machine.run_cons_eq_some.mpr ⟨s₂, h₂,
        Machine.run_cons_eq_some.mpr ⟨s₃, h₃, Machine.run_cons_eq_some.mpr ⟨s₄, h₄,
          Machine.run_cons_eq_some.mpr ⟨s₅, h₅, Machine.run_cons_eq_some.mpr ⟨s₆, h₆, rfl⟩⟩⟩⟩⟩⟩
    rw [hrun] at hstate
    exact Option.some.inj hstate
  · refine Machine.meets_of_mem (fun e he s => ?_) s₇
    rw [List.eq_of_mem_replicate he]
    trivial

end Direction

end MixTor
