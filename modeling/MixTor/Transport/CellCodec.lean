/-
  MixTor.Transport.CellCodec

  From a byte stream to cells and back (transport.rs).

  The readers of a circuit, of a bridge connection and of a single-circuit session
  are one loop: read into a buffer of `max_read` bytes, cut what was read into chunks
  of `CELL_PAYLOAD`, encode each chunk.  The multiplexed ones close their stream with
  a sentinel when the source ends.  What is decoded is in order what was read.

  The cells are what a reader sends while the receiver of its channel is there.
-/

import MixTor.Crypto.MarkedMessage
import MixTor.Lib.Slices
import MixTor.Mux.MuxWire
import MixTor.Transport.Cell

namespace MixTor

open Crypto (Bytes StreamRead)
open Slices (slice chunks)

-- ============================================================================
-- Bounds of the decoder
-- ============================================================================

/-- `decode_real_cell` with the bounds check of every index; `none` is a panic. -/
def decodeRealCellChecked (cell : Bytes) : Option (UInt16 × Bytes) :=
  if cell.length < cellHeader then some (0, [])
  else do
    let streamId := fromBeBytes (← cell[0]?) (← cell[1]?)
    let n := (fromBeBytes (← cell[2]?) (← cell[3]?)).toNat
    let stop := min (cellHeader + n) cell.length
    return (streamId, ← slice cell cellHeader stop)

/-- Every index is in bounds, whatever the bytes. -/
theorem decodeRealCellChecked_eq (cell : Bytes) :
    decodeRealCellChecked cell = some (decodeRealCell cell) := by
  match cell with
  | [] => rfl
  | [_] => rfl
  | [_, _] => rfl
  | [_, _, _] => rfl
  | b0 :: b1 :: b2 :: b3 :: rest =>
      have hlong : ¬ (b0 :: b1 :: b2 :: b3 :: rest).length < cellHeader := by
        simp only [List.length_cons, cellHeader]
        omega
      have hstop : cellHeader ≤ min (cellHeader + (fromBeBytes b2 b3).toNat)
          (b0 :: b1 :: b2 :: b3 :: rest).length := by
        rw [Nat.le_min]
        exact ⟨Nat.le_add_right .., not_lt.mp hlong⟩
      rw [decodeRealCellChecked, if_neg hlong, decodeRealCell]
      show (slice (b0 :: b1 :: b2 :: b3 :: rest) cellHeader _).bind _ = _
      rw [Slices.slice_of_le hstop (Nat.min_le_right ..)]
      rfl

/-- The payload is the first part of what stands behind the header. -/
theorem decodeRealCell_prefix (cell : Bytes) :
    (decodeRealCell cell).2 <+: cell.drop cellHeader := by
  unfold decodeRealCell
  split
  · exact (List.take_prefix ..).drop _
  · exact List.nil_prefix

-- ============================================================================
-- The readers
-- ============================================================================

/-- Upper bound on bytes read from a source per read. -/
def defaultMaxFrameLen : Nat := 64 * 1024

/-- `max_read.clamp(1, DEFAULT_MAX_FRAME_LEN)`. -/
def clampRead (maxRead : Nat) : Nat := min (max maxRead 1) defaultMaxFrameLen

theorem clampRead_pos (maxRead : Nat) : 0 < clampRead maxRead := by
  unfold clampRead defaultMaxFrameLen
  omega

section Readers

variable {ρ : Type} [RngCore ρ]

/-- Encode chunk after chunk. -/
def encodeChunks (streamId : UInt16) (padRng : ρ) : List Bytes → List Cell × ρ
  | [] => ([], padRng)
  | chunk :: rest =>
      let (cell, padRng) := encodeRealCell streamId chunk padRng
      let (cells, padRng) := encodeChunks streamId padRng rest
      (cell :: cells, padRng)

/-- Encode what each read has put into the buffer. -/
def encodeReads (streamId : UInt16) (padRng : ρ) : List Bytes → List Cell × ρ
  | [] => ([], padRng)
  | buf :: rest =>
      let (cells, padRng) := encodeChunks streamId padRng (chunks cellPayload buf)
      let (more, padRng) := encodeReads streamId padRng rest
      (cells ++ more, padRng)

/-- The read loop: a source that has `b` ready is read in parts of at most `cap` bytes.
    `true` when the source has ended, `false` when it has failed. -/
def readSource (streamId : UInt16) (cap : Nat) : List StreamRead → ρ → List Cell × Bool × ρ
  | [], padRng => ([], true, padRng)
  | .ioError :: _, padRng => ([], false, padRng)
  | .bytes b :: rest, padRng =>
      if b = [] then ([], true, padRng)
      else
        let (cells, padRng) := encodeReads streamId padRng (chunks cap b)
        let (more, eof, padRng) := readSource streamId cap rest padRng
        (cells ++ more, eof, padRng)

/-- The reader task of `shaped_forward`. -/
def shapedForwardReader (maxRead : Nat) (src : List StreamRead) (padRng : ρ) : List Cell :=
  (readSource streamIdSingle (clampRead maxRead) src padRng).1

/-- Read bridge replies; a close sentinel when the bridge closes. -/
def bridgeStreamReader (streamId : UInt16) (maxRead : Nat) (src : List StreamRead) (padRng : ρ) :
    List Cell :=
  match readSource streamId (clampRead maxRead) src padRng with
  | (cells, true, padRng) => cells ++ [(encodeCloseCell streamId padRng).1]
  | (cells, false, _) => cells

/-- Read from the Tor circuit; a close sentinel when the circuit closes. -/
def muxTorReader (streamId : UInt16) (maxRead : Nat) (src : List StreamRead) (padRng : ρ) :
    List Cell :=
  match readSource streamId (clampRead maxRead) src padRng with
  | (cells, true, padRng) => cells ++ [(encodeCloseCell streamId padRng).1]
  | (cells, false, _) => cells

/-- What a source delivers before it ends or fails. -/
def delivered : List StreamRead → Bytes
  | [] => []
  | .ioError :: _ => []
  | .bytes b :: rest => if b = [] then [] else b ++ delivered rest

-- ============================================================================
-- What the cells of a reader decode to
-- ============================================================================

/-- A whole cell with data for `streamId`. -/
structure CarriesData (streamId : UInt16) (c : Cell) : Prop where
  length : c.bytes.length = cellBytes
  streamId : (decodeRealCell c.bytes).1 = streamId
  notClose : (decodeRealCell c.bytes).2 ≠ []

/-- Cells that carry `data` for `streamId`, in order. -/
structure Carry (streamId : UInt16) (cells : List Cell) (data : Bytes) : Prop where
  decoded : (cells.map fun c => (decodeRealCell c.bytes).2).flatten = data
  each : ∀ c ∈ cells, CarriesData streamId c

omit [RngCore ρ] in
theorem Carry.nil (streamId : UInt16) : Carry streamId [] [] := ⟨rfl, nofun⟩

omit [RngCore ρ] in
theorem Carry.append {streamId : UInt16} {cells cells' : List Cell} {data data' : Bytes}
    (h : Carry streamId cells data) (h' : Carry streamId cells' data') :
    Carry streamId (cells ++ cells') (data ++ data') where
  decoded := by rw [List.map_append, List.flatten_append, h.decoded, h'.decoded]
  each c hc := (List.mem_append.mp hc).elim (h.each c) (h'.each c)

/-- A chunk that fits into a cell is carried by it. -/
theorem carry_encodeRealCell (streamId : UInt16) {chunk : Bytes} (padRng : ρ)
    (hpos : 0 < chunk.length) (hfits : chunk.length ≤ cellPayload) :
    Carry streamId [(encodeRealCell streamId chunk padRng).1] chunk := by
  have hdecode : decodeRealCell (encodeRealCell streamId chunk padRng).1.bytes
      = (streamId, chunk) := by
    have := CellSend.decodeRealCell_encode (.real streamId chunk padRng)
    rwa [CellSend.payload, List.take_of_length_le hfits] at this
  refine ⟨by simp [hdecode], fun c hc => ?_⟩
  obtain rfl := List.mem_singleton.mp hc
  exact ⟨Cell.length_eq _, by rw [hdecode], by rw [hdecode]; exact List.length_pos_iff.mp hpos⟩

theorem carry_encodeChunks (streamId : UInt16) (padRng : ρ) {parts : List Bytes}
    (hparts : ∀ p ∈ parts, 0 < p.length ∧ p.length ≤ cellPayload) :
    Carry streamId (encodeChunks streamId padRng parts).1 parts.flatten := by
  induction parts generalizing padRng with
  | nil => exact .nil streamId
  | cons p parts ih =>
      obtain ⟨hpos, hfits⟩ := hparts p List.mem_cons_self
      exact (carry_encodeRealCell streamId padRng hpos hfits).append
        (ih _ fun q hq => hparts q (List.mem_cons_of_mem _ hq))

/-- **Round trip of a buffer.** -/
theorem carry_chunks (streamId : UInt16) (padRng : ρ) (buf : Bytes) :
    Carry streamId (encodeChunks streamId padRng (chunks cellPayload buf)).1 buf := by
  have hparts : ∀ p ∈ chunks cellPayload buf, 0 < p.length ∧ p.length ≤ cellPayload :=
    fun _ => Slices.length_of_mem_chunks
  have h := carry_encodeChunks streamId padRng hparts
  rwa [Slices.flatten_chunks (by decide)] at h

theorem carry_encodeReads (streamId : UInt16) (padRng : ρ) (bufs : List Bytes) :
    Carry streamId (encodeReads streamId padRng bufs).1 bufs.flatten := by
  induction bufs generalizing padRng with
  | nil => exact .nil streamId
  | cons buf bufs ih => exact (carry_chunks streamId padRng buf).append (ih _)

/-- **Round trip of a source**, read by read. -/
theorem carry_readSource (streamId : UInt16) {cap : Nat} (hcap : 0 < cap)
    (src : List StreamRead) (padRng : ρ) :
    Carry streamId (readSource streamId cap src padRng).1 (delivered src) := by
  induction src generalizing padRng with
  | nil => exact .nil streamId
  | cons read rest ih =>
      cases read with
      | ioError => exact .nil streamId
      | bytes b =>
          rw [readSource, delivered]
          split
          · exact .nil streamId
          · have h := carry_encodeReads streamId padRng (chunks cap b)
            rw [Slices.flatten_chunks hcap] at h
            exact h.append (ih _)

/-- What the readers of `mux_tor_reader` and `bridge_stream_reader` send: the data, and
    the sentinel of their stream when the source has ended. -/
theorem carry_muxTorReader (streamId : UInt16) (maxRead : Nat) (src : List StreamRead)
    (padRng : ρ) :
    ∃ cells close, muxTorReader streamId maxRead src padRng = cells ++ close ∧
      Carry streamId cells (delivered src) ∧
      ∀ c ∈ close, decodeRealCell c.bytes = (streamId, []) := by
  have h := carry_readSource streamId (clampRead_pos maxRead) src padRng
  unfold muxTorReader
  rcases hrun : readSource streamId (clampRead maxRead) src padRng with ⟨cells, eof, rng⟩
  rw [hrun] at h
  cases eof with
  | false => exact ⟨cells, [], (List.append_nil _).symm, h, nofun⟩
  | true =>
      refine ⟨cells, _, rfl, h, fun c hc => ?_⟩
      obtain rfl := List.mem_singleton.mp hc
      exact CellSend.decodeRealCell_encode (.close streamId rng)

/-- **The cell codec.**  For every stream id, every generator of the padding, every buffer
    and every source, however it is read and whatever `max_read` is: the cells of a
    buffer and of each of the three readers are whole, carry the stream id and data,
    and their payloads in order are what was read; every sentinel decodes as the end of
    its stream; and the decoder stays within any bytes it is given. -/
theorem cells_roundTrip (streamId : UInt16) (padRng : ρ) :
    (∀ buf, Carry streamId (encodeChunks streamId padRng (chunks cellPayload buf)).1 buf) ∧
    (∀ maxRead src,
      Carry streamIdSingle (shapedForwardReader maxRead src padRng) (delivered src)) ∧
    (∀ maxRead src, ∀ reader ∈ [bridgeStreamReader, muxTorReader],
      ∃ cells close, reader streamId maxRead src padRng = cells ++ close ∧
        Carry streamId cells (delivered src) ∧
        ∀ c ∈ close, decodeRealCell c.bytes = (streamId, [])) ∧
    decodeRealCell (encodeCloseCell streamId padRng).1.bytes = (streamId, []) ∧
    ∀ cell, ∃ id data, decodeRealCellChecked cell = some (id, data) ∧
      data <+: cell.drop cellHeader := by
  refine ⟨carry_chunks streamId padRng,
    fun maxRead src => carry_readSource _ (clampRead_pos maxRead) src padRng, ?_,
    CellSend.decodeRealCell_encode (.close streamId padRng), fun cell =>
      ⟨_, _, decodeRealCellChecked_eq cell, decodeRealCell_prefix cell⟩⟩
  intro maxRead src reader hreader
  have hsame : reader = muxTorReader (ρ := ρ) := by
    simp only [List.mem_cons, List.not_mem_nil, or_false] at hreader
    exact hreader.elim id id
  rw [hsame]
  exact carry_muxTorReader streamId maxRead src padRng

end Readers

end MixTor
