/-
  MixTor.Transport.Cell

  Uniform-cell framing with stream multiplexing (transport.rs):

    real cell:  [u16 BE stream_id][u16 BE len][data][random padding] == CELL_BYTES
    dummy cell: [CELL_BYTES random bytes]

  `len = 0` is the stream-close sentinel.
-/

import MixTor.Shaping.Basic

namespace MixTor

open Crypto (Bytes)

/-- Tor cell size. -/
def cellBytes : Nat := 514

/-- u16 stream_id and u16 length prefix. -/
def cellHeader : Nat := 4

/-- Real bytes per cell. -/
def cellPayload : Nat := cellBytes - cellHeader

/-- A `Vec<u8>` of `CELL_BYTES` bytes, as every sender on a cell channel builds it. -/
structure Cell where
  bytes : Bytes
  length_eq : bytes.length = cellBytes
  deriving DecidableEq, Repr

theorem Cell.bytes_ne_nil (c : Cell) : c.bytes ≠ [] := by
  intro h
  have := c.length_eq
  rw [h] at this
  cases this

/-- `u16::to_be_bytes`. -/
def toBeBytes (n : UInt16) : Bytes := [UInt8.ofNat (n.toNat / 256), UInt8.ofNat (n.toNat % 256)]

@[simp] theorem toBeBytes_length (n : UInt16) : (toBeBytes n).length = 2 := rfl

/-- `u16::from_be_bytes`. -/
def fromBeBytes (hi lo : UInt8) : UInt16 := UInt16.ofNat (hi.toNat * 256 + lo.toNat)

theorem fromBeBytes_toBeBytes (n : UInt16) :
    fromBeBytes (UInt8.ofNat (n.toNat / 256)) (UInt8.ofNat (n.toNat % 256)) = n := by
  have hn := n.toNat_lt
  rw [fromBeBytes, UInt8.toNat_ofNat', UInt8.toNat_ofNat',
    Nat.mod_eq_of_lt (by omega : n.toNat / 256 < 2 ^ 8),
    Nat.mod_eq_of_lt (by omega : n.toNat % 256 < 2 ^ 8), Nat.div_add_mod', UInt16.ofNat_toNat]

section Encode

variable {ρ : Type} [RngCore ρ]

/-- Encode up to `CELL_PAYLOAD` real bytes into exactly `CELL_BYTES`. -/
def encodeRealCell (streamId : UInt16) (data : Bytes) (padRng : ρ) : Cell × ρ :=
  let n := min data.length cellPayload
  let (padding, padRng) := RngCore.fillBytes (cellPayload - n) padRng
  (⟨toBeBytes streamId ++ toBeBytes (UInt16.ofNat n) ++ data.take n ++ padding.toList, by
    rw [List.length_append, List.length_append, List.length_append, toBeBytes_length,
      toBeBytes_length, List.length_take, padding.length_toList]
    have hpayload : cellPayload + cellHeader = cellBytes := rfl
    have hheader : cellHeader = 4 := rfl
    omega⟩, padRng)

/-- Encode a stream-close cell. -/
def encodeCloseCell (streamId : UInt16) (padRng : ρ) : Cell × ρ :=
  let (padding, padRng) := RngCore.fillBytes cellPayload padRng
  (⟨toBeBytes streamId ++ toBeBytes 0 ++ padding.toList, by
    rw [List.length_append, List.length_append, toBeBytes_length, toBeBytes_length,
      padding.length_toList]
    rfl⟩, padRng)

end Encode

/-- Decode a real cell into its stream id and payload.  An empty payload is the
    close sentinel. -/
def decodeRealCell (cell : Bytes) : UInt16 × Bytes :=
  match cell with
  | b0 :: b1 :: b2 :: b3 :: _ =>
      let n := (fromBeBytes b2 b3).toNat
      let stop := min (cellHeader + n) cell.length
      (fromBeBytes b0 b1, (cell.take stop).drop cellHeader)
  | _ => (0, [])

/-- Decoding reads the header and takes as many bytes behind it as the header says. -/
theorem decodeRealCell_toBeBytes (streamId len : UInt16) (data padding : Bytes)
    (hlen : len.toNat = data.length) :
    decodeRealCell (toBeBytes streamId ++ toBeBytes len ++ data ++ padding) = (streamId, data) := by
  simp only [toBeBytes, List.cons_append, List.nil_append, decodeRealCell, cellHeader]
  rw [fromBeBytes_toBeBytes, fromBeBytes_toBeBytes, hlen,
    Nat.min_eq_left (by simp only [List.length_cons, List.length_append]; omega),
    Nat.add_comm 4 data.length]
  simp

/-- What a sender puts on a cell channel: a chunk of data or a close sentinel. -/
inductive CellSend (ρ : Type) where
  | real (streamId : UInt16) (data : Bytes) (padRng : ρ)
  | close (streamId : UInt16) (padRng : ρ)

namespace CellSend

variable {ρ : Type} [RngCore ρ]

def encode : CellSend ρ → Cell
  | real id data rng => (encodeRealCell id data rng).1
  | close id rng => (encodeCloseCell id rng).1

/-- The stream id and the payload the cell carries. -/
def payload : CellSend ρ → UInt16 × Bytes
  | real id data _ => (id, data.take cellPayload)
  | close id _ => (id, [])

/-- A cell decodes to what its sender put into it. -/
@[simp] theorem decodeRealCell_encode (s : CellSend ρ) :
    decodeRealCell s.encode.bytes = s.payload := by
  cases s with
  | real id data rng =>
      simp only [encode, encodeRealCell, payload]
      rw [decodeRealCell_toBeBytes]
      · congr 1
        rcases Nat.le_total data.length cellPayload with h | h
        · rw [Nat.min_eq_left h, List.take_length, List.take_of_length_le h]
        · rw [Nat.min_eq_right h]
      · rw [UInt16.toNat_ofNat', Nat.mod_eq_of_lt, List.length_take]
        · omega
        · simp only [cellPayload, cellBytes, cellHeader]
          omega
  | close id rng =>
      simp only [encode, encodeCloseCell, payload]
      have := decodeRealCell_toBeBytes id 0 [] (RngCore.fillBytes cellPayload rng).1.toList rfl
      rwa [List.append_nil] at this

end CellSend

end MixTor
