/-
  MixTor.Transport.SealedFrames

  `read_sealed_frame` (transport.rs) on a wire that an adversary writes.

  The reader does not look for frames: it takes the next `frameLen` bytes,
  whatever they are, and opens them with its next nonce.  Its counter is thus the
  number of calls so far, and the sealer's nonce of that number is the only one
  under which the call can succeed.
-/

import MixTor.Crypto.MarkedMessage
import MixTor.Transport.InOrderDelivery

namespace MixTor

open Crypto (Bytes Key Nonce Aead FrameCipher HandshakeError StreamRead encFrameLen)

/-- What `read_exact` returns. -/
inductive ReadExact where
  | full (buf : Bytes)
  | unexpectedEof
  | ioError
  deriving DecidableEq, Repr

/-- `read_exact` into a buffer of `n` bytes of which `buf` are filled.  Also
    returns the reads that were not consumed: bytes behind the buffer's end stay
    on the wire. -/
def readExact (n : Nat) (buf : Bytes) : List StreamRead → ReadExact × List StreamRead
  | [] => (if n ≤ buf.length then .full buf else .unexpectedEof, [])
  | read :: rest =>
      if n ≤ buf.length then (.full buf, read :: rest)
      else match read with
        | .ioError => (.ioError, rest)
        | .bytes b =>
            if b = [] then (.unexpectedEof, rest)
            else if b.length ≤ n - buf.length then readExact n (buf ++ b) rest
            else (.full (buf ++ b.take (n - buf.length)), .bytes (b.drop (n - buf.length)) :: rest)

/-- Read one frame and open it; `none` is the end of the wire. -/
def readSealedFrame (A : Aead) (cipher : FrameCipher) (wire : List StreamRead) :
    Except HandshakeError (Option (UInt8 × Bytes)) × FrameCipher × List StreamRead :=
  match readExact frameLen [] wire with
  | (.unexpectedEof, wire) => (.ok none, cipher, wire)
  | (.ioError, wire) => (.error .io, cipher, wire)
  | (.full buf, wire) =>
      match cipher.openFrame A buf with
      | (.error e, cipher) => (.error e, cipher, wire)
      | (.ok frame, cipher) => (.ok (some frame), cipher, wire)

/-- What successive calls return, up to the first error or the end, or at most
    `calls` of them. -/
def readFrames (A : Aead) : Nat → FrameCipher → List StreamRead → List (UInt8 × Bytes)
  | 0, _, _ => []
  | calls + 1, cipher, wire =>
      match readSealedFrame A cipher wire with
      | (.ok (some frame), cipher, wire) => frame :: readFrames A calls cipher wire
      | (.ok none, _, _) => []
      | (.error _, _, _) => []

-- ============================================================================
-- Any wire
-- ============================================================================

variable {A : Aead} {key : Key} {cells : List (UInt8 × Bytes)}

/-- The call number `i` opens the frame number `i` or none. -/
theorem openFrame_of_opensOnly (hcells : cells.length < 2 ^ 64)
    (hA : A.OpensOnly key ((FrameCipher.new key).sealLog cells)) {i : Nat} (hi : i ≤ cells.length)
    {buf : Bytes} {x : UInt8 × Bytes} {c' : FrameCipher}
    (h : (FrameCipher.before key i).openFrame A buf = (.ok x, c')) :
    cells[i]? = some x ∧ c' = FrameCipher.before key (i + 1) := by
  obtain ⟨hdec, rfl⟩ := FrameCipher.openFrame_eq_ok h
  obtain ⟨hmem, -⟩ := hA _ _ _ hdec
  rw [FrameCipher.new_eq_before] at hmem
  obtain ⟨j, y, hy, hnonce, hpt⟩ := FrameCipher.mem_sealLog hmem
  obtain ⟨hj, -⟩ := List.getElem?_eq_some_iff.mp hy
  rw [Nat.zero_add] at hnonce
  have hsize : cells.length < UInt64.size := hcells
  obtain rfl := FrameCipher.nonce_injective (hi.trans_lt hsize) (hj.trans hsize) hnonce
  obtain ⟨hkind, hcell⟩ := List.cons.inj hpt
  obtain rfl : x = y := Prod.ext hkind hcell
  exact ⟨hy, FrameCipher.before_nextNonce key i⟩

/-- A call leaves the counter at the number of frames returned so far. -/
theorem readSealedFrame_of_opensOnly (hcells : cells.length < 2 ^ 64)
    (hA : A.OpensOnly key ((FrameCipher.new key).sealLog cells)) {i : Nat} (hi : i ≤ cells.length)
    {wire wire' : List StreamRead} {x : UInt8 × Bytes} {c' : FrameCipher}
    (h : readSealedFrame A (.before key i) wire = (.ok (some x), c', wire')) :
    cells[i]? = some x ∧ c' = FrameCipher.before key (i + 1) := by
  rw [readSealedFrame] at h
  split at h
  · cases h
  · cases h
  · next buf wire₁ hexact =>
    split at h
    · cases h
    · next frame c₁ hopen =>
      cases h
      exact openFrame_of_opensOnly hcells hA hi hopen

/-- From the frame number `i` on, the calls return the frames in their order.
    The induction is on the number of calls. -/
theorem readFrames_prefix_drop (hcells : cells.length < 2 ^ 64)
    (hA : A.OpensOnly key ((FrameCipher.new key).sealLog cells)) (calls : Nat) {i : Nat}
    (hi : i ≤ cells.length) (wire : List StreamRead) :
    readFrames A calls (.before key i) wire <+: cells.drop i := by
  induction calls generalizing i wire with
  | zero => exact List.nil_prefix
  | succ calls ih =>
      rw [readFrames]
      split
      · next x c' wire' hcall =>
        obtain ⟨hx, rfl⟩ := readSealedFrame_of_opensOnly hcells hA hi hcall
        obtain ⟨hlt, hget⟩ := List.getElem?_eq_some_iff.mp hx
        rw [List.drop_eq_getElem_cons hlt, hget]
        exact List.cons_prefix_cons.mpr ⟨rfl, ih hlt wire'⟩
      · exact List.nil_prefix
      · exact List.nil_prefix

/-- **Frame integrity.** Under an ideal AEAD, whatever bytes stand on the wire and
    however they are read: what successive calls return, up to the first error or
    the end, is a prefix of what was sealed. -/
theorem readFrames_prefix_sealed (A : Aead) (key : Key) (cells : List (UInt8 × Bytes))
    (hcells : cells.length < 2 ^ 64)
    (hA : A.OpensOnly key ((FrameCipher.new key).sealLog cells)) (calls : Nat)
    (wire : List StreamRead) :
    readFrames A calls (FrameCipher.new key) wire <+: cells := by
  have h := readFrames_prefix_drop hcells hA calls (Nat.zero_le _) wire
  rwa [List.drop_zero] at h

/-- Two cells whose frames arrive in the wrong order, the second one twice. -/
theorem readFrames_prefix_sealed_reordered :
    let key : Key := Vector.replicate 32 7
    let cells : List (UInt8 × Bytes) :=
      [(Crypto.kindReal, List.replicate 514 1), (Crypto.kindDummy, List.replicate 514 2)]
    let A := Aead.ofLog ((FrameCipher.new key).sealLog cells)
    let frames := ((FrameCipher.new key).sealAll A cells).1
    readFrames A 3 (.new key) ((frames.reverse ++ frames.drop 1).map .bytes) <+: cells := by
  intro key cells A frames
  exact readFrames_prefix_sealed A key cells (by decide) (Aead.ofLog_opensOnly _ _) 3 _

end MixTor
