/-
  MixTor.Crypto.FrameCipher

  The counter-nonce AEAD frame cipher of one direction (`FrameCipher` in
  crypto.rs): `sealFrame` puts the real/dummy `kind` marker in front of the cell and
  encrypts both under the next counter value, `openFrame` decrypts under its own
  next counter value.
-/

import MixTor.Crypto.Primitives

namespace MixTor.Crypto

/-- Length of the `kind` marker inside the ciphertext. -/
def kindLen : Nat := 1

def kindReal : UInt8 := 1
def kindDummy : UInt8 := 2

/-- On-wire size of one encrypted frame whose plaintext cell is `cellBytes`. -/
def encFrameLen (cellBytes : Nat) : Nat := kindLen + cellBytes + tagLen

/-- Errors of the handshake and of the frame cipher. -/
inductive HandshakeError where
  | io
  | closed
  | nonContributory
  | badServerAuth
  | probeRejected
  deriving DecidableEq, Repr

/-- One direction's cipher: the key and the counter of the next frame. -/
structure FrameCipher where
  key : Key
  counter : UInt64
  deriving DecidableEq

/-- `u64::to_le_bytes`. -/
def toLeBytes (n : UInt64) : Vector UInt8 8 :=
  Vector.ofFn fun i => (n >>> (8 * UInt64.ofNat i)).toUInt8

namespace FrameCipher

def new (key : Key) : FrameCipher := ⟨key, 0⟩

/-- 4 zero bytes followed by the counter, which then advances (wrapping). -/
def nextNonce (c : FrameCipher) : Nonce × FrameCipher :=
  ((Vector.replicate 4 (0 : UInt8) ++ toLeBytes c.counter : Vector UInt8 (4 + 8)),
    { c with counter := c.counter + 1 })

/-- Encrypt `(kind, cell)` into one on-wire frame. -/
def sealFrame (A : Aead) (c : FrameCipher) (kind : UInt8) (cell : Bytes) : Bytes × FrameCipher :=
  (A.encrypt c.key c.nextNonce.1 (kind :: cell), c.nextNonce.2)

/-- Decrypt one on-wire frame.  The counter advances whatever the result. -/
def openFrame (A : Aead) (c : FrameCipher) (frame : Bytes) :
    Except HandshakeError (UInt8 × Bytes) × FrameCipher :=
  match A.decrypt c.key c.nextNonce.1 frame with
  | none => (.error .badServerAuth, c.nextNonce.2)
  | some [] => (.error .badServerAuth, c.nextNonce.2)
  | some (kind :: cell) => (.ok (kind, cell), c.nextNonce.2)

/-- The nonce and the plaintext of every encryption that seals a list of
    `(kind, cell)` pairs. -/
def sealLog (c : FrameCipher) : List (UInt8 × Bytes) → List (Nonce × Bytes)
  | [] => []
  | (kind, cell) :: rest => (c.nextNonce.1, kind :: cell) :: sealLog c.nextNonce.2 rest

/-- The frames of a list of `(kind, cell)` pairs sealed one after the other, and
    the cipher after the last of them. -/
def sealAll (A : Aead) (c : FrameCipher) : List (UInt8 × Bytes) → List Bytes × FrameCipher
  | [] => ([], c)
  | (kind, cell) :: rest =>
      let s := c.sealFrame A kind cell
      let r := sealAll A s.2 rest
      (s.1 :: r.1, r.2)

variable {A : Aead}

/-- A frame is one byte and a tag longer than its cell, whatever its kind. -/
theorem sealFrame_length (hA : A.Lawful) (c : FrameCipher) (kind : UInt8) (cell : Bytes) :
    (c.sealFrame A kind cell).1.length = encFrameLen cell.length := by
  rw [sealFrame, hA.length_encrypt, List.length_cons, encFrameLen, kindLen]
  omega

/-- Opening undoes sealing when both ends are at the same counter. -/
theorem openFrame_sealFrame (hA : A.Lawful) (c : FrameCipher) (kind : UInt8) (cell : Bytes) :
    c.openFrame A (c.sealFrame A kind cell).1 = (.ok (kind, cell), c.nextNonce.2) := by
  unfold openFrame sealFrame
  rw [hA.decrypt_encrypt]

@[simp] theorem sealAll_nil (c : FrameCipher) : sealAll A c [] = ([], c) := rfl

theorem sealAll_cons (c : FrameCipher) (kind : UInt8) (cell : Bytes)
    (rest : List (UInt8 × Bytes)) :
    sealAll A c ((kind, cell) :: rest)
      = ((c.sealFrame A kind cell).1 :: (sealAll A c.nextNonce.2 rest).1,
          (sealAll A c.nextNonce.2 rest).2) := rfl

theorem sealAll_singleton (c : FrameCipher) (x : UInt8 × Bytes) :
    sealAll A c [x] = ([(c.sealFrame A x.1 x.2).1], c.nextNonce.2) := rfl

theorem sealAll_append (c : FrameCipher) (xs ys : List (UInt8 × Bytes)) :
    sealAll A c (xs ++ ys)
      = ((sealAll A c xs).1 ++ (sealAll A (sealAll A c xs).2 ys).1,
          (sealAll A (sealAll A c xs).2 ys).2) := by
  induction xs generalizing c with
  | nil => rfl
  | cons x xs ih =>
      obtain ⟨kind, cell⟩ := x
      rw [List.cons_append, sealAll_cons, sealAll_cons, ih]
      rfl

-- ============================================================================
-- Nonces
-- ============================================================================

/-- The cipher before its `i`-th frame. -/
def before (key : Key) (i : Nat) : FrameCipher := ⟨key, UInt64.ofNat i⟩

theorem new_eq_before (key : Key) : new key = before key 0 := rfl

@[simp] theorem before_nextNonce (key : Key) (i : Nat) :
    (before key i).nextNonce.2 = before key (i + 1) := by
  rw [nextNonce, before, before, UInt64.ofNat_add]
  rfl

/-- A byte of the little-endian encoding. -/
theorem toLeBytes_getElem (n : UInt64) (i : Nat) (hi : i < 8) :
    ((toLeBytes n)[i]).toNat = n.toNat >>> (8 * i) % 256 := by
  have h64 : (8 * UInt64.ofNat i).toNat % 64 = 8 * i := by
    rw [UInt64.toNat_mul, UInt64.toNat_ofNat', Nat.mod_eq_of_lt (by omega : i < 2 ^ 64)]
    show 8 * i % 2 ^ 64 % 64 = 8 * i
    omega
  rw [toLeBytes, Vector.getElem_ofFn, UInt64.toNat_toUInt8, UInt64.toNat_shiftRight, h64]

/-- The counter is read back from its eight bytes, bit by bit. -/
theorem toLeBytes_injective {a b : UInt64} (h : toLeBytes a = toLeBytes b) : a = b := by
  have hbit : ∀ (n : UInt64) (k : Nat), k < 64 →
      n.toNat.testBit k = (n.toNat >>> (8 * (k / 8)) % 256).testBit (k % 8) := by
    intro n k hk
    have hlow : k % 8 < 8 := Nat.mod_lt _ (by decide)
    rw [show 256 = 2 ^ 8 from rfl, Nat.testBit_mod_two_pow, Nat.testBit_shiftRight,
      Nat.div_add_mod, decide_eq_true hlow, Bool.true_and]
  apply UInt64.toNat_inj.mp
  apply Nat.eq_of_testBit_eq
  intro k
  by_cases hk : k < 64
  · have hi : k / 8 < 8 := by omega
    rw [hbit a k hk, hbit b k hk, ← toLeBytes_getElem a _ hi, ← toLeBytes_getElem b _ hi, h]
  · have hout : ∀ n : UInt64, n.toNat.testBit k = false := by
      intro n
      apply Nat.testBit_lt_two_pow
      exact Nat.lt_of_lt_of_le n.toNat_lt (Nat.pow_le_pow_right (by decide) (Nat.le_of_not_lt hk))
    rw [hout a, hout b]

/-- The nonces of the first 2^64 frames are all different. -/
theorem nonce_injective {key : Key} {i j : Nat} (hi : i < UInt64.size) (hj : j < UInt64.size)
    (h : (before key i).nextNonce.1 = (before key j).nextNonce.1) : i = j := by
  have hbytes : toLeBytes (UInt64.ofNat i) = toLeBytes (UInt64.ofNat j) := by
    have hlist := congrArg Vector.toList h
    simp only [nextNonce, before, Vector.toList_append] at hlist
    exact Vector.toList_inj.mp (List.append_cancel_left hlist)
  have hcount := congrArg UInt64.toNat (toLeBytes_injective hbytes)
  rwa [UInt64.toNat_ofNat', UInt64.toNat_ofNat', Nat.mod_eq_of_lt hi, Nat.mod_eq_of_lt hj] at hcount

/-- What was encrypted under a nonce is the frame of that number. -/
theorem mem_sealLog {key : Key} {i : Nat} {cells : List (UInt8 × Bytes)} {n : Nonce} {pt : Bytes}
    (h : (n, pt) ∈ (before key i).sealLog cells) :
    ∃ j x, cells[j]? = some x ∧ n = (before key (i + j)).nextNonce.1 ∧ pt = x.1 :: x.2 := by
  induction cells generalizing i with
  | nil => cases h
  | cons x rest ih =>
      obtain ⟨kind, cell⟩ := x
      rw [sealLog, before_nextNonce] at h
      rcases List.mem_cons.mp h with heq | hrest
      · obtain ⟨rfl, rfl⟩ := Prod.mk.inj heq
        exact ⟨0, (kind, cell), rfl, rfl, rfl⟩
      · obtain ⟨j, x, hx, hn, hpt⟩ := ih hrest
        refine ⟨j + 1, x, hx, ?_, hpt⟩
        rw [hn, Nat.add_assoc, Nat.add_comm 1 j]

/-- What a successful opening decrypted. -/
theorem openFrame_eq_ok {c c' : FrameCipher} {frame : Bytes} {x : UInt8 × Bytes}
    (h : c.openFrame A frame = (.ok x, c')) :
    A.decrypt c.key c.nextNonce.1 frame = some (x.1 :: x.2) ∧ c' = c.nextNonce.2 := by
  rw [openFrame] at h
  split at h
  · cases h
  · cases h
  · next kind cell hdec =>
    obtain ⟨hok, rfl⟩ := Prod.mk.inj h
    obtain rfl := Except.ok.inj hok
    exact ⟨hdec, rfl⟩

end FrameCipher

end MixTor.Crypto
