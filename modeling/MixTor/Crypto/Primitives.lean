/-
  MixTor.Crypto.Primitives

  The cryptographic crates the code calls, as parameters: the ChaCha20-Poly1305
  AEAD and the keyed BLAKE3 hash.

  What the frame cipher relies on is `Aead.Lawful`: decryption undoes encryption
  under the same key and nonce, and a ciphertext is its plaintext plus a 16-byte
  tag.  The instances at the end are for evaluating the model on concrete bytes.
-/

import Mathlib.Data.List.Basic

namespace MixTor.Crypto

/-- `Vec<u8>`. -/
abbrev Bytes := List UInt8

/-- `[u8; 32]`. -/
abbrev Key := Vector UInt8 32

/-- The 12-byte AEAD nonce. -/
abbrev Nonce := Vector UInt8 12

/-- Length of the Poly1305 tag. -/
def tagLen : Nat := 16

/-- The AEAD of the `chacha20poly1305` crate. -/
structure Aead where
  encrypt : Key → Nonce → Bytes → Bytes
  decrypt : Key → Nonce → Bytes → Option Bytes

/-- What the frame cipher relies on. -/
structure Aead.Lawful (A : Aead) : Prop where
  decrypt_encrypt : ∀ k n pt, A.decrypt k n (A.encrypt k n pt) = some pt
  length_encrypt : ∀ k n pt, (A.encrypt k n pt).length = pt.length + tagLen

/-- An ideal AEAD as far as `key` was used: decryption succeeds only on what an
    encryption of the log, a list of nonces and plaintexts, has produced. -/
def Aead.OpensOnly (A : Aead) (key : Key) (log : List (Nonce × Bytes)) : Prop :=
  ∀ n ct pt, A.decrypt key n ct = some pt → (n, pt) ∈ log ∧ ct = A.encrypt key n pt

/-- The keyed hash of the `blake3` crate. -/
structure Blake3 where
  keyedHash : Key → Bytes → Vector UInt8 32

/-- An AEAD without secrecy, for evaluating the cipher on concrete frames: the
    tag is the nonce and four bytes of the key, checked when a frame is opened. -/
def Aead.tagOnly : Aead where
  encrypt k n pt := pt ++ (n.toList ++ k.toList.take 4)
  decrypt k n ct :=
    if ct.length < tagLen then none
    else if ct.drop (ct.length - tagLen) = n.toList ++ k.toList.take 4 then
      some (ct.take (ct.length - tagLen))
    else none

theorem Aead.tagOnly_lawful : Aead.tagOnly.Lawful := by
  have hlen : ∀ (k : Key) (n : Nonce), (n.toList ++ k.toList.take 4).length = tagLen := by
    intro k n
    simp [tagLen]
  constructor
  · intro k n pt
    simp only [tagOnly]
    have hcut : (pt ++ (n.toList ++ k.toList.take 4)).length - tagLen = pt.length := by
      rw [List.length_append, hlen]
      omega
    rw [if_neg (by rw [List.length_append, hlen]; omega), hcut,
      if_pos (List.drop_left ..), List.take_left]
  · intro k n pt
    rw [tagOnly, List.length_append, hlen]

/-- An AEAD that opens exactly the ciphertexts of a log. -/
def Aead.ofLog (log : List (Nonce × Bytes)) : Aead where
  encrypt := Aead.tagOnly.encrypt
  decrypt k n ct :=
    (log.find? fun e => e.1 = n ∧ ct = Aead.tagOnly.encrypt k n e.2).map Prod.snd

theorem Aead.ofLog_opensOnly (key : Key) (log : List (Nonce × Bytes)) :
    (Aead.ofLog log).OpensOnly key log := by
  intro n ct pt h
  obtain ⟨⟨n', pt'⟩, hfind, rfl⟩ := Option.map_eq_some_iff.mp h
  have hmem := List.mem_of_find?_eq_some hfind
  have hhit := List.find?_some hfind
  simp only [decide_eq_true_eq] at hhit
  obtain ⟨rfl, hct⟩ := hhit
  exact ⟨hmem, hct⟩

/-- A keyed hash for evaluating the handshake on concrete bytes. -/
def Blake3.sumBytes : Blake3 where
  keyedHash key data := key.map (· + data.foldl (· + ·) 0)

end MixTor.Crypto
