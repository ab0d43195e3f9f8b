/-
  MixTor.Crypto.Handshake

  The two roles of the ntor-style handshake (`client_handshake` and
  `server_handshake` in crypto.rs).

  Each side sends the Elligator2 representative of an ephemeral key inside a
  marked message, the server adds an authentication tag to its own, and both
  derive the keys of the two directions from two Diffie-Hellman outputs and the
  transcript.  The curve and BLAKE3 are external crates, parameters here; the
  randomness of a run is an argument.
-/

import MixTor.Crypto.MarkedVerdict
import Mathlib.Data.Set.Function

namespace MixTor.Crypto

/-- The X25519 functions of the `x25519-dalek` and `curve25519-elligator2` crates. -/
structure Curve where
  /-- `PublicKey::from`. -/
  publicKey : Key → Key
  /-- `MontgomeryPoint::mul_clamped`, the point first. -/
  mulClamped : Key → Key → Key
  /-- `Randomized::to_representative` of a private key and a tweak. -/
  toRepresentative : Key → UInt8 → Option Key
  /-- `MontgomeryPoint::from_representative`. -/
  fromRepresentative : Key → Option Key

/-- The `blake3` crate with its key derivation mode. -/
structure Blake3Kdf extends Blake3 where
  deriveKey : String → Bytes → Key

/-- Retry budget for a representable ephemeral key. -/
def elligatorRetryLimit : Nat := 64

def protoId : String := "mixtor-ntor-v1"
def ctxKeyExtract : String := "mixtor-ntor-v1:key_extract"
def ctxC2s : String := "mixtor-ntor-v1:c2s"
def ctxS2c : String := "mixtor-ntor-v1:s2c"
def authLabel : String := "mixtor-ntor-v1:server-auth"
def ctxIdentityMac : String := "mixtor-probe-v1:identity-mac"

/-- The bytes of a string literal. -/
def literalBytes (s : String) : Bytes := s.toUTF8.data.toList

/-- `copy_from_slice` of a 32-byte slice. -/
def toKey (b : Bytes) : Key := Vector.ofFn fun i => b.getD i 0

/-- The server's long-term identity. -/
structure StaticKeypair (C : Curve) where
  secretBytes : Key
  publicBytes : Key
  publicBytes_eq : publicBytes = C.publicKey secretBytes

/-- Up to 64 draws, until a private key has a representative.  `none` is the
    panic of a generator that finds none. -/
def genRepresentableEphemeral (C : Curve) (tweak : UInt8)
    (draws : Vector Key elligatorRetryLimit) : Option (Key × Key) :=
  draws.toList.findSome? fun priv => (C.toRepresentative priv tweak).map fun repr => (priv, repr)

/-- An ephemeral key as the generator returns it. -/
structure Ephemeral (C : Curve) where
  priv : Key
  repr : Key
  generated : ∃ tweak draws, genRepresentableEphemeral C tweak draws = some (priv, repr)

def decodeRepresentative (C : Curve) (repr : Key) : Option Key := C.fromRepresentative repr

def dh (C : Curve) (point scalar : Key) : Key := C.mulClamped point scalar

def dhIsZero (out : Key) : Bool := out.toList.all (· == 0)

/-- What both roles feed into the derivation. -/
structure Transcript where
  dh1 : Key
  dh2 : Key
  bPub : Key
  xRepr : Key
  yRepr : Key
  deriving DecidableEq

namespace Transcript

variable (H : Blake3Kdf) (t : Transcript)

def secretInput : Bytes :=
  t.dh1.toList ++ t.dh2.toList ++ t.bPub.toList ++ t.xRepr.toList ++ t.yRepr.toList
    ++ literalBytes protoId

def keySeed : Key := H.deriveKey ctxKeyExtract t.secretInput

/-- The client→server key. -/
def kC2s : Key := H.deriveKey ctxC2s (t.keySeed H).toList

/-- The server→client key. -/
def kS2c : Key := H.deriveKey ctxS2c (t.keySeed H).toList

def authIn : Bytes :=
  literalBytes authLabel ++ t.bPub.toList ++ t.xRepr.toList ++ t.yRepr.toList

/-- The server-auth tag. -/
def auth : Key := H.keyedHash (t.keySeed H) t.authIn

end Transcript

/-- `(k_c2s, k_s2c, server_auth)`. -/
def deriveSession (H : Blake3Kdf) (dh1 dh2 bPub xRepr yRepr : Key) : Key × Key × Key :=
  let t : Transcript := ⟨dh1, dh2, bPub, xRepr, yRepr⟩
  (t.kC2s H, t.kS2c H, t.auth H)

def identityMacKey (H : Blake3Kdf) (serverPub : Key) : Key :=
  H.deriveKey ctxIdentityMac serverPub.toList

/-- `write_all` and `flush` of a message: they succeed, or fail behind some bytes. -/
inductive WriteAll where
  | done
  | failed (n : Nat)
  deriving DecidableEq, Repr

/-- A run of one role. -/
structure HandshakeRun where
  /-- The send and the receive cipher. -/
  result : Except HandshakeError (FrameCipher × FrameCipher)
  written : Bytes
  /-- The reads that were not consumed. -/
  unreadReads : List StreamRead
  /-- What the session was derived from. -/
  transcript : Option Transcript

/-- The client's role, configured with `serverStaticPub`. -/
def clientHandshake (C : Curve) (H : Blake3Kdf) (serverStaticPub : Key) (x : Ephemeral C)
    (pad : HsPad) (secs : Nat) (write : WriteAll) (now : Int → Nat) (reads : List StreamRead) :
    HandshakeRun :=
  let macKey := identityMacKey H serverStaticPub
  let msg := buildMarkedMessage H.toBlake3 macKey x.repr.toList pad secs
  match write with
  | .failed n => ⟨.error .io, msg.take n, reads, none⟩
  | .done =>
      match readMarkedMessage H.toBlake3 macKey (pubkeyLen + authLen) now [] reads with
      | (.error e, rest) => ⟨.error e, msg, rest, none⟩
      | (.ok pfx, rest) =>
          let yRepr := toKey (pfx.take pubkeyLen)
          let recvAuth := toKey ((pfx.drop pubkeyLen).take authLen)
          match decodeRepresentative C yRepr with
          | none => ⟨.error .nonContributory, msg, rest, none⟩
          | some yPoint =>
              let dh1 := dh C yPoint x.priv
              let dh2 := dh C serverStaticPub x.priv
              if dhIsZero dh1 || dhIsZero dh2 then ⟨.error .nonContributory, msg, rest, none⟩
              else
                let (kC2s, kS2c, auth) := deriveSession H dh1 dh2 serverStaticPub x.repr yRepr
                let transcript := some ⟨dh1, dh2, serverStaticPub, x.repr, yRepr⟩
                if auth = recvAuth then ⟨.ok (.new kC2s, .new kS2c), msg, rest, transcript⟩
                else ⟨.error .badServerAuth, msg, rest, transcript⟩

/-- What the server derives from the client's `x_repr`. -/
def serverDerive (C : Curve) (staticKp : StaticKeypair C) (y : Ephemeral C) (pfx : Bytes) :
    Except HandshakeError Transcript :=
  let xRepr := toKey (pfx.take pubkeyLen)
  match decodeRepresentative C xRepr with
  | none => .error .nonContributory
  | some xPoint =>
      let dh1 := dh C xPoint y.priv
      let dh2 := dh C xPoint staticKp.secretBytes
      if dhIsZero dh1 || dhIsZero dh2 then .error .nonContributory
      else .ok ⟨dh1, dh2, staticKp.publicBytes, xRepr, y.repr⟩

/-- The server's role with its identity.  The client's message is checked before
    anything is derived or written. -/
def serverHandshake (C : Curve) (H : Blake3Kdf) (staticKp : StaticKeypair C) (y : Ephemeral C)
    (pad : HsPad) (secs : Nat) (write : WriteAll) (now : Int → Nat) (reads : List StreamRead) :
    HandshakeRun :=
  let macKey := identityMacKey H staticKp.publicBytes
  match readMarkedMessage H.toBlake3 macKey pubkeyLen now [] reads with
  | (.error e, rest) => ⟨.error e, [], rest, none⟩
  | (.ok pfx, rest) =>
      match serverDerive C staticKp y pfx with
      | .error e => ⟨.error e, [], rest, none⟩
      | .ok t =>
          let (kC2s, kS2c, auth) := deriveSession H t.dh1 t.dh2 t.bPub t.xRepr t.yRepr
          let msg := buildMarkedMessage H.toBlake3 macKey (t.yRepr.toList ++ auth.toList) pad secs
          match write with
          | .failed n => ⟨.error .io, msg.take n, rest, some t⟩
          | .done => ⟨.ok (.new kS2c, .new kC2s), msg, rest, some t⟩

-- ============================================================================
-- Bytes
-- ============================================================================

@[simp] theorem toKey_toList (k : Key) : toKey k.toList = k := by
  ext i hi
  simp [toKey]

theorem toList_toKey {b : Bytes} (h : b.length = 32) : (toKey b).toList = b := by
  apply List.ext_getElem
  · simp [h]
  · intro i hi hb
    simp [toKey, hb]

/-- Two lists of keys that spell the same bytes are the same. -/
theorem toList_append_inj {k k' : Key} {bs bs' : Bytes} (h : k.toList ++ bs = k'.toList ++ bs') :
    k = k' ∧ bs = bs' := by
  obtain ⟨hk, hbs⟩ := List.append_inj h (by rw [Vector.length_toList, Vector.length_toList])
  exact ⟨Vector.toList_inj.mp hk, hbs⟩

/-- The tag's input determines the bridge key and both representatives. -/
theorem Transcript.authIn_inj {t t' : Transcript} (h : t.authIn = t'.authIn) :
    t.bPub = t'.bPub ∧ t.xRepr = t'.xRepr ∧ t.yRepr = t'.yRepr := by
  simp only [authIn, List.append_assoc] at h
  obtain ⟨hb, hxy⟩ := toList_append_inj (List.append_cancel_left h)
  obtain ⟨hx, hy⟩ := toList_append_inj hxy
  exact ⟨hb, hx, Vector.toList_inj.mp hy⟩

/-- Cutting `y_repr | auth` where the client cuts it. -/
theorem splitReply {pfx : Bytes} (h : pfx.length = pubkeyLen + authLen) :
    pfx = (toKey (pfx.take pubkeyLen)).toList ++ (toKey ((pfx.drop pubkeyLen).take authLen)).toList := by
  have hrepr : (pfx.take pubkeyLen).length = 32 := by
    rw [List.length_take, h]
    rfl
  have hauth : (pfx.drop pubkeyLen).take authLen = pfx.drop pubkeyLen := by
    apply List.take_of_length_le
    rw [List.length_drop, h, Nat.add_sub_cancel_left]
  have hrest : ((pfx.drop pubkeyLen).take authLen).length = 32 := by
    rw [hauth, List.length_drop, h]
    rfl
  rw [toList_toKey hrepr, toList_toKey hrest, hauth, List.take_append_drop]

-- ============================================================================
-- The roles
-- ============================================================================

/-- What the server-auth tag of a run was computed from. -/
def HandshakeRun.authInputs (H : Blake3Kdf) (r : HandshakeRun) : Set (Key × Bytes) :=
  {i | ∃ t, r.transcript = some t ∧ i = (t.keySeed H, t.authIn)}

section Roles

variable {C : Curve} {H : Blake3Kdf}

/-- A client that returns `Ok` has received the tag of its own transcript. -/
theorem clientHandshake_ok {serverStaticPub : Key} {x : Ephemeral C} {pad : HsPad} {secs : Nat}
    {write : WriteAll} {now : Int → Nat} {reads : List StreamRead} {send recv : FrameCipher}
    (hok : (clientHandshake C H serverStaticPub x pad secs write now reads).result
      = .ok (send, recv)) :
    ∃ t rest,
      (clientHandshake C H serverStaticPub x pad secs write now reads).transcript = some t ∧
      readMarkedMessage H.toBlake3 (identityMacKey H serverStaticPub) (pubkeyLen + authLen) now []
          reads = (.ok (t.yRepr.toList ++ (t.auth H).toList), rest) ∧
      t.bPub = serverStaticPub ∧ t.xRepr = x.repr ∧
      send = .new (t.kC2s H) ∧ recv = .new (t.kS2c H) := by
  unfold clientHandshake at hok ⊢
  cases write with
  | failed n => cases hok
  | done =>
      simp only at hok ⊢
      split at hok
      · cases hok
      · next pfx rest hread =>
        rw [hread]
        split at hok
        · cases hok
        · split at hok
          · cases hok
          · next hzero =>
            rw [if_neg hzero]
            generalize hsession : deriveSession H _ _ _ _ _ = session at hok ⊢
            obtain ⟨kC2s, kS2c, auth⟩ := session
            split at hok
            · next hauth =>
              obtain ⟨rfl, rfl⟩ := Prod.mk.inj (Except.ok.inj hok)
              rw [if_pos hauth]
              simp only [deriveSession, Prod.mk.injEq] at hsession
              obtain ⟨rfl, rfl, rfl⟩ := hsession
              refine ⟨_, rest, rfl, ?_, rfl, rfl, rfl, rfl⟩
              simp only at hauth ⊢
              rw [hauth, ← splitReply (readMarkedMessage_ok_length hread)]
            · cases hok

/-- The server derives from its own identity and its own ephemeral key. -/
theorem serverDerive_ok {staticKp : StaticKeypair C} {y : Ephemeral C} {pfx : Bytes}
    {t : Transcript} (h : serverDerive C staticKp y pfx = .ok t) :
    t.bPub = staticKp.publicBytes ∧ t.xRepr = toKey (pfx.take pubkeyLen) ∧ t.yRepr = y.repr := by
  simp only [serverDerive] at h
  split at h
  · cases h
  · split at h
    · cases h
    · obtain rfl := Except.ok.inj h
      exact ⟨rfl, rfl, rfl⟩

/-- A server that has computed a tag has computed it for its own key. -/
theorem serverHandshake_transcript {staticKp : StaticKeypair C} {y : Ephemeral C} {pad : HsPad}
    {secs : Nat} {write : WriteAll} {now : Int → Nat} {reads : List StreamRead} {t : Transcript}
    (ht : (serverHandshake C H staticKp y pad secs write now reads).transcript = some t) :
    t.bPub = staticKp.publicBytes ∧ t.yRepr = y.repr ∧
      ∀ send recv, (serverHandshake C H staticKp y pad secs write now reads).result
        = .ok (send, recv) → send = .new (t.kS2c H) ∧ recv = .new (t.kC2s H) := by
  unfold serverHandshake at ht ⊢
  simp only at ht ⊢
  split at ht
  · cases ht
  · split at ht
    · cases ht
    · next t' hderive =>
      obtain ⟨hb, -, hy⟩ := serverDerive_ok hderive
      cases write with
      | failed n =>
          obtain rfl := Option.some.inj ht
          exact ⟨hb, hy, nofun⟩
      | done =>
          obtain rfl := Option.some.inj ht
          refine ⟨hb, hy, ?_⟩
          intro send recv hres
          obtain ⟨rfl, rfl⟩ := Prod.mk.inj (Except.ok.inj hres)
          exact ⟨rfl, rfl⟩

/-- **Agreement.** Take a client that returns `Ok`, and the representative and the
    tag it has received.  Every server run that has computed that tag has used the
    client's representative, the representative the client received and the bridge
    key the client was configured with, and the keys of the two ends are the same
    with the directions matched.  `S` holds the inputs on which the keyed hash has
    no collision; those of the two tags must be among them. -/
theorem clientHandshake_agrees (C : Curve) (H : Blake3Kdf) (S : Set (Key × Bytes))
    (hS : Set.InjOn (fun i : Key × Bytes => H.keyedHash i.1 i.2) S)
    (serverStaticPub : Key) (x : Ephemeral C) (pad : HsPad) (secs : Nat) (write : WriteAll)
    (now : Int → Nat) (reads : List StreamRead) (send recv : FrameCipher)
    (hclient :
      (clientHandshake C H serverStaticPub x pad secs write now reads).authInputs H ⊆ S)
    (hok : (clientHandshake C H serverStaticPub x pad secs write now reads).result
      = .ok (send, recv)) :
    ∃ (yRepr auth : Key) (rest : List StreamRead),
      readMarkedMessage H.toBlake3 (identityMacKey H serverStaticPub) (pubkeyLen + authLen) now []
          reads = (.ok (yRepr.toList ++ auth.toList), rest) ∧
      ∀ (staticKp : StaticKeypair C) (y : Ephemeral C) (pad' : HsPad) (secs' : Nat)
        (write' : WriteAll) (now' : Int → Nat) (reads' : List StreamRead) (t : Transcript),
        (serverHandshake C H staticKp y pad' secs' write' now' reads').authInputs H ⊆ S →
        (serverHandshake C H staticKp y pad' secs' write' now' reads').transcript = some t →
        t.auth H = auth →
        t.xRepr = x.repr ∧ t.yRepr = yRepr ∧ y.repr = yRepr ∧
          staticKp.publicBytes = serverStaticPub ∧
          send = .new (t.kC2s H) ∧ recv = .new (t.kS2c H) ∧
          ∀ send' recv',
            (serverHandshake C H staticKp y pad' secs' write' now' reads').result
              = .ok (send', recv') → send = recv' ∧ recv = send' := by
  obtain ⟨tc, rest, htc, hread, hbc, hxc, rfl, rfl⟩ := clientHandshake_ok hok
  refine ⟨tc.yRepr, tc.auth H, rest, hread, ?_⟩
  intro staticKp y pad' secs' write' now' reads' t hserver ht hauth
  obtain ⟨hbs, hys, hkeys⟩ := serverHandshake_transcript ht
  -- one tag, so one key seed and one transcript
  have hinput : (t.keySeed H, t.authIn) = (tc.keySeed H, tc.authIn) :=
    hS (hserver ⟨t, ht, rfl⟩) (hclient ⟨tc, htc, rfl⟩) hauth
  obtain ⟨hseed, hin⟩ := Prod.mk.inj hinput
  obtain ⟨hb, hx, hy⟩ := Transcript.authIn_inj hin
  have hc2s : t.kC2s H = tc.kC2s H := by rw [Transcript.kC2s, Transcript.kC2s, hseed]
  have hs2c : t.kS2c H = tc.kS2c H := by rw [Transcript.kS2c, Transcript.kS2c, hseed]
  refine ⟨hx.trans hxc, hy, hys.symm.trans hy, hbs.symm.trans (hb.trans hbc), ?_, ?_, ?_⟩
  · rw [hc2s]
  · rw [hs2c]
  · intro send' recv' hres
    obtain ⟨rfl, rfl⟩ := hkeys send' recv' hres
    exact ⟨by rw [hc2s], by rw [hs2c]⟩

end Roles

-- ============================================================================
-- An honest run
-- ============================================================================

/-- The two roles' computations of a Diffie-Hellman output agree. -/
structure Curve.Commutes (C : Curve) : Prop where
  decodes : ∀ {priv repr : Key} {tweak : UInt8}, C.toRepresentative priv tweak = some repr →
    ∃ point, C.fromRepresentative repr = some point
  ephemeral : ∀ {x y xRepr yRepr xPoint yPoint : Key} {u v : UInt8},
    C.toRepresentative x u = some xRepr → C.fromRepresentative xRepr = some xPoint →
    C.toRepresentative y v = some yRepr → C.fromRepresentative yRepr = some yPoint →
    C.mulClamped yPoint x = C.mulClamped xPoint y
  static : ∀ {x b xRepr xPoint : Key} {u : UInt8},
    C.toRepresentative x u = some xRepr → C.fromRepresentative xRepr = some xPoint →
    C.mulClamped (C.publicKey b) x = C.mulClamped xPoint b

section Honest

variable {C : Curve} {H : Blake3Kdf}

/-- What a generator returns has a representative. -/
theorem Ephemeral.toRepresentative (x : Ephemeral C) :
    ∃ tweak, C.toRepresentative x.priv tweak = some x.repr := by
  obtain ⟨tweak, draws, h⟩ := x.generated
  obtain ⟨priv, -, hpriv⟩ := List.exists_of_findSome?_eq_some h
  obtain ⟨repr, hrepr, heq⟩ := Option.map_eq_some_iff.mp hpriv
  obtain ⟨rfl, rfl⟩ := Prod.mk.inj heq
  exact ⟨tweak, hrepr⟩

/-- The client writes its message before it reads anything. -/
theorem clientHandshake_written {serverStaticPub : Key} {x : Ephemeral C} {pad : HsPad} {secs : Nat}
    {now : Int → Nat} {reads : List StreamRead} :
    (clientHandshake C H serverStaticPub x pad secs .done now reads).written
      = buildMarkedMessage H.toBlake3 (identityMacKey H serverStaticPub) x.repr.toList pad secs := by
  unfold clientHandshake
  simp only
  split
  · rfl
  · split
    · rfl
    · split
      · rfl
      · split <;> rfl

/-- The transcript of an honest run, as the server computes it. -/
def honestTranscript (staticKp : StaticKeypair C) (x y : Ephemeral C) (xPoint : Key) : Transcript :=
  ⟨dh C xPoint y.priv, dh C xPoint staticKp.secretBytes, staticKp.publicBytes, x.repr, y.repr⟩

/-- A reader in the hour of the message accepts it, however it is cut. -/
theorem readMarkedMessage_honest {macKey : Key} {pfx : Bytes} {pad : HsPad} {secs n : Nat}
    {now : Int → Nat} {reads : List Bytes} {R : Bytes} (hlen : pfx.length = n)
    (hmin : pubkeyLen ≤ n) (hmax : n ≤ pubkeyLen + authLen)
    (hmark : MarkNotEarly H.toBlake3 macKey pfx pad) (hnow : now 0 = secs)
    (hne : ∀ r ∈ reads, r ≠ [])
    (hcat : reads.flatten = buildMarkedMessage H.toBlake3 macKey pfx pad secs ++ R) :
    ∃ rest, readMarkedMessage H.toBlake3 macKey n now [] (reads.map .bytes) = (.ok pfx, rest) := by
  subst hlen
  have hok : (readMarkedMessage H.toBlake3 macKey pfx.length now [] (reads.map .bytes)).1
      = .ok pfx := by
    rw [readMarkedMessage_eq hmin hmax hmark hne hcat, markedVerdict_of_same_clock hnow]
  exact ⟨_, Prod.ext hok rfl⟩

/-- A server that reads the client's message replies with its tag and holds the
    session's keys. -/
theorem serverHandshake_honest {staticKp : StaticKeypair C} {x y : Ephemeral C} {xPoint : Key}
    {pad pad' : HsPad} {secs secs' : Nat} {now : Int → Nat} {reads : List Bytes} {R : Bytes}
    (hpoint : C.fromRepresentative x.repr = some xPoint)
    (hzero : (dhIsZero (dh C xPoint y.priv) || dhIsZero (dh C xPoint staticKp.secretBytes)) = false)
    (hmark : MarkNotEarly H.toBlake3 (identityMacKey H staticKp.publicBytes) x.repr.toList pad)
    (hnow : now 0 = secs) (hne : ∀ r ∈ reads, r ≠ [])
    (hcat : reads.flatten
      = buildMarkedMessage H.toBlake3 (identityMacKey H staticKp.publicBytes) x.repr.toList pad secs
          ++ R) :
    let t := honestTranscript staticKp x y xPoint
    let r := serverHandshake C H staticKp y pad' secs' .done now (reads.map .bytes)
    r.result = .ok (.new (t.kS2c H), .new (t.kC2s H)) ∧ r.transcript = some t ∧
      r.written = buildMarkedMessage H.toBlake3 (identityMacKey H staticKp.publicBytes)
        (y.repr.toList ++ (t.auth H).toList) pad' secs' := by
  have hlen : x.repr.toList.length = pubkeyLen := Vector.length_toList
  obtain ⟨rest, hread⟩ := readMarkedMessage_honest hlen (by decide) (by decide) hmark hnow hne hcat
  have htake : toKey (x.repr.toList.take pubkeyLen) = x.repr := by
    rw [← hlen, List.take_length, toKey_toList]
  simp only [serverHandshake, hread, serverDerive, htake, decodeRepresentative, hpoint, hzero,
    deriveSession]
  exact ⟨rfl, rfl, rfl⟩

/-- A client that reads the server's reply accepts its tag and holds the same
    keys. -/
theorem clientHandshake_honest (hC : C.Commutes) {staticKp : StaticKeypair C} {x y : Ephemeral C}
    {xPoint : Key} {pad pad' : HsPad} {secs secs' : Nat} {now : Int → Nat} {reads : List Bytes}
    {R : Bytes} (hpoint : C.fromRepresentative x.repr = some xPoint)
    (hzero : (dhIsZero (dh C xPoint y.priv) || dhIsZero (dh C xPoint staticKp.secretBytes)) = false)
    (hmark : MarkNotEarly H.toBlake3 (identityMacKey H staticKp.publicBytes)
      (y.repr.toList ++ ((honestTranscript staticKp x y xPoint).auth H).toList) pad')
    (hnow : now 0 = secs') (hne : ∀ r ∈ reads, r ≠ [])
    (hcat : reads.flatten
      = buildMarkedMessage H.toBlake3 (identityMacKey H staticKp.publicBytes)
          (y.repr.toList ++ ((honestTranscript staticKp x y xPoint).auth H).toList) pad' secs'
          ++ R) :
    let t := honestTranscript staticKp x y xPoint
    let r := clientHandshake C H staticKp.publicBytes x pad secs .done now (reads.map .bytes)
    r.result = .ok (.new (t.kC2s H), .new (t.kS2c H)) ∧ r.transcript = some t := by
  intro t
  have hylen : y.repr.toList.length = pubkeyLen := Vector.length_toList
  have halen : (t.auth H).toList.length = authLen := Vector.length_toList
  have hlen : (y.repr.toList ++ (t.auth H).toList).length = pubkeyLen + authLen := by
    rw [List.length_append, hylen, halen]
  obtain ⟨rest, hread⟩ := readMarkedMessage_honest hlen (by decide) (by decide) hmark hnow hne hcat
  have hrepr : toKey ((y.repr.toList ++ (t.auth H).toList).take pubkeyLen) = y.repr := by
    rw [← hylen, List.take_left, toKey_toList]
  have hauth : toKey (((y.repr.toList ++ (t.auth H).toList).drop pubkeyLen).take authLen)
      = t.auth H := by
    rw [← hylen, List.drop_left, ← halen, List.take_length, toKey_toList]
  obtain ⟨u, hx⟩ := x.toRepresentative
  obtain ⟨v, hy⟩ := y.toRepresentative
  obtain ⟨yPoint, hypoint⟩ := hC.decodes hy
  have hdh1 : dh C yPoint x.priv = dh C xPoint y.priv := hC.ephemeral hx hpoint hy hypoint
  have hdh2 : dh C staticKp.publicBytes x.priv = dh C xPoint staticKp.secretBytes := by
    rw [staticKp.publicBytes_eq]
    exact hC.static hx hpoint
  have htag : (deriveSession H (dh C xPoint y.priv) (dh C xPoint staticKp.secretBytes)
      staticKp.publicBytes x.repr y.repr).2.2 = t.auth H := rfl
  simp only [clientHandshake, hread, hrepr, hauth, decodeRepresentative, hypoint, hdh1, hdh2,
    hzero, htag]
  exact ⟨rfl, rfl⟩

/-- An exchange in which each side reads what the other has written completes, and
    the keys of the two ends match. -/
theorem handshake_honest (hC : C.Commutes) {staticKp : StaticKeypair C} {x y : Ephemeral C}
    {xPoint : Key} {pad pad' : HsPad} {secs secs' : Nat} {now now' : Int → Nat}
    {reads reads' : List Bytes} {R R' : Bytes} (hpoint : C.fromRepresentative x.repr = some xPoint)
    (hzero : (dhIsZero (dh C xPoint y.priv) || dhIsZero (dh C xPoint staticKp.secretBytes)) = false)
    (hmark : MarkNotEarly H.toBlake3 (identityMacKey H staticKp.publicBytes) x.repr.toList pad)
    (hmark' : MarkNotEarly H.toBlake3 (identityMacKey H staticKp.publicBytes)
      (y.repr.toList ++ ((honestTranscript staticKp x y xPoint).auth H).toList) pad')
    (hnow : now 0 = secs) (hnow' : now' 0 = secs') (hne : ∀ r ∈ reads, r ≠ [])
    (hne' : ∀ r ∈ reads', r ≠ [])
    (hcat : reads.flatten
      = (clientHandshake C H staticKp.publicBytes x pad secs .done now' (reads'.map .bytes)).written
        ++ R)
    (hcat' : reads'.flatten
      = (serverHandshake C H staticKp y pad' secs' .done now (reads.map .bytes)).written ++ R') :
    ∃ t, (serverHandshake C H staticKp y pad' secs' .done now (reads.map .bytes)).transcript = some t ∧
      (clientHandshake C H staticKp.publicBytes x pad secs .done now' (reads'.map .bytes)).transcript
        = some t ∧
      (serverHandshake C H staticKp y pad' secs' .done now (reads.map .bytes)).result
        = .ok (.new (t.kS2c H), .new (t.kC2s H)) ∧
      (clientHandshake C H staticKp.publicBytes x pad secs .done now' (reads'.map .bytes)).result
        = .ok (.new (t.kC2s H), .new (t.kS2c H)) := by
  rw [clientHandshake_written] at hcat
  obtain ⟨hserver, hst, hwritten⟩ := serverHandshake_honest hpoint hzero hmark hnow hne hcat
  rw [hwritten] at hcat'
  obtain ⟨hclient, hct⟩ := clientHandshake_honest hC hpoint hzero hmark' hnow' hne' hcat'
  exact ⟨_, hst, hct, hserver, hclient⟩

end Honest

/-- A curve without secrecy, for evaluating the handshake on concrete keys. -/
def Curve.sum : Curve where
  publicKey secret := secret
  mulClamped point scalar := Vector.ofFn fun i => point[i] + scalar[i]
  toRepresentative priv _ := some priv
  fromRepresentative repr := some repr

theorem Curve.sum_commutes : Curve.sum.Commutes := by
  have hcomm : ∀ a b : Key, Curve.sum.mulClamped a b = Curve.sum.mulClamped b a := by
    intro a b
    apply Vector.ext
    intro i hi
    simp only [Curve.sum, Vector.getElem_ofFn]
    exact UInt8.add_comm _ _
  constructor
  · intro priv repr tweak _
    exact ⟨repr, rfl⟩
  · intro x y xRepr yRepr xPoint yPoint u v hx hxp hy hyp
    cases hx
    cases hxp
    cases hy
    cases hyp
    exact hcomm _ _
  · intro x b xRepr xPoint u hx hxp
    cases hx
    cases hxp
    exact hcomm _ _

/-- Sums for the derivations. -/
def Blake3Kdf.sumBytes : Blake3Kdf :=
  { Blake3.sumBytes with
    deriveKey := fun context data =>
      Vector.replicate 32 (data.foldl (· + ·) (UInt8.ofNat context.length)) }

def sampleEphemeral (k : Key) : Ephemeral Curve.sum where
  priv := k
  repr := k
  generated := ⟨0, Vector.replicate elligatorRetryLimit k, by
    simp [genRepresentableEphemeral, Curve.sum, elligatorRetryLimit]⟩

def sampleKeypair : StaticKeypair Curve.sum := ⟨Vector.replicate 32 3, Vector.replicate 32 3, rfl⟩

def sampleX : Ephemeral Curve.sum := sampleEphemeral (Vector.replicate 32 5)
def sampleY : Ephemeral Curve.sum := sampleEphemeral (Vector.replicate 32 9)

def sampleMacKey : Key := identityMacKey .sumBytes sampleKeypair.publicBytes

/-- The client's message of the sample exchange. -/
def sampleRequest : Bytes :=
  buildMarkedMessage Blake3Kdf.sumBytes.toBlake3 sampleMacKey sampleX.repr.toList .none 0

/-- The server's message of the sample exchange. -/
def sampleAnswer : Bytes :=
  buildMarkedMessage Blake3Kdf.sumBytes.toBlake3 sampleMacKey
    (sampleY.repr.toList
      ++ ((honestTranscript sampleKeypair sampleX sampleY sampleX.repr).auth .sumBytes).toList) .none 0

/-- A server that reads the sample request. -/
def sampleServer : HandshakeRun :=
  serverHandshake .sum .sumBytes sampleKeypair sampleY .none 0 .done (fun _ => 0)
    ([sampleRequest].map .bytes)

/-- A client that reads the sample answer. -/
def sampleClient : HandshakeRun :=
  clientHandshake .sum .sumBytes sampleKeypair.publicBytes sampleX .none 0 .done (fun _ => 0)
    ([sampleAnswer].map .bytes)

/-- A message read at once. -/
theorem buildMarkedMessage_singleton (H : Blake3) (macKey : Key) (pfx : Bytes) (pad : HsPad)
    (secs : Nat) :
    (∀ r ∈ [buildMarkedMessage H macKey pfx pad secs], r ≠ []) ∧
      [buildMarkedMessage H macKey pfx pad secs].flatten
        = buildMarkedMessage H macKey pfx pad secs ++ [] := by
  refine ⟨?_, ?_⟩
  · intro r hr hnil
    obtain rfl := List.mem_singleton.mp hr
    have hlen := buildMarkedMessage_length H macKey pfx pad secs
    rw [hnil, List.length_nil, markLen] at hlen
    omega
  · rw [List.flatten_cons, List.flatten_nil]

/-- The sample exchange completes. -/
theorem sampleHandshake_ok :
    ∃ t, sampleServer.transcript = some t ∧ sampleClient.transcript = some t ∧
      sampleServer.result = .ok (.new (t.kS2c .sumBytes), .new (t.kC2s .sumBytes)) ∧
      sampleClient.result = .ok (.new (t.kC2s .sumBytes), .new (t.kS2c .sumBytes)) := by
  have hzero : (dhIsZero (dh Curve.sum sampleX.repr sampleY.priv)
      || dhIsZero (dh Curve.sum sampleX.repr sampleKeypair.secretBytes)) = false := by
    decide
  have hrequest : (∀ r ∈ [sampleRequest], r ≠ []) ∧ [sampleRequest].flatten = sampleRequest ++ [] :=
    buildMarkedMessage_singleton ..
  have hanswer : (∀ r ∈ [sampleAnswer], r ≠ []) ∧ [sampleAnswer].flatten = sampleAnswer ++ [] :=
    buildMarkedMessage_singleton ..
  obtain ⟨-, -, hwritten⟩ := @serverHandshake_honest .sum .sumBytes sampleKeypair sampleX sampleY
    sampleX.repr .none .none 0 0 (fun _ => 0) [sampleRequest] [] rfl hzero
    (markNotEarly_of_no_pad _ _ _) rfl hrequest.1 hrequest.2
  exact @handshake_honest .sum .sumBytes Curve.sum_commutes sampleKeypair sampleX sampleY
    sampleX.repr .none .none 0 0 (fun _ => 0) (fun _ => 0) [sampleRequest] [sampleAnswer] [] [] rfl
    hzero (markNotEarly_of_no_pad _ _ _) (markNotEarly_of_no_pad _ _ _) rfl rfl hrequest.1 hanswer.1
    (by rw [clientHandshake_written]; exact hrequest.2) (by rw [hwritten]; exact hanswer.2)

/-- The sample exchange: the two ends hold the same keys. -/
theorem clientHandshake_agrees_sample :
    ∃ send recv, sampleClient.result = .ok (send, recv) ∧ sampleServer.result = .ok (recv, send) := by
  obtain ⟨t, hserver, hclient, hsent, hgot⟩ := sampleHandshake_ok
  -- both ends hash one input
  have hsub : ∀ r : HandshakeRun, r.transcript = some t →
      r.authInputs .sumBytes ⊆ {(t.keySeed .sumBytes, t.authIn)} := by
    rintro r hr i ⟨t', ht', rfl⟩
    obtain rfl : t = t' := Option.some.inj (hr.symm.trans ht')
    exact rfl
  obtain ⟨yRepr, auth, rest, hread, hall⟩ := clientHandshake_agrees .sum .sumBytes
    {(t.keySeed .sumBytes, t.authIn)} (Set.injOn_singleton _ _) sampleKeypair.publicBytes sampleX .none 0
    .done (fun _ => 0) ([sampleAnswer].map .bytes) _ _ (hsub _ hclient) hgot
  have hauth : t.auth .sumBytes = auth := by
    obtain ⟨t', rest', ht', hread', -⟩ := clientHandshake_ok hgot
    obtain rfl : t = t' := Option.some.inj (hclient.symm.trans ht')
    have hsame := Except.ok.inj (Prod.mk.inj (hread'.symm.trans hread)).1
    exact Vector.toList_inj.mp (toList_append_inj hsame).2
  obtain ⟨-, -, -, -, -, -, hkeys⟩ := hall sampleKeypair sampleY .none 0 .done (fun _ => 0)
    ([sampleRequest].map .bytes) t (hsub _ hserver) hserver hauth
  obtain ⟨hs, hr⟩ := hkeys _ _ hsent
  refine ⟨_, _, hgot, ?_⟩
  rw [hs, hr] at *
  exact hsent

end MixTor.Crypto
