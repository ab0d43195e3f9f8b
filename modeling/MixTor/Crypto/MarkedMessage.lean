/-
  MixTor.Crypto.MarkedMessage

  The obfs4-style handshake message `prefix | random_pad | MARK | MAC` and its
  reader (`build_marked_message`, `read_marked_message` in crypto.rs).

  The reader buffers whatever the stream hands it, up to 1024 bytes a read,
  looks for the MARK behind the prefix and returns the prefix once the MAC
  behind the MARK is complete and valid.  It drops the rest of its buffer: what
  a read delivered past the MAC is gone when the frame reader takes over.

  BLAKE3 is the external crate, a parameter; the clock of the reader is read
  once for each epoch offset it tries.
-/

import MixTor.Crypto.FrameCipher
import MixTor.Lib.Segments
import Mathlib.Data.List.Infix

namespace MixTor.Crypto

/-- Length of an Elligator2 representative. -/
def pubkeyLen : Nat := 32
def authLen : Nat := 32
def markLen : Nat := 16
def macLen : Nat := 16

/-- Hard cap on bytes read while looking for the MARK. -/
def maxHandshakeLen : Nat := 8192

/-- Max random padding added to each handshake message. -/
def hsMaxPad : Nat := 2048

/-- What `random_pad(HS_MAX_PAD)` can return. -/
abbrev HsPad := { pad : Bytes // pad.length ≤ hsMaxPad }

def HsPad.none : HsPad := ⟨[], Nat.zero_le _⟩

/-- Keyed hash truncated to 16 bytes. -/
def keyed16 (H : Blake3) (key : Key) (data : Bytes) : Bytes :=
  (H.keyedHash key data).toList.take 16

/-- The MARK, keyed over the ephemeral representative only. -/
def markValue (H : Blake3) (key : Key) (repr : Bytes) : Bytes := keyed16 H key repr

/-- The unix hour of a clock reading, shifted by `offset`, as ASCII digits. -/
def epochHourBytes (secs : Nat) (offset : Int) : Bytes :=
  (toString ((secs / 3600 : Nat) + offset : Int)).toUTF8.data.toList

/-- The MAC, keyed over `data | epoch`. -/
def macWithEpoch (H : Blake3) (key : Key) (data : Bytes) (secs : Nat) (offset : Int) : Bytes :=
  keyed16 H key (data ++ epochHourBytes secs offset)

/-- MAC check over the current hour and its neighbours; `now` gives the clock
    reading taken for each offset. -/
def verifyMacEpochs (H : Blake3) (key : Key) (data received : Bytes) (now : Int → Nat) : Bool :=
  [0, -1, 1].foldl
    (fun ok offset => ok || macWithEpoch H key data (now offset) offset == received) false

/-- First index of `needle` in `haystack`. -/
def findSubslice (haystack needle : Bytes) : Option Nat :=
  if needle = [] ∨ haystack.length < needle.length then none
  else (List.range (haystack.length - needle.length + 1)).find? fun i =>
    (haystack.drop i).take needle.length = needle

/-- Everything of a handshake message the MAC covers: `prefix | random_pad | MARK`. -/
def markedBody (H : Blake3) (macKey : Key) (pfx : Bytes) (pad : HsPad) : Bytes :=
  pfx ++ pad.1 ++ markValue H macKey (pfx.take pubkeyLen)

/-- Build a handshake message: `prefix | random_pad | MARK | MAC`. -/
def buildMarkedMessage (H : Blake3) (macKey : Key) (pfx : Bytes) (pad : HsPad) (secs : Nat) :
    Bytes :=
  markedBody H macKey pfx pad ++ macWithEpoch H macKey (markedBody H macKey pfx pad) secs 0

/-- One `read` on the stream: some bytes, or an I/O error.  The end of the list
    of reads is the end of the stream. -/
inductive StreamRead where
  | bytes (b : Bytes)
  | ioError
  deriving DecidableEq, Repr

/-- The bytes a list of reads still delivers. -/
def unread : List StreamRead → Bytes
  | [] => []
  | .bytes b :: rest => b ++ unread rest
  | .ioError :: rest => unread rest

/-- The body of the read loop before it reads on: search the buffer for the MARK
    and, once the MAC is complete, decide. -/
def scanBuffer (H : Blake3) (macKey : Key) (prefixLen : Nat) (now : Int → Nat) (buf : Bytes) :
    Option (Except HandshakeError Bytes) :=
  if prefixLen ≤ buf.length then
    match findSubslice (buf.drop prefixLen) (markValue H macKey (buf.take pubkeyLen)) with
    | some rel =>
        let markEnd := prefixLen + rel + markLen
        if markEnd + macLen ≤ buf.length then
          if verifyMacEpochs H macKey (buf.take markEnd) ((buf.drop markEnd).take macLen) now then
            some (.ok (buf.take prefixLen))
          else some (.error .probeRejected)
        else none  -- MARK found but MAC not fully read yet
    | none => none
  else none

/-- Read a `prefix | pad | MARK | MAC` message, from a buffer already holding
    `buf`.  Also returns the reads that were not consumed. -/
def readMarkedMessage (H : Blake3) (macKey : Key) (prefixLen : Nat) (now : Int → Nat)
    (buf : Bytes) (reads : List StreamRead) :
    Except HandshakeError Bytes × List StreamRead :=
  match scanBuffer H macKey prefixLen now buf with
  | some verdict => (verdict, reads)
  | none =>
      if maxHandshakeLen ≤ buf.length then (.error .probeRejected, reads)
      else match reads with
        | [] => (.error .closed, [])
        | .ioError :: rest => (.error .io, rest)
        | .bytes b :: rest =>
            if b = [] then (.error .closed, rest)
            else readMarkedMessage H macKey prefixLen now (buf ++ b) rest

-- ============================================================================
-- First occurrences
-- ============================================================================

theorem findSubslice_eq_some {haystack needle : Bytes} {i : Nat} :
    findSubslice haystack needle = some i ↔
      needle ≠ [] ∧ needle <+: haystack.drop i ∧ ∀ j < i, ¬ needle <+: haystack.drop j := by
  unfold findSubslice
  by_cases hne : needle = []
  · simp [hne]
  have hpos : 0 < needle.length := List.length_pos_iff.mpr hne
  by_cases hlt : haystack.length < needle.length
  · rw [if_pos (.inr hlt)]
    refine ⟨nofun, fun ⟨_, hpre, _⟩ => ?_⟩
    have := hpre.length_le
    rw [List.length_drop] at this
    omega
  · rw [if_neg (by simp [hne, hlt]), List.find?_range_eq_some]
    simp only [decide_eq_true_eq, List.mem_range, Bool.not_eq_true', decide_eq_false_iff_not,
      List.prefix_iff_eq_take]
    constructor
    · rintro ⟨heq, -, hfirst⟩
      exact ⟨hne, heq.symm, fun j hj h => hfirst j hj h.symm⟩
    · rintro ⟨-, heq, hfirst⟩
      refine ⟨heq.symm, ?_, fun j hj h => hfirst j hj h.symm⟩
      have := congrArg List.length heq
      rw [List.length_take, List.length_drop] at this
      omega

theorem findSubslice_eq_none {haystack needle : Bytes}
    (h : ∀ i, ¬ needle <+: haystack.drop i) : findSubslice haystack needle = none := by
  cases hf : findSubslice haystack needle with
  | none => rfl
  | some i => exact absurd (findSubslice_eq_some.mp hf).2.1 (h i)

/-- An occurrence in a prefix of a stream is an occurrence in any longer prefix. -/
theorem prefix_drop_of_prefix {xs ys needle : Bytes} (h : xs <+: ys) {i : Nat}
    (hocc : needle <+: xs.drop i) : needle <+: ys.drop i :=
  hocc.trans (h.drop i)

/-- Searching a growing buffer: the needle that first occurs in `pre ++ needle`
    right after `pre` is found there in every prefix of the stream that already
    contains it, and nowhere before. -/
theorem findSubslice_prefix {pre needle rest buf : Bytes}
    (hfirst : findSubslice (pre ++ needle) needle = some pre.length)
    (hbuf : buf <+: pre ++ needle ++ rest) :
    findSubslice buf needle
      = if pre.length + needle.length ≤ buf.length then some pre.length else none := by
  obtain ⟨hne, -, hearly⟩ := findSubslice_eq_some.mp hfirst
  have hpos : 0 < needle.length := List.length_pos_iff.mpr hne
  -- an occurrence before `pre.length` would already be one in `pre ++ needle`
  have hnone : ∀ i < pre.length, ¬ needle <+: buf.drop i := by
    intro i hi hocc
    apply hearly i hi
    have hwhole := prefix_drop_of_prefix hbuf hocc
    rw [List.drop_append_of_le_length (by rw [List.length_append]; omega)] at hwhole
    refine List.prefix_of_prefix_length_le hwhole (List.prefix_append _ _) ?_
    rw [List.length_drop, List.length_append]
    omega
  split
  · next hle =>
    refine findSubslice_eq_some.mpr ⟨hne, ?_, hnone⟩
    have hhere : pre ++ needle <+: buf :=
      List.prefix_of_prefix_length_le (List.prefix_append _ _) hbuf (by simpa using hle)
    have := hhere.drop pre.length
    rwa [List.drop_left] at this
  · next hgt =>
    apply findSubslice_eq_none
    intro i hocc
    have hlen := hocc.length_le
    rw [List.length_drop] at hlen
    exact hnone i (by omega) hocc

-- ============================================================================
-- The reader on a handshake message followed by more bytes
-- ============================================================================

@[simp] theorem keyed16_length (H : Blake3) (key : Key) (data : Bytes) :
    (keyed16 H key data).length = 16 := by
  simp [keyed16]

@[simp] theorem markValue_length (H : Blake3) (key : Key) (repr : Bytes) :
    (markValue H key repr).length = markLen := keyed16_length H key repr

@[simp] theorem macWithEpoch_length (H : Blake3) (key : Key) (data : Bytes) (secs : Nat)
    (offset : Int) : (macWithEpoch H key data secs offset).length = macLen :=
  keyed16_length H key _

theorem markedBody_length (H : Blake3) (macKey : Key) (pfx : Bytes) (pad : HsPad) :
    (markedBody H macKey pfx pad).length = pfx.length + pad.1.length + markLen := by
  simp [markedBody]
  omega

theorem buildMarkedMessage_length (H : Blake3) (macKey : Key) (pfx : Bytes) (pad : HsPad)
    (secs : Nat) :
    (buildMarkedMessage H macKey pfx pad secs).length
      = pfx.length + pad.1.length + markLen + macLen := by
  rw [buildMarkedMessage, List.length_append, markedBody_length, macWithEpoch_length]

/-- The MARK does not occur by accident before its place behind the padding. -/
def MarkNotEarly (H : Blake3) (macKey : Key) (pfx : Bytes) (pad : HsPad) : Prop :=
  findSubslice (pad.1 ++ markValue H macKey (pfx.take pubkeyLen))
    (markValue H macKey (pfx.take pubkeyLen)) = some pad.1.length

@[simp] theorem unread_map_bytes (segs : List Bytes) :
    unread (segs.map .bytes) = segs.flatten := by
  induction segs with
  | nil => rfl
  | cons s segs ih => rw [List.map_cons, unread, ih, List.flatten_cons]

section Message

variable (H : Blake3) (macKey : Key) (pfx : Bytes) (pad : HsPad) (secs : Nat) (now : Int → Nat)

/-- What the reader decides about a message once it holds all of it. -/
def markedVerdict : Except HandshakeError Bytes :=
  if verifyMacEpochs H macKey (markedBody H macKey pfx pad)
      (macWithEpoch H macKey (markedBody H macKey pfx pad) secs 0) now then .ok pfx
  else .error .probeRejected

variable {H macKey pfx pad secs now}

/-- On any prefix of the stream the loop body waits until the message is
    complete and then gives the verdict, whatever follows the message. -/
theorem scanBuffer_prefix (hpfx : pubkeyLen ≤ pfx.length) (hmark : MarkNotEarly H macKey pfx pad)
    {R buf : Bytes} (hbuf : buf <+: buildMarkedMessage H macKey pfx pad secs ++ R) :
    scanBuffer H macKey pfx.length now buf
      = if (buildMarkedMessage H macKey pfx pad secs).length ≤ buf.length then
          some (markedVerdict H macKey pfx pad secs now)
        else none := by
  have hML := buildMarkedMessage_length H macKey pfx pad secs
  have hBL := markedBody_length H macKey pfx pad
  by_cases hp : pfx.length ≤ buf.length
  swap
  · rw [scanBuffer, if_neg hp, if_neg (by omega)]
  -- the buffer starts with the prefix, hence with the representative
  have hhead : pfx <+: buf := by
    refine List.prefix_of_prefix_length_le ?_ hbuf hp
    simp only [buildMarkedMessage, markedBody, List.append_assoc]
    exact List.prefix_append _ _
  obtain ⟨tail, rfl⟩ := hhead
  have htake : (pfx ++ tail).take pfx.length = pfx := List.take_left
  have hrepr : (pfx ++ tail).take pubkeyLen = pfx.take pubkeyLen :=
    List.take_append_of_le_length hpfx
  have htail : tail <+: pad.1 ++ markValue H macKey (pfx.take pubkeyLen)
      ++ (macWithEpoch H macKey (markedBody H macKey pfx pad) secs 0 ++ R) := by
    simpa [buildMarkedMessage, markedBody] using hbuf
  rw [scanBuffer, if_pos hp, List.drop_left, hrepr, findSubslice_prefix hmark htail,
    markValue_length]
  rw [List.length_append] at hp ⊢
  by_cases hmk : pad.1.length + markLen ≤ tail.length
  swap
  · rw [if_neg hmk, if_neg (by rw [hML]; omega)]
  rw [if_pos hmk]
  by_cases hmac : pfx.length + pad.1.length + markLen + macLen ≤ pfx.length + tail.length
  swap
  · rw [if_neg (by rw [hML]; exact hmac)]
    simp only [if_neg hmac]
  rw [if_pos (by rw [hML]; exact hmac)]
  simp only [if_pos hmac, htake]
  -- the message is complete, so body and MAC are the ones that were sent
  have hwhole : buildMarkedMessage H macKey pfx pad secs <+: pfx ++ tail := by
    refine List.prefix_of_prefix_length_le (List.prefix_append _ _) hbuf ?_
    rw [hML, List.length_append]
    exact hmac
  obtain ⟨more, hmore⟩ := hwhole
  have hbody : (pfx ++ tail).take (pfx.length + pad.1.length + markLen)
      = markedBody H macKey pfx pad := by
    rw [← hmore, buildMarkedMessage, List.append_assoc, ← hBL, List.take_left]
  have hrecv : ((pfx ++ tail).drop (pfx.length + pad.1.length + markLen)).take macLen
      = macWithEpoch H macKey (markedBody H macKey pfx pad) secs 0 := by
    rw [← hmore, buildMarkedMessage, List.append_assoc, ← hBL, List.drop_left,
      ← macWithEpoch_length H macKey (markedBody H macKey pfx pad) secs 0, List.take_left]
  rw [hbody, hrecv, markedVerdict]
  split <;> rfl

/-- The reader takes whole reads until it holds the message, gives the verdict
    and leaves the reads it did not need.  The induction is on the reads. -/
theorem readMarkedMessage_eq (hpfx : pubkeyLen ≤ pfx.length)
    (hshort : pfx.length ≤ pubkeyLen + authLen) (hmark : MarkNotEarly H macKey pfx pad)
    {R buf : Bytes} {reads : List Bytes} (hne : ∀ r ∈ reads, r ≠ [])
    (hcat : buf ++ reads.flatten = buildMarkedMessage H macKey pfx pad secs ++ R) :
    readMarkedMessage H macKey pfx.length now buf (reads.map .bytes)
      = (markedVerdict H macKey pfx pad secs now,
          (Segments.readsAfter
            ((buildMarkedMessage H macKey pfx pad secs).length - buf.length) reads).map .bytes) := by
  have hML := buildMarkedMessage_length H macKey pfx pad secs
  have hpad := pad.2
  have hpre : buf <+: buildMarkedMessage H macKey pfx pad secs ++ R := ⟨reads.flatten, hcat⟩
  induction reads generalizing buf with
  | nil =>
      simp only [List.flatten_nil, List.append_nil] at hcat
      have hle : (buildMarkedMessage H macKey pfx pad secs).length ≤ buf.length := by
        rw [hcat, List.length_append]
        omega
      rw [readMarkedMessage.eq_def, scanBuffer_prefix hpfx hmark hpre, if_pos hle,
        Nat.sub_eq_zero_of_le hle, Segments.readsAfter_zero]
  | cons r reads ih =>
      rw [readMarkedMessage.eq_def, scanBuffer_prefix hpfx hmark hpre]
      by_cases hle : (buildMarkedMessage H macKey pfx pad secs).length ≤ buf.length
      · rw [if_pos hle, Nat.sub_eq_zero_of_le hle, Segments.readsAfter_zero]
      · -- a message is at most 2144 bytes, so the byte cap cannot end the loop
        have hcap : ¬ maxHandshakeLen ≤ buf.length := by
          simp only [pubkeyLen, authLen, markLen, macLen, hsMaxPad, maxHandshakeLen] at *
          omega
        rw [if_neg hle, List.map_cons]
        simp only [if_neg hcap, if_neg (hne r List.mem_cons_self)]
        have hcat' : buf ++ r ++ reads.flatten = buildMarkedMessage H macKey pfx pad secs ++ R := by
          rw [← hcat, List.flatten_cons, List.append_assoc]
        rw [ih (fun r' hr' => hne r' (List.mem_cons_of_mem _ hr')) hcat' ⟨_, hcat'⟩,
          Segments.readsAfter_cons_of_pos (by omega), List.length_append, Nat.sub_sub]

end Message

/-- The MAC is accepted when it is the one of the current hour or of a neighbour,
    each as the clock showed it when that hour was tried. -/
theorem verifyMacEpochs_eq_true {H : Blake3} {key : Key} {data received : Bytes}
    {now : Int → Nat} :
    verifyMacEpochs H key data received now = true ↔
      macWithEpoch H key data (now 0) 0 = received ∨
        macWithEpoch H key data (now (-1)) (-1) = received ∨
        macWithEpoch H key data (now 1) 1 = received := by
  simp [verifyMacEpochs, or_assoc]

/-- A reader whose clock shows the hour the message was built in accepts it. -/
theorem markedVerdict_of_same_clock {H : Blake3} {macKey : Key} {pfx : Bytes} {pad : HsPad}
    {secs : Nat} {now : Int → Nat} (hnow : now 0 = secs) :
    markedVerdict H macKey pfx pad secs now = .ok pfx := by
  rw [markedVerdict, if_pos]
  exact verifyMacEpochs_eq_true.mpr (.inl (by rw [hnow]))

-- ============================================================================
-- Hand-over to the frame reader
-- ============================================================================

/-- **Where the client's handshake reader leaves the stream.** The server sends
    a handshake message and then sealed frames; the bytes left unread when
    `readMarkedMessage` returns `Ok` are exactly the frames if and only if some
    read ended right behind the MAC (or the MAC is refused and there is no
    `Ok`). -/
theorem readMarkedMessage_unread_iff (A : Aead) (cipher : FrameCipher)
    (cells : List (UInt8 × Bytes)) (H : Blake3) (macKey : Key) (pfx : Bytes) (pad : HsPad)
    (secs : Nat) (now : Int → Nat) (reads : List Bytes)
    (hpfx : pfx.length = pubkeyLen + authLen) (hmark : MarkNotEarly H macKey pfx pad)
    (hne : ∀ r ∈ reads, r ≠ [])
    (hcat : reads.flatten = buildMarkedMessage H macKey pfx pad secs
      ++ (FrameCipher.sealAll A cipher cells).1.flatten) :
    (∀ p rest,
        readMarkedMessage H macKey (pubkeyLen + authLen) now [] (reads.map .bytes) = (.ok p, rest) →
        unread rest = (FrameCipher.sealAll A cipher cells).1.flatten) ↔
      (verifyMacEpochs H macKey (markedBody H macKey pfx pad)
          (macWithEpoch H macKey (markedBody H macKey pfx pad) secs 0) now = true →
        Segments.IsCut (buildMarkedMessage H macKey pfx pad secs).length reads) := by
  have hread : readMarkedMessage H macKey pfx.length now [] (reads.map .bytes) = _ :=
    readMarkedMessage_eq (by omega) (by omega) hmark hne (by rw [List.nil_append, hcat])
  rw [hpfx, List.length_nil, Nat.sub_zero] at hread
  have hframes : reads.flatten.drop (buildMarkedMessage H macKey pfx pad secs).length
      = (FrameCipher.sealAll A cipher cells).1.flatten := by
    rw [hcat, List.drop_left]
  have hlong : (buildMarkedMessage H macKey pfx pad secs).length ≤ reads.flatten.length := by
    rw [hcat, List.length_append]
    omega
  have hcut := Segments.flatten_readsAfter_eq_drop_iff hlong
  rw [hframes] at hcut
  rw [hread, markedVerdict]
  split
  · next hok =>
    simp only [hok, true_imp_iff]
    rw [← hcut]
    constructor
    · intro h
      have hrest := h _ _ rfl
      rwa [unread_map_bytes] at hrest
    · intro h p rest hpr
      obtain ⟨-, rfl⟩ := Prod.mk.inj hpr
      rw [unread_map_bytes, h]
  · next hbad =>
    refine ⟨fun _ hok => absurd hok hbad, fun _ p rest hpr => ?_⟩
    cases (Prod.mk.inj hpr).1

/-- A server reply without padding. -/
def sampleReply : Bytes :=
  buildMarkedMessage .sumBytes (Vector.replicate 32 7) (List.replicate 64 1) .none 0

/-- The first frame the server seals: one cover cell. -/
def sampleFrames : List Bytes :=
  (FrameCipher.sealAll .tagOnly (.new (Vector.replicate 32 9))
    [(kindDummy, List.replicate 514 0)]).1

theorem markNotEarly_of_no_pad (H : Blake3) (macKey : Key) (pfx : Bytes) :
    MarkNotEarly H macKey pfx .none := by
  have hlen := markValue_length H macKey (pfx.take pubkeyLen)
  refine findSubslice_eq_some.mpr ⟨?_, by simp [HsPad.none], by simp [HsPad.none]⟩
  intro h
  rw [h] at hlen
  cases hlen

theorem sampleReply_length : sampleReply.length = 96 :=
  buildMarkedMessage_length .sumBytes (Vector.replicate 32 7) (List.replicate 64 1)
    .none 0

theorem sampleFrames_length : sampleFrames.flatten.length = 531 := by
  rw [sampleFrames, FrameCipher.sealAll_cons, FrameCipher.sealAll_nil, List.flatten_cons,
    List.flatten_nil, List.append_nil, FrameCipher.sealFrame_length Aead.tagOnly_lawful,
    List.length_replicate]
  rfl

/-- The reply and the first cover frame arrive in two reads: nothing is lost. -/
theorem readMarkedMessage_unread_iff_two_reads :
    Segments.IsCut 96 [sampleReply, sampleFrames.flatten] ∧
      ∀ p rest,
        readMarkedMessage .sumBytes (Vector.replicate 32 7) (pubkeyLen + authLen) (fun _ => 0) []
            ([sampleReply, sampleFrames.flatten].map .bytes) = (.ok p, rest) →
        unread rest = sampleFrames.flatten := by
  have hreply := sampleReply_length
  have hframes := sampleFrames_length
  have hone : [sampleReply].flatten = sampleReply := by
    rw [List.flatten_cons, List.flatten_nil, List.append_nil]
  have hne : ∀ r ∈ [sampleReply, sampleFrames.flatten], r ≠ [] := by
    intro r hr hnil
    rcases List.mem_pair.mp hr with rfl | rfl
    · rw [hnil] at hreply
      cases hreply
    · rw [hnil] at hframes
      cases hframes
  have hcut : Segments.IsCut sampleReply.length [sampleReply, sampleFrames.flatten] :=
    ⟨[sampleReply], [sampleFrames.flatten], rfl, by rw [hone]⟩
  refine ⟨hreply ▸ hcut, ?_⟩
  refine (readMarkedMessage_unread_iff .tagOnly (.new (Vector.replicate 32 9))
    [(kindDummy, List.replicate 514 0)] .sumBytes (Vector.replicate 32 7) (List.replicate 64 1)
    .none 0 (fun _ => 0) [sampleReply, sampleFrames.flatten] (by decide)
    (markNotEarly_of_no_pad _ _ _) hne ?_).mpr fun _ => hcut
  rw [List.flatten_cons, List.flatten_cons, List.flatten_nil, List.append_nil]
  rfl

/-- The reply and the first cover frame arrive in one 627-byte read: the reader
    accepts the reply and the frame is gone. -/
theorem readMarkedMessage_swallows_frame :
    (sampleReply ++ sampleFrames.flatten).length = 627 ∧
      readMarkedMessage .sumBytes (Vector.replicate 32 7) (pubkeyLen + authLen) (fun _ => 0) []
          [.bytes (sampleReply ++ sampleFrames.flatten)] = (.ok (List.replicate 64 1), []) ∧
      unread [] ≠ sampleFrames.flatten := by
  have hreply := sampleReply_length
  have hframes := sampleFrames_length
  refine ⟨by rw [List.length_append, hreply, hframes], ?_, ?_⟩
  · have hne : ∀ r ∈ [sampleReply ++ sampleFrames.flatten], r ≠ [] := by
      intro r hr hnil
      obtain rfl := List.mem_singleton.mp hr
      rw [(List.append_eq_nil_iff.mp hnil).1] at hreply
      cases hreply
    have hcat : [] ++ [sampleReply ++ sampleFrames.flatten].flatten
        = sampleReply ++ sampleFrames.flatten := by
      rw [List.nil_append, List.flatten_cons, List.flatten_nil, List.append_nil]
    have hread : readMarkedMessage .sumBytes (Vector.replicate 32 7)
        (List.replicate 64 1 : Bytes).length (fun _ => 0) [] _ = _ :=
      readMarkedMessage_eq (by decide) (by decide) (markNotEarly_of_no_pad _ _ _) hne hcat
    have hcut : Segments.readsAfter (96 - 0) [sampleReply ++ sampleFrames.flatten] = [] := by
      rw [Segments.readsAfter_cons_of_pos (by decide)]
      rfl
    have hok : markedVerdict .sumBytes (Vector.replicate 32 7) (List.replicate 64 1) .none 0
        (fun _ => 0) = .ok (List.replicate 64 1) := markedVerdict_of_same_clock rfl
    rw [hok, ← sampleReply, hreply, List.length_nil, hcut] at hread
    exact hread
  · intro h
    rw [unread] at h
    rw [← h] at hframes
    cases hframes

end MixTor.Crypto
