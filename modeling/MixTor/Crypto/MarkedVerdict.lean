/-
  MixTor.Crypto.MarkedVerdict

  What `read_marked_message` (crypto.rs) accepts, said of the byte stream alone.

  The reader searches again from the start of the padding after every read.  Its
  verdict is nevertheless a function of the stream: the MARK it finds first stays
  the first one when more bytes arrive, so a buffer that decides decides as every
  longer one does, and a buffer that does not decide waits.
-/

import MixTor.Crypto.MarkedMessage

namespace MixTor.Crypto

section Verdict

variable (H : Blake3) (macKey : Key) (prefixLen : Nat) (now : Int → Nat)

/-- The first MARK at or behind the prefix stands at `pos`. -/
structure FirstMark (stream : Bytes) (pos : Nat) : Prop where
  behind : prefixLen ≤ pos
  mark : markValue H macKey (stream.take pubkeyLen) <+: stream.drop pos
  first : ∀ j, prefixLen ≤ j → j < pos →
    ¬ markValue H macKey (stream.take pubkeyLen) <+: stream.drop j

/-- The MARK at `pos` is followed by the MAC of everything up to it, for the
    current hour, the previous or the next one. -/
structure MacFollows (stream : Bytes) (pos : Nat) : Prop where
  complete : pos + markLen + macLen ≤ stream.length
  mac : ∃ offset ∈ ([0, -1, 1] : List Int),
    (stream.drop (pos + markLen)).take macLen
      = macWithEpoch H macKey (stream.take (pos + markLen)) (now offset) offset

/-- The stream starts with a handshake message that is accepted. -/
def Accepted (stream : Bytes) : Prop :=
  ∃ pos, FirstMark H macKey prefixLen stream pos ∧ MacFollows H macKey now stream pos

/-- The verdict on a stream that ends. -/
def streamVerdict (stream : Bytes) : Except HandshakeError Bytes :=
  match scanBuffer H macKey prefixLen now stream with
  | some verdict => verdict
  | none => if maxHandshakeLen ≤ stream.length then .error .probeRejected else .error .closed

variable {H macKey prefixLen now}

-- ============================================================================
-- One buffer
-- ============================================================================

/-- What the search behind the prefix finds is the first MARK. -/
theorem findSubslice_eq_some_iff_firstMark {buf : Bytes} {rel : Nat} :
    findSubslice (buf.drop prefixLen) (markValue H macKey (buf.take pubkeyLen)) = some rel ↔
      FirstMark H macKey prefixLen buf (prefixLen + rel) := by
  rw [findSubslice_eq_some]
  simp only [List.drop_drop]
  constructor
  · rintro ⟨-, hmark, hfirst⟩
    refine ⟨Nat.le_add_right _ _, hmark, ?_⟩
    intro j hj hlt hocc
    apply hfirst (j - prefixLen) (by omega)
    rwa [Nat.add_sub_cancel' hj]
  · rintro ⟨-, hmark, hfirst⟩
    refine ⟨?_, hmark, fun j hj => hfirst (prefixLen + j) (by omega) (by omega)⟩
    intro hnil
    have hlen := markValue_length H macKey (buf.take pubkeyLen)
    rw [hnil] at hlen
    cases hlen

/-- There is one first MARK at most. -/
theorem FirstMark.unique {stream : Bytes} {pos pos' : Nat}
    (h : FirstMark H macKey prefixLen stream pos)
    (h' : FirstMark H macKey prefixLen stream pos') : pos = pos' := by
  rcases Nat.lt_trichotomy pos pos' with hlt | heq | hgt
  · exact absurd h.mark (h'.first pos h.behind hlt)
  · exact heq
  · exact absurd h'.mark (h.first pos' h'.behind hgt)

/-- A MARK lies inside the stream. -/
theorem FirstMark.le_length {stream : Bytes} {pos : Nat}
    (h : FirstMark H macKey prefixLen stream pos) : pos + markLen ≤ stream.length := by
  have hlen := h.mark.length_le
  have hpos : 0 < markLen := by decide
  rw [markValue_length, List.length_drop] at hlen
  omega

theorem macFollows_iff {stream : Bytes} {pos : Nat} :
    MacFollows H macKey now stream pos ↔
      pos + markLen + macLen ≤ stream.length ∧
        verifyMacEpochs H macKey (stream.take (pos + markLen))
          ((stream.drop (pos + markLen)).take macLen) now = true := by
  rw [verifyMacEpochs_eq_true]
  constructor
  · rintro ⟨hcomplete, offset, hmem, hmac⟩
    refine ⟨hcomplete, ?_⟩
    simp only [List.mem_cons, List.not_mem_nil, or_false] at hmem
    rcases hmem with rfl | rfl | rfl
    · exact .inl hmac.symm
    · exact .inr (.inl hmac.symm)
    · exact .inr (.inr hmac.symm)
  · rintro ⟨hcomplete, hmac | hmac | hmac⟩
    · exact ⟨hcomplete, 0, by simp, hmac.symm⟩
    · exact ⟨hcomplete, -1, by simp, hmac.symm⟩
    · exact ⟨hcomplete, 1, by simp, hmac.symm⟩

/-- The loop body accepts a buffer with a valid MAC behind its first MARK. -/
theorem scanBuffer_eq_ok {buf p : Bytes} :
    scanBuffer H macKey prefixLen now buf = some (.ok p) ↔
      Accepted H macKey prefixLen now buf ∧ p = buf.take prefixLen := by
  rw [scanBuffer]
  constructor
  · intro h
    split at h
    · split at h
      · next rel hrel =>
        simp only at h
        split at h
        · next hcomplete =>
          split at h
          · next hmac =>
            obtain rfl := Except.ok.inj (Option.some.inj h)
            exact ⟨⟨prefixLen + rel, findSubslice_eq_some_iff_firstMark.mp hrel,
              macFollows_iff.mpr ⟨hcomplete, hmac⟩⟩, rfl⟩
          · cases h
        · cases h
      · cases h
    · cases h
  · rintro ⟨⟨pos, hfirst, hmac⟩, rfl⟩
    obtain ⟨rel, rfl⟩ := Nat.exists_eq_add_of_le hfirst.behind
    obtain ⟨hcomplete, hverify⟩ := macFollows_iff.mp hmac
    have hin := hfirst.le_length
    rw [if_pos (by omega), findSubslice_eq_some_iff_firstMark.mpr hfirst]
    simp only [if_pos hcomplete, if_pos hverify]

-- ============================================================================
-- A growing buffer
-- ============================================================================

/-- The first MARK of a buffer is the first MARK of every longer one. -/
theorem FirstMark.of_prefix (hp : pubkeyLen ≤ prefixLen) {buf stream : Bytes} {pos : Nat}
    (hpre : buf <+: stream) (h : FirstMark H macKey prefixLen buf pos) :
    FirstMark H macKey prefixLen stream pos := by
  have hin := h.le_length
  have hbehind := h.behind
  have hrepr : stream.take pubkeyLen = buf.take pubkeyLen := by
    obtain ⟨more, rfl⟩ := hpre
    exact List.take_append_of_le_length (by omega)
  refine ⟨hbehind, ?_, ?_⟩
  · rw [hrepr]
    exact prefix_drop_of_prefix hpre h.mark
  · intro j hj hlt hocc
    rw [hrepr] at hocc
    apply h.first j hj hlt
    -- an occurrence before `pos` lies inside the shorter buffer
    refine List.prefix_of_prefix_length_le hocc (hpre.drop j) ?_
    rw [markValue_length, List.length_drop]
    omega

/-- A buffer that decides decides as every longer one. -/
theorem scanBuffer_of_prefix (hp : pubkeyLen ≤ prefixLen) {buf stream : Bytes}
    {verdict : Except HandshakeError Bytes} (hpre : buf <+: stream)
    (h : scanBuffer H macKey prefixLen now buf = some verdict) :
    scanBuffer H macKey prefixLen now stream = some verdict := by
  have hlen := hpre.length_le
  obtain ⟨more, rfl⟩ := hpre
  rw [scanBuffer] at h
  split at h
  · next hbuf =>
    split at h
    · next rel hrel =>
      have hfirst := findSubslice_eq_some_iff_firstMark.mp hrel
      have hfirst' := hfirst.of_prefix hp (List.prefix_append buf more)
      simp only at h
      split at h
      · next hcomplete =>
        have htake : (buf ++ more).take (prefixLen + rel + markLen)
            = buf.take (prefixLen + rel + markLen) :=
          List.take_append_of_le_length (by omega)
        have hmac : ((buf ++ more).drop (prefixLen + rel + markLen)).take macLen
            = (buf.drop (prefixLen + rel + markLen)).take macLen := by
          rw [List.drop_append_of_le_length (by omega)]
          apply List.take_append_of_le_length
          rw [List.length_drop]
          omega
        rw [scanBuffer, if_pos (by omega), findSubslice_eq_some_iff_firstMark.mpr hfirst']
        simp only [if_pos (Nat.le_trans hcomplete hlen), htake, hmac,
          List.take_append_of_le_length hbuf]
        exact h
      · cases h
    · cases h
  · cases h

-- ============================================================================
-- Every segmentation
-- ============================================================================

/-- However the stream is cut into reads, the reader's verdict is the one on the
    whole stream.  The induction is on the reads. -/
theorem readMarkedMessage_verdict (hp : pubkeyLen ≤ prefixLen) {buf : Bytes} {reads : List Bytes}
    (hne : ∀ r ∈ reads, r ≠ []) (hlen : (buf ++ reads.flatten).length ≤ maxHandshakeLen) :
    (readMarkedMessage H macKey prefixLen now buf (reads.map .bytes)).1
      = streamVerdict H macKey prefixLen now (buf ++ reads.flatten) := by
  induction reads generalizing buf with
  | nil =>
      rw [List.flatten_nil, List.append_nil, List.map_nil, readMarkedMessage.eq_def, streamVerdict]
      cases scanBuffer H macKey prefixLen now buf with
      | some verdict => rfl
      | none =>
          by_cases hcap : maxHandshakeLen ≤ buf.length
          · simp only [if_pos hcap]
          · simp only [if_neg hcap]
  | cons r reads ih =>
      rw [readMarkedMessage.eq_def]
      split
      · next verdict hscan =>
        rw [streamVerdict, scanBuffer_of_prefix hp (List.prefix_append buf _) hscan]
      · -- a read is not empty, so a buffer at the byte cap is the whole stream
        have hr : 0 < r.length := List.length_pos_iff.mpr (hne r List.mem_cons_self)
        have hcap : ¬ maxHandshakeLen ≤ buf.length := by
          rw [List.flatten_cons, List.length_append, List.length_append] at hlen
          omega
        rw [if_neg hcap, List.map_cons]
        simp only [if_neg (hne r List.mem_cons_self)]
        have hcat : buf ++ (r :: reads).flatten = buf ++ r ++ reads.flatten := by
          rw [List.flatten_cons, List.append_assoc]
        rw [hcat] at hlen ⊢
        exact ih (fun r' hr' => hne r' (List.mem_cons_of_mem _ hr')) hlen

/-- A reader that returns `Ok` has read an accepted stream and nothing behind the
    read that completed it. -/
theorem readMarkedMessage_ok {buf p : Bytes} {reads rest : List StreamRead}
    (h : readMarkedMessage H macKey prefixLen now buf reads = (.ok p, rest)) :
    ∃ more, Accepted H macKey prefixLen now (buf ++ more) ∧ p = (buf ++ more).take prefixLen ∧
      more ++ unread rest = unread reads := by
  induction reads generalizing buf with
  | nil =>
      rw [readMarkedMessage.eq_def] at h
      split at h
      · next verdict hscan =>
        obtain ⟨rfl, rfl⟩ := Prod.mk.inj h
        obtain ⟨hacc, hp⟩ := scanBuffer_eq_ok.mp hscan
        exact ⟨[], by rwa [List.append_nil], by rwa [List.append_nil], rfl⟩
      · split at h <;> cases h
  | cons read reads ih =>
      rw [readMarkedMessage.eq_def] at h
      split at h
      · next verdict hscan =>
        obtain ⟨rfl, rfl⟩ := Prod.mk.inj h
        obtain ⟨hacc, hp⟩ := scanBuffer_eq_ok.mp hscan
        exact ⟨[], by rwa [List.append_nil], by rwa [List.append_nil], rfl⟩
      · split at h
        · cases h
        · cases read with
          | ioError => cases h
          | bytes b =>
              simp only at h
              split at h
              · cases h
              · obtain ⟨more, hacc, hp, hrest⟩ := ih h
                rw [List.append_assoc] at hacc hp
                exact ⟨b ++ more, hacc, hp, by rw [List.append_assoc, hrest, unread]⟩

/-- What a reader returns has the length of the prefix. -/
theorem readMarkedMessage_ok_length {buf p : Bytes} {reads rest : List StreamRead}
    (h : readMarkedMessage H macKey prefixLen now buf reads = (.ok p, rest)) :
    p.length = prefixLen := by
  obtain ⟨more, ⟨pos, hfirst, -⟩, rfl, -⟩ := readMarkedMessage_ok h
  have hin := hfirst.le_length
  have hbehind := hfirst.behind
  rw [List.length_take]
  omega

/-- A stream is accepted with its prefix. -/
theorem streamVerdict_eq_ok {stream p : Bytes} :
    streamVerdict H macKey prefixLen now stream = .ok p ↔
      Accepted H macKey prefixLen now stream ∧ p = stream.take prefixLen := by
  rw [← scanBuffer_eq_ok, streamVerdict]
  split
  · next verdict hscan =>
    rw [hscan, Option.some.injEq]
  · next hscan =>
    rw [hscan]
    refine ⟨fun h => ?_, nofun⟩
    split at h <;> cases h

/-- The MAC of a message is the one a reader in the same or an adjacent hour
    computes for one of the hours it tries. -/
theorem markedVerdict_of_near_clock {pfx : Bytes} {pad : HsPad} {secs : Nat}
    (hhour : ∃ offset ∈ ([0, -1, 1] : List Int),
      ((now offset / 3600 : Nat) : Int) + offset = (secs / 3600 : Nat)) :
    markedVerdict H macKey pfx pad secs now = .ok pfx := by
  obtain ⟨offset, hmem, hhour⟩ := hhour
  have hmac : macWithEpoch H macKey (markedBody H macKey pfx pad) (now offset) offset
      = macWithEpoch H macKey (markedBody H macKey pfx pad) secs 0 := by
    rw [macWithEpoch, macWithEpoch, epochHourBytes, epochHourBytes, hhour, Int.add_zero]
  rw [markedVerdict, if_pos]
  apply verifyMacEpochs_eq_true.mpr
  simp only [List.mem_cons, List.not_mem_nil, or_false] at hmem
  rcases hmem with rfl | rfl | rfl
  · exact .inl hmac
  · exact .inr (.inl hmac)
  · exact .inr (.inr hmac)

end Verdict

/-- **What the handshake reader accepts.** For every stream of at most
    `maxHandshakeLen` bytes in reads of any sizes: the reader returns `Ok` exactly
    when a valid MAC follows the first MARK behind the prefix, and then the
    prefix.  So it accepts every message built in the hour of its clock or an
    adjacent one, and the reads' sizes do not matter. -/
theorem readMarkedMessage_ok_iff (H : Blake3) (macKey : Key) (prefixLen : Nat) (now : Int → Nat)
    (reads : List Bytes) (hp : pubkeyLen ≤ prefixLen) (hne : ∀ r ∈ reads, r ≠ [])
    (hlen : reads.flatten.length ≤ maxHandshakeLen) :
    (∀ p, (readMarkedMessage H macKey prefixLen now [] (reads.map .bytes)).1 = .ok p ↔
        Accepted H macKey prefixLen now reads.flatten ∧ p = reads.flatten.take prefixLen) ∧
      (∀ (pfx : Bytes) (pad : HsPad) (secs : Nat), pfx.length = prefixLen →
        MarkNotEarly H macKey pfx pad →
        buildMarkedMessage H macKey pfx pad secs <+: reads.flatten →
        (∃ offset ∈ ([0, -1, 1] : List Int),
          ((now offset / 3600 : Nat) : Int) + offset = (secs / 3600 : Nat)) →
        (readMarkedMessage H macKey prefixLen now [] (reads.map .bytes)).1 = .ok pfx) ∧
      (∀ reads' : List Bytes, (∀ r ∈ reads', r ≠ []) → reads'.flatten = reads.flatten →
        (readMarkedMessage H macKey prefixLen now [] (reads'.map .bytes)).1
          = (readMarkedMessage H macKey prefixLen now [] (reads.map .bytes)).1) := by
  have hverdict : ∀ rs : List Bytes, (∀ r ∈ rs, r ≠ []) → rs.flatten = reads.flatten →
      (readMarkedMessage H macKey prefixLen now [] (rs.map .bytes)).1
        = streamVerdict H macKey prefixLen now reads.flatten := by
    intro rs hrs hcat
    have h : (readMarkedMessage H macKey prefixLen now [] (rs.map .bytes)).1
        = streamVerdict H macKey prefixLen now ([] ++ rs.flatten) :=
      readMarkedMessage_verdict hp hrs (by rw [List.nil_append, hcat]; exact hlen)
    rw [h, List.nil_append, hcat]
  refine ⟨?_, ?_, ?_⟩
  · intro p
    rw [hverdict reads hne rfl]
    exact streamVerdict_eq_ok
  · intro pfx pad secs hpfx hmark hmsg hhour
    obtain ⟨R, hR⟩ := hmsg
    subst hpfx
    have hscan : scanBuffer H macKey pfx.length now reads.flatten
        = if (buildMarkedMessage H macKey pfx pad secs).length ≤ reads.flatten.length then
            some (markedVerdict H macKey pfx pad secs now)
          else none :=
      scanBuffer_prefix hp hmark (by rw [hR])
    rw [if_pos (by rw [← hR, List.length_append]; omega), markedVerdict_of_near_clock hhour] at hscan
    rw [hverdict reads hne rfl, streamVerdict, hscan]
  · intro reads' hne' hcat
    rw [hverdict reads' hne' hcat, hverdict reads hne rfl]

/-- The sample reply in one read, at the hour it was built. -/
theorem readMarkedMessage_ok_iff_one_read :
    [sampleReply].flatten.length = 96 ∧
      (readMarkedMessage .sumBytes (Vector.replicate 32 7) 64 (fun _ => 0) []
        ([sampleReply].map .bytes)).1 = .ok (List.replicate 64 1) := by
  have hone : [sampleReply].flatten = sampleReply := by
    rw [List.flatten_cons, List.flatten_nil, List.append_nil]
  have hlen : [sampleReply].flatten.length = 96 := by rw [hone, sampleReply_length]
  refine ⟨hlen, ?_⟩
  have hne : ∀ r ∈ [sampleReply], r ≠ [] := by
    intro r hr hnil
    obtain rfl := List.mem_singleton.mp hr
    have h := sampleReply_length
    rw [hnil] at h
    cases h
  have hall := readMarkedMessage_ok_iff .sumBytes (Vector.replicate 32 7) 64 (fun _ => 0)
    [sampleReply] (by decide) hne (by rw [hlen]; decide)
  refine hall.2.1 (List.replicate 64 1) .none 0 (List.length_replicate ..)
    (markNotEarly_of_no_pad _ _ _) ?_ ⟨0, by simp, rfl⟩
  rw [hone]
  exact List.prefix_rfl

end MixTor.Crypto
