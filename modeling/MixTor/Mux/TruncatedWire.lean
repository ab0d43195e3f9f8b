/-
  MixTor.Mux.TruncatedWire

  The loops built on `read_sealed_frame` (transport.rs), and wires that are cut.

  `read_sealed_frame` is documented to return `Ok(None)` at a clean EOF.  It
  returns it for every `UnexpectedEof` of `read_exact`, which also reports a wire
  that ends inside a frame.  `strip_and_forward`, `mux_demux_to_bridges` and
  `receive_mux_inbound` therefore end with `Ok` wherever the wire is cut; what they
  have done by then is what the complete frames ask for.
-/

import MixTor.Mux.Demux
import MixTor.Transport.SealedFrames

namespace MixTor

open Crypto (Bytes Aead FrameCipher HandshakeError StreamRead kindReal kindDummy encFrameLen)

/-- Why a receive loop returns an error. -/
inductive ReceiveError where
  /-- `read_sealed_frame` fails. -/
  | frame (e : HandshakeError)
  /-- A write to the local side fails. -/
  | write
  | refused (msg : String)
  deriving DecidableEq, Repr

/-- The body of a receive loop, given the number of the frame. -/
abbrev FrameBody (σ : Type) := Nat → σ → UInt8 → Bytes → Except ReceiveError Unit × σ

/-- `while let Some((kind, cell)) = read_sealed_frame(..).await?`, for at most `fuel`
    calls. -/
def receiveLoop {σ : Type} (A : Aead) (body : FrameBody σ) :
    Nat → Nat → FrameCipher → σ → List StreamRead → Option (Except ReceiveError Unit × σ)
  | 0, _, _, _, _ => none
  | fuel + 1, wireSeq, cipher, s, wire =>
      match readSealedFrame A cipher wire with
      | (.error e, _, _) => some (.error (.frame e), s)
      | (.ok none, _, _) => some (.ok (), s)
      | (.ok (some (kind, cell)), cipher, wire) =>
          match body wireSeq s kind cell with
          | (.error e, s) => some (.error e, s)
          | (.ok (), s) => receiveLoop A body fuel (wireSeq + 1) cipher s wire

/-- Dummies are skipped, real cells decoded. -/
def realOnly {σ : Type} (onReal : Nat → σ → UInt16 → Bytes → Except ReceiveError Unit × σ) :
    FrameBody σ := fun wireSeq s kind cell =>
  if kind = kindReal then onReal wireSeq s (decodeRealCell cell).1 (decodeRealCell cell).2
  else (.ok (), s)

/-- `strip_and_forward`: non-empty payloads are written to `out`, which takes its
    `i`-th write if `accepts i`. -/
def stripAndForward (accepts : Nat → Bool) : FrameBody (List Bytes) :=
  realOnly fun _ written _ data =>
    if data = [] then (.ok (), written)
    else if accepts written.length then (.ok (), written ++ [data])
    else (.error .write, written)

/-- `mux_demux_to_bridges`.  Before frame `i` the relays do `env i`, and the global
    counter holds `prev i`. -/
def muxDemuxToBridges (env : Nat → Demux → Demux) (prev : Nat → Nat) : FrameBody Demux :=
  realOnly fun wireSeq d streamId data =>
    let d := env wireSeq d
    let d' := d.demuxCell streamId data (prev wireSeq)
    if data ≠ [] ∧ streamId ∉ d.streamMap ∧ maxStreamsPerWire ≤ d.streamMap.entries.length then
      (.error (.refused "mux client exceeded per-wire stream cap"), d')
    else (.ok (), d')

/-- `receive_mux_inbound`.  Before frame `i` the circuits do `env i`. -/
def receiveMuxInbound (env : Nat → MuxWire → MuxWire) : FrameBody MuxWire :=
  realOnly fun wireSeq w streamId data => (.ok (), (env wireSeq w).receive streamId data)

-- ============================================================================
-- Reading a segmented stream
-- ============================================================================

/-- A stream long enough fills the buffer with its first bytes and leaves the rest. -/
theorem readExact_full {n : Nat} (buf : Bytes) {pieces : List Bytes}
    (hne : ∀ p ∈ pieces, p ≠ []) (hbuf : buf.length ≤ n)
    (hlong : n ≤ buf.length + pieces.flatten.length) :
    ∃ rest : List Bytes, (∀ p ∈ rest, p ≠ []) ∧
      rest.flatten = pieces.flatten.drop (n - buf.length) ∧
      readExact n buf (pieces.map .bytes)
        = (.full (buf ++ pieces.flatten.take (n - buf.length)), rest.map .bytes) := by
  induction pieces generalizing buf with
  | nil =>
      have hfull : n ≤ buf.length := by simpa using hlong
      exact ⟨[], hne, by simp, by simp [readExact, hfull]⟩
  | cons p pieces ih =>
      have hp : 0 < p.length := List.length_pos_iff.mpr (hne p List.mem_cons_self)
      rw [List.flatten_cons, List.length_append] at hlong
      rw [List.map_cons, readExact]
      by_cases hfull : n ≤ buf.length
      · rw [if_pos hfull, Nat.sub_eq_zero_of_le hfull]
        exact ⟨p :: pieces, hne, rfl, by simp⟩
      · rw [if_neg hfull]
        simp only [if_neg (hne p List.mem_cons_self)]
        by_cases hfits : p.length ≤ n - buf.length
        · have hlen : (buf ++ p).length = buf.length + p.length := List.length_append
          obtain ⟨rest, hrest, hflat, hread⟩ := ih (buf ++ p)
            (fun q hq => hne q (List.mem_cons_of_mem _ hq)) (by omega) (by omega)
          have hless : n - (buf ++ p).length = n - buf.length - p.length := by omega
          refine ⟨rest, hrest, ?_, ?_⟩
          · rw [hflat, hless, List.flatten_cons, List.drop_append,
              List.drop_of_length_le hfits, List.nil_append]
          · rw [if_pos hfits, hread, hless, List.flatten_cons, List.take_append,
              List.take_of_length_le hfits, List.append_assoc]
        · -- the buffer ends inside this piece
          refine ⟨p.drop (n - buf.length) :: pieces, ?_, ?_, ?_⟩
          · intro q hq
            rcases List.mem_cons.mp hq with rfl | hq
            · exact List.length_pos_iff.mp (by rw [List.length_drop]; omega)
            · exact hne q (List.mem_cons_of_mem _ hq)
          · rw [List.flatten_cons, List.flatten_cons,
              List.drop_append_of_le_length (Nat.le_of_not_le hfits)]
          · rw [if_neg hfits, List.flatten_cons,
              List.take_append_of_le_length (Nat.le_of_not_le hfits), List.map_cons]

/-- A stream that ends inside the buffer is an unexpected end, as one that ends
    before it. -/
theorem readExact_short {n : Nat} (buf : Bytes) {pieces : List Bytes}
    (hne : ∀ p ∈ pieces, p ≠ []) (hshort : buf.length + pieces.flatten.length < n) :
    readExact n buf (pieces.map .bytes) = (.unexpectedEof, []) := by
  induction pieces generalizing buf with
  | nil => simp [readExact, (by simpa using hshort : buf.length < n)]
  | cons p pieces ih =>
      rw [List.flatten_cons, List.length_append] at hshort
      have hlen : (buf ++ p).length = buf.length + p.length := List.length_append
      rw [List.map_cons, readExact, if_neg (by omega)]
      simp only [if_neg (hne p List.mem_cons_self), if_pos (by omega : p.length ≤ n - buf.length)]
      exact ih _ (fun q hq => hne q (List.mem_cons_of_mem _ hq)) (by omega)

-- ============================================================================
-- A wire that carries sealed frames and is cut somewhere
-- ============================================================================

/-- The frames of a list of cells on the wire. -/
def sealedStream (A : Aead) (cipher : FrameCipher) (frames : List (UInt8 × Cell)) : Bytes :=
  (cipher.sealAll A (frames.map fun f => (f.1, f.2.bytes))).1.flatten

/-- The frames that are on a wire of `n` bytes completely. -/
def completeFrames (n : Nat) (frames : List (UInt8 × Cell)) : List (UInt8 × Cell) :=
  frames.take (n / frameLen)

/-- The body of a loop over frames, the first of which has a given number. -/
def overFrames {σ : Type} (body : FrameBody σ) :
    Nat → σ → List (UInt8 × Cell) → Except ReceiveError Unit × σ
  | _, s, [] => (.ok (), s)
  | wireSeq, s, (kind, cell) :: frames =>
      match body wireSeq s kind cell.bytes with
      | (.error e, s) => (.error e, s)
      | (.ok (), s) => overFrames body (wireSeq + 1) s frames

/-- The next call on a wire that holds a complete frame. -/
theorem readSealedFrame_complete {A : Aead} (hA : A.Lawful) {cipher : FrameCipher} {kind : UInt8}
    {cell : Cell} {frames : List (UInt8 × Cell)} {pieces : List Bytes}
    (hne : ∀ p ∈ pieces, p ≠ [])
    (hpre : pieces.flatten <+: sealedStream A cipher ((kind, cell) :: frames))
    (hlong : frameLen ≤ pieces.flatten.length) :
    ∃ rest : List Bytes, (∀ p ∈ rest, p ≠ []) ∧
      rest.flatten <+: sealedStream A cipher.nextNonce.2 frames ∧
      rest.flatten.length + frameLen = pieces.flatten.length ∧
      readSealedFrame A cipher (pieces.map .bytes)
        = (.ok (some (kind, cell.bytes)), cipher.nextNonce.2, rest.map .bytes) := by
  obtain ⟨rest, hrest, hflat, hread⟩ := readExact_full [] hne (Nat.zero_le _)
    (by simpa using hlong)
  rw [List.length_nil, Nat.sub_zero] at hflat hread
  have hseal : (cipher.sealFrame A kind cell.bytes).1.length = frameLen := by
    rw [FrameCipher.sealFrame_length hA, cell.length_eq]
    rfl
  have hstream : sealedStream A cipher ((kind, cell) :: frames)
      = (cipher.sealFrame A kind cell.bytes).1 ++ sealedStream A cipher.nextNonce.2 frames := rfl
  obtain ⟨more, hmore⟩ := hpre
  rw [hstream] at hmore
  have hfirst : pieces.flatten.take frameLen = (cipher.sealFrame A kind cell.bytes).1 := by
    have := congrArg (List.take frameLen) hmore
    rwa [List.take_append_of_le_length hlong, List.take_left' hseal] at this
  refine ⟨rest, hrest, ⟨more, ?_⟩, ?_, ?_⟩
  · have := congrArg (List.drop frameLen) hmore
    rwa [List.drop_append_of_le_length hlong, List.drop_left' hseal, ← hflat] at this
  · rw [hflat, List.length_drop]
    omega
  · rw [readSealedFrame, hread]
    simp only [List.nil_append, hfirst, FrameCipher.openFrame_sealFrame hA]

/-- A wire that holds no complete frame ends the loop. -/
theorem receiveLoop_short {σ : Type} {A : Aead} (body : FrameBody σ) {fuel : Nat} (wireSeq : Nat)
    (cipher : FrameCipher) (s : σ) {pieces : List Bytes} (hne : ∀ p ∈ pieces, p ≠ [])
    (hfuel : 0 < fuel) (hshort : pieces.flatten.length < frameLen) :
    receiveLoop A body fuel wireSeq cipher s (pieces.map .bytes) = some (.ok (), s) := by
  obtain ⟨fuel, rfl⟩ := Nat.exists_eq_succ_of_ne_zero (Nat.ne_of_gt hfuel)
  have hread := readExact_short [] hne (by simpa using hshort)
  simp only [receiveLoop, readSealedFrame, hread]

/-- **What a loop does on a cut wire.** Wherever the wire ends and however it is read,
    the loop does what its body does on the complete frames, and says no more about
    the end than that.  The induction is on the frames. -/
theorem receiveLoop_eq {σ : Type} {A : Aead} (hA : A.Lawful) (body : FrameBody σ) (fuel : Nat)
    (wireSeq : Nat) (s : σ) {cipher : FrameCipher} {frames : List (UInt8 × Cell)}
    {pieces : List Bytes} (hne : ∀ p ∈ pieces, p ≠ [])
    (hpre : pieces.flatten <+: sealedStream A cipher frames)
    (hfuel : pieces.flatten.length / frameLen < fuel) :
    receiveLoop A body fuel wireSeq cipher s (pieces.map .bytes)
      = some (overFrames body wireSeq s (completeFrames pieces.flatten.length frames)) := by
  have hpos : 0 < frameLen := by decide
  induction frames generalizing wireSeq cipher s fuel pieces with
  | nil =>
      have hnil : pieces.flatten = [] := List.prefix_nil.mp hpre
      rw [completeFrames, List.take_nil]
      exact receiveLoop_short body _ _ _ hne (Nat.zero_lt_of_lt hfuel) (by rw [hnil]; exact hpos)
  | cons f frames ih =>
      obtain ⟨kind, cell⟩ := f
      rcases Nat.lt_or_ge pieces.flatten.length frameLen with hshort | hlong
      · rw [completeFrames, Nat.div_eq_of_lt hshort]
        exact receiveLoop_short body _ _ _ hne (Nat.zero_lt_of_lt hfuel) hshort
      · obtain ⟨rest, hrest, hpre', hlen, hread⟩ := readSealedFrame_complete hA hne hpre hlong
        have hdiv : pieces.flatten.length / frameLen = rest.flatten.length / frameLen + 1 := by
          rw [← hlen, Nat.add_div_right _ hpos]
        rw [hdiv] at hfuel
        obtain ⟨fuel, rfl⟩ : ∃ k, fuel = k + 1 :=
          Nat.exists_eq_succ_of_ne_zero (Nat.ne_of_gt (Nat.zero_lt_of_lt hfuel))
        rw [receiveLoop, hread, completeFrames, hdiv, List.take_succ_cons, overFrames]
        dsimp only
        rcases body wireSeq s kind cell.bytes with ⟨e | ⟨⟩, s'⟩
        · rfl
        · exact ih fuel _ _ hrest hpre' (Nat.lt_of_succ_lt_succ hfuel)

-- ============================================================================
-- What the bodies do on complete frames
-- ============================================================================

/-- The non-empty payloads of the real frames. -/
def payloads (frames : List (UInt8 × Cell)) : List Bytes :=
  (frames.filterMap fun (kind, cell) =>
    if kind = kindReal then some (decodeRealCell cell.bytes).2 else none).filter (· ≠ [])

theorem payloads_append (fs gs : List (UInt8 × Cell)) :
    payloads (fs ++ gs) = payloads fs ++ payloads gs := by
  rw [payloads, List.filterMap_append, List.filter_append, payloads, payloads]

/-- A frame into a side that takes everything. -/
theorem stripAndForward_takes {accepts : Nat → Bool} (hout : ∀ i, accepts i = true)
    (wireSeq : Nat) (written : List Bytes) (kind : UInt8) (cell : Cell) :
    stripAndForward accepts wireSeq written kind cell.bytes
      = (.ok (), written ++ payloads [(kind, cell)]) := by
  unfold stripAndForward realOnly
  by_cases hkind : kind = kindReal
  · by_cases hdata : (decodeRealCell cell.bytes).2 = []
    · simp [payloads, hkind, hdata]
    · simp [payloads, hkind, hdata, hout]
  · simp [payloads, hkind]

/-- Into a side that takes everything, the payloads are written in order. -/
theorem overFrames_strip {accepts : Nat → Bool} (hout : ∀ i, accepts i = true) (wireSeq : Nat)
    (written : List Bytes) (frames : List (UInt8 × Cell)) :
    overFrames (stripAndForward accepts) wireSeq written frames
      = (.ok (), written ++ payloads frames) := by
  induction frames generalizing wireSeq written with
  | nil => exact congrArg (Prod.mk _) (List.append_nil written).symm
  | cons f frames ih =>
      obtain ⟨kind, cell⟩ := f
      rw [overFrames, stripAndForward_takes hout]
      exact (ih _ _).trans (by rw [List.append_assoc, ← payloads_append]; rfl)

/-- The client's loop refuses no frame. -/
theorem overFrames_inbound (env : Nat → MuxWire → MuxWire) (wireSeq : Nat) (w : MuxWire)
    (frames : List (UInt8 × Cell)) :
    (overFrames (receiveMuxInbound env) wireSeq w frames).1 = .ok () := by
  induction frames generalizing wireSeq w with
  | nil => rfl
  | cons f frames ih =>
      obtain ⟨kind, cell⟩ := f
      rw [overFrames, receiveMuxInbound, realOnly]
      split
      · next heq =>
        split at heq <;> cases heq
      · exact ih _ _

-- ============================================================================
-- Telling a cut wire from a finished one
-- ============================================================================

/-- A wire of `n` bytes ends behind a frame. -/
def AtBoundary (n : Nat) : Prop := frameLen ∣ n

instance (n : Nat) : Decidable (AtBoundary n) := inferInstanceAs (Decidable (frameLen ∣ n))

/-- The loop returns `Ok` only at a boundary, and an error where a frame is cut. -/
def NoticesCut (n : Nat) (result : Except ReceiveError Unit) : Prop :=
  (result = .ok () → AtBoundary n) ∧ (¬ AtBoundary n → ∃ e, result = .error e)

/-- A loop notices the cut if there is none, or if its body refused a frame before. -/
theorem noticesCut_iff {n : Nat} {result : Except ReceiveError Unit} :
    NoticesCut n result ↔ AtBoundary n ∨ result ≠ .ok () := by
  constructor
  · rintro ⟨hok, -⟩
    by_cases hresult : result = .ok ()
    · exact .inl (hok hresult)
    · exact .inr hresult
  · rintro (hat | hresult)
    · exact ⟨fun _ => hat, fun hn => absurd hat hn⟩
    · refine ⟨fun hok => absurd hok hresult, fun _ => ?_⟩
      cases result with
      | error e => exact ⟨e, rfl⟩
      | ok u => exact absurd rfl hresult

/-- A frame opens a stream that is new to a demux at its per-wire cap. -/
def OverStreamCap (env : Nat → Demux → Demux) (prev : Nat → Nat) :
    Nat → Demux → List (UInt8 × Cell) → Prop
  | _, _, [] => False
  | wireSeq, d, (kind, cell) :: frames =>
      (kind = kindReal ∧ (decodeRealCell cell.bytes).2 ≠ [] ∧
        (decodeRealCell cell.bytes).1 ∉ (env wireSeq d).streamMap ∧
        maxStreamsPerWire ≤ (env wireSeq d).streamMap.entries.length) ∨
      OverStreamCap env prev (wireSeq + 1)
        (muxDemuxToBridges env prev wireSeq d kind cell.bytes).2 frames

/-- The demux refuses what is over its cap and nothing else. -/
theorem overFrames_demux (env : Nat → Demux → Demux) (prev : Nat → Nat) (wireSeq : Nat)
    (d : Demux) (frames : List (UInt8 × Cell)) :
    (overFrames (muxDemuxToBridges env prev) wireSeq d frames).1 ≠ .ok () ↔
      OverStreamCap env prev wireSeq d frames := by
  induction frames generalizing wireSeq d with
  | nil => exact ⟨fun h => h rfl, False.elim⟩
  | cons f frames ih =>
      obtain ⟨kind, cell⟩ := f
      have hbody : (kind = kindReal ∧ (decodeRealCell cell.bytes).2 ≠ [] ∧
          (decodeRealCell cell.bytes).1 ∉ (env wireSeq d).streamMap ∧
          maxStreamsPerWire ≤ (env wireSeq d).streamMap.entries.length) ↔
          (muxDemuxToBridges env prev wireSeq d kind cell.bytes).1 ≠ .ok () := by
        unfold muxDemuxToBridges realOnly
        dsimp only
        by_cases hkind : kind = kindReal
        · rw [if_pos hkind]
          split
          · next hover => exact ⟨fun _ => nofun, fun _ => ⟨hkind, hover⟩⟩
          · next hunder => exact ⟨fun h => absurd h.2 hunder, fun h => absurd rfl h⟩
        · rw [if_neg hkind]
          exact ⟨fun h => absurd h.1 hkind, fun h => absurd rfl h⟩
      rw [OverStreamCap, hbody, overFrames]
      rcases muxDemuxToBridges env prev wireSeq d kind cell.bytes with ⟨e | ⟨⟩, d'⟩
      · exact ⟨fun h => .inl h, fun _ => nofun⟩
      · rw [ih (wireSeq + 1) d']
        exact ⟨fun h => .inr h, fun h => h.resolve_left fun hne => hne rfl⟩

/-- **A cut wire is noticed only where it is not cut.** For every list of sealed
    frames, every prefix of their stream and every way to read it: the three loops end;
    `strip_and_forward` has written the payloads of the complete real frames, in order;
    and a loop tells a cut wire from a finished one exactly when the wire ends at a
    frame boundary, or when the demux has refused a stream before. -/
theorem noticesCut_iff_atBoundary {A : Aead} (hA : A.Lawful) (cipher : FrameCipher)
    (frames : List (UInt8 × Cell)) (pieces : List Bytes) (hne : ∀ p ∈ pieces, p ≠ [])
    (hpre : pieces.flatten <+: sealedStream A cipher frames) (accepts : Nat → Bool)
    (hout : ∀ i, accepts i = true) (w₀ : MuxWire) (circuits : Nat → MuxWire → MuxWire)
    (d₀ : Demux) (relays : Nat → Demux → Demux) (prev : Nat → Nat) (fuel : Nat)
    (hfuel : pieces.flatten.length / frameLen < fuel) :
    (∃ result,
      receiveLoop A (stripAndForward accepts) fuel 0 cipher [] (pieces.map .bytes)
        = some (result, payloads (completeFrames pieces.flatten.length frames)) ∧
      (NoticesCut pieces.flatten.length result ↔ AtBoundary pieces.flatten.length)) ∧
    (∃ result w,
      receiveLoop A (receiveMuxInbound circuits) fuel 0 cipher w₀ (pieces.map .bytes)
        = some (result, w) ∧
      (NoticesCut pieces.flatten.length result ↔ AtBoundary pieces.flatten.length)) ∧
    ∃ result d,
      receiveLoop A (muxDemuxToBridges relays prev) fuel 0 cipher d₀ (pieces.map .bytes)
        = some (result, d) ∧
      (NoticesCut pieces.flatten.length result ↔ AtBoundary pieces.flatten.length ∨
        OverStreamCap relays prev 0 d₀ (completeFrames pieces.flatten.length frames)) := by
  have hok : NoticesCut pieces.flatten.length (.ok ()) ↔ AtBoundary pieces.flatten.length := by
    rw [noticesCut_iff]
    exact ⟨fun h => h.resolve_right fun hne => hne rfl, fun h => .inl h⟩
  have hstrip := receiveLoop_eq hA (stripAndForward accepts) fuel 0 [] hne hpre hfuel
  rw [overFrames_strip hout, List.nil_append] at hstrip
  have hinbound := receiveLoop_eq hA (receiveMuxInbound circuits) fuel 0 w₀ hne hpre hfuel
  have hdemux := receiveLoop_eq hA (muxDemuxToBridges relays prev) fuel 0 d₀ hne hpre hfuel
  refine ⟨⟨_, hstrip, hok⟩, ⟨_, _, hinbound, ?_⟩, _, _, hdemux, ?_⟩
  · rw [overFrames_inbound]
    exact hok
  · rw [noticesCut_iff, overFrames_demux]

/-- Two frames, a real one and a dummy. -/
def twoFrames : List (UInt8 × Cell) :=
  [(kindReal, (encodeRealCell 0 [42] (⟨0⟩ : FixedRng)).1),
    (kindDummy, (encodeCloseCell 0 (⟨0⟩ : FixedRng)).1)]

def wireCipher : FrameCipher := .new (Vector.replicate 32 9)

/-- The two frames in two reads, cut inside the first frame. -/
def twoReads : List Bytes :=
  [(sealedStream .tagOnly wireCipher twoFrames).take 100,
    (sealedStream .tagOnly wireCipher twoFrames).drop 100]

/-- A whole wire: the payload is written, and the end is at a boundary. -/
theorem noticesCut_iff_atBoundary_two_frames :
    AtBoundary twoReads.flatten.length ∧ ∃ result,
      receiveLoop .tagOnly (stripAndForward fun _ => true) 3 0 wireCipher [] (twoReads.map .bytes)
        = some (result, payloads (completeFrames twoReads.flatten.length twoFrames)) ∧
      (NoticesCut twoReads.flatten.length result ↔ AtBoundary twoReads.flatten.length) :=
  ⟨by decide +kernel, (noticesCut_iff_atBoundary Aead.tagOnly_lawful wireCipher twoFrames twoReads
    (by decide +kernel) (by decide +kernel) (fun _ => true) (fun _ => rfl)
    (.connect (Vector.replicate 32 7)) (fun _ w => w) (.new .off 0) (fun _ d => d) (fun _ => 0) 3
    (by decide +kernel)).1⟩

/-- The wire is cut 100 bytes into its only frame: the loop returns `Ok`, with nothing
    written. -/
theorem cut_frame_ends_ok :
    [(sealedStream .tagOnly wireCipher (twoFrames.take 1)).take 100].flatten
        <+: sealedStream .tagOnly wireCipher (twoFrames.take 1) ∧
      receiveLoop .tagOnly (stripAndForward fun _ => true) 1 0 wireCipher []
        [.bytes ((sealedStream .tagOnly wireCipher (twoFrames.take 1)).take 100)]
        = some (.ok (), []) ∧
      ¬ NoticesCut 100 (.ok ()) := by
  refine ⟨by decide +kernel, by decide +kernel, fun h => ?_⟩
  have hcut : ¬ AtBoundary 100 := by decide +kernel
  exact hcut (h.1 rfl)

end MixTor
