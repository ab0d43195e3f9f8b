/-
  MixTor.Transport.Direction

  One direction of a connection, from the sources of its streams to the receiver
  at the other end of the wire (transport.rs).

  The reader of `shaped_forward`, or the readers of the circuits of a mux wire
  (`mux_tor_reader`), put their cells on the channel of one flow.  The emitter
  shapes and seals them, the receiver reads the wire in pieces of any size, opens
  the frames and tells the streams apart by their ids.  All of that interleaves
  freely.

  The downlink of a mux wire has one more sender: `mux_demux_to_bridges` answers a
  sentinel of the uplink with a sentinel of its own, wherever the reader of that
  stream has got to.

  For each stream without such an echo the whole is a `Pipe`: bytes read from its
  source come out at the other end in order, and its sentinel comes out last.  The
  bytes of an echoed stream come out in order too, but its end may be announced
  before them.
-/

import MixTor.Lib.Keyed
import MixTor.Lib.Pipe
import MixTor.Transport.CellCodec
import MixTor.Transport.EntryGate
import MixTor.Transport.InOrderDelivery

namespace MixTor

open Channel
open Crypto (Bytes Aead Blake3 FrameCipher StreamRead)

-- ============================================================================
-- The readers
-- ============================================================================

/-- A read after which a reader does not read again. -/
def lastRead : StreamRead → Bool
  | .ioError => true
  | .bytes b => b.isEmpty

/-- A reader task with what its source has returned so far. -/
structure StreamReader (σ : Type) where
  streamId : UInt16
  maxRead : Nat
  padRng : σ
  /-- It is a `mux_tor_reader`, which sends a sentinel when its source ends; the
      reader of `shaped_forward` does not. -/
  sentinel : Bool
  src : List StreamRead

namespace StreamReader

variable {σ : Type} [RngCore σ]

/-- The source has ended or failed. -/
def ended (r : StreamReader σ) : Bool := r.src.any lastRead

/-- The source has ended and not failed. -/
def sawEof (r : StreamReader σ) : Bool :=
  r.ended && (readSource r.streamId (clampRead r.maxRead) r.src r.padRng).2.1

/-- The cells the reader has encoded for what it has read. -/
def cells (r : StreamReader σ) : List Cell :=
  if r.sentinel && r.ended then muxTorReader r.streamId r.maxRead r.src r.padRng
  else (readSource r.streamId (clampRead r.maxRead) r.src r.padRng).1

/-- The next read of the source. -/
def push (r : StreamReader σ) (read : StreamRead) : StreamReader σ :=
  { r with src := r.src ++ [read] }

/-- What the cells carry. -/
def payloads (r : StreamReader σ) : List Bytes := r.cells.map fun c => (decodeRealCell c.bytes).2

end StreamReader

/-- The cells of a stream among those of a channel. -/
def cellsOf (streamId : UInt16) (cells : List Cell) : List Cell :=
  cells.filter fun c => (decodeRealCell c.bytes).1 = streamId

/-- The cells that are no sentinels. -/
def dataCells (cells : List Cell) : List Cell :=
  cells.filter fun c => (decodeRealCell c.bytes).2 ≠ []

/-- The channel holds what the readers have sent, each in its order, and between it
    sentinels of the echoed streams; its senders are gone only when every reader is
    done. -/
structure Feeds {σ : Type} [RngCore σ] (readers : List (StreamReader σ)) (echoed : List UInt16)
    (rx : Chan Cell steadyChannelCap) : Prop where
  data : ∀ r ∈ readers, dataCells (cellsOf r.streamId rx.sent) <+: dataCells r.cells
  sent : ∀ r ∈ readers, r.streamId ∉ echoed → cellsOf r.streamId rx.sent <+: r.cells
  own : ∀ c ∈ rx.sent, (∃ r ∈ readers, r.streamId = (decodeRealCell c.bytes).1) ∨
    ((decodeRealCell c.bytes).2 = [] ∧ (decodeRealCell c.bytes).1 ∈ echoed)
  closed : rx.senders = false →
    ∀ r ∈ readers, r.ended = true ∧ r.cells.Sublist (cellsOf r.streamId rx.sent)

instance {σ : Type} [RngCore σ] (readers : List (StreamReader σ)) (echoed : List UInt16)
    (rx : Chan Cell steadyChannelCap) : Decidable (Feeds readers echoed rx) :=
  decidable_of_iff
    ((∀ r ∈ readers, dataCells (cellsOf r.streamId rx.sent) <+: dataCells r.cells) ∧
      (∀ r ∈ readers, r.streamId ∉ echoed → cellsOf r.streamId rx.sent <+: r.cells) ∧
      (∀ c ∈ rx.sent, (∃ r ∈ readers, r.streamId = (decodeRealCell c.bytes).1) ∨
        ((decodeRealCell c.bytes).2 = [] ∧ (decodeRealCell c.bytes).1 ∈ echoed)) ∧
      (rx.senders = false →
        ∀ r ∈ readers, r.ended = true ∧ r.cells.Sublist (cellsOf r.streamId rx.sent)))
    ⟨fun ⟨hd, hs, ho, hc⟩ => ⟨hd, hs, ho, hc⟩, fun ⟨hd, hs, ho, hc⟩ => ⟨hd, hs, ho, hc⟩⟩

-- ============================================================================
-- The machine
-- ============================================================================

/-- The readers of one direction, its flow, its wire and its receiver. -/
structure Direction (ρ σ : Type) where
  readers : List (StreamReader σ)
  link : Link ρ
  /-- The streams whose sentinels `mux_demux_to_bridges` has answered. -/
  echoed : List UInt16

inductive DirectionEvent where
  /-- The read of the `i`-th reader returns. -/
  | source (i : Nat) (read : StreamRead)
  /-- The demux of the other direction takes a sentinel and sends one back. -/
  | echo (streamId : UInt16)
  /-- The emitter services the flow, or the receiver reads. -/
  | link (e : LinkEvent)

namespace Direction

variable {ρ σ : Type} [RngCore ρ] [RngCore σ]

/-- A flow just registered, with readers that have read nothing. -/
def start (readers : List (StreamReader σ)) (flow : FlowSlot ρ) (recvCipher : FrameCipher) :
    Direction ρ σ :=
  ⟨readers.map fun r => { r with src := [] }, ⟨flow, true, .new recvCipher, []⟩, []⟩

/-- A reader reads again once it has sent what it has read; the demux answers while it
    holds a sender; what arrives on the channel is what they send. -/
def step (F : F64) (A : Aead) (d : Direction ρ σ) : DirectionEvent → Option (Direction ρ σ)
  | .source i read =>
      match d.readers[i]? with
      | none => none
      | some r =>
          if !r.ended ∧ r.cells.Sublist (cellsOf r.streamId d.link.flow.cellRx.sent) then
            some { d with readers := d.readers.modify i (·.push read) }
          else none
  | .echo streamId =>
      if d.link.flow.cellRx.senders then some { d with echoed := d.echoed ++ [streamId] } else none
  | .link e =>
      match d.link.step F A e with
      | none => none
      | some link =>
          if Feeds d.readers d.echoed link.flow.cellRx then some { d with link } else none

/-- The payloads decoded for a stream, in order. -/
def decodedFor (streamId : UInt16) (decoded : List (UInt16 × Bytes)) : List Bytes :=
  (decoded.filter fun p => p.1 = streamId).map Prod.snd

/-- The stream of a reader, as a pipe. -/
def pipe (d : Direction ρ σ) (r : StreamReader σ) : Pipe UInt8 where
  input := delivered r.src
  output := (decodedFor r.streamId d.link.receiver.decoded).flatten
  ended := r.sawEof
  closed := decide ([] ∈ decodedFor r.streamId d.link.receiver.decoded)

end Direction

-- ============================================================================
-- What a reader has sent and will send
-- ============================================================================

section Reading

variable {σ : Type} [RngCore σ]

/-- A source that goes on is read on. -/
theorem readSource_append (streamId : UInt16) (cap : Nat) (src more : List StreamRead) (rng : σ)
    (hopen : src.any lastRead = false) :
    (readSource streamId cap src rng).2.1 = true ∧
    readSource streamId cap (src ++ more) rng
      = ((readSource streamId cap src rng).1
          ++ (readSource streamId cap more (readSource streamId cap src rng).2.2).1,
        (readSource streamId cap more (readSource streamId cap src rng).2.2).2) := by
  induction src generalizing rng with
  | nil => exact ⟨rfl, rfl⟩
  | cons read src ih =>
      rw [List.any_cons, Bool.or_eq_false_iff] at hopen
      obtain ⟨hread, hrest⟩ := hopen
      cases read with
      | ioError => cases hread
      | bytes b =>
          have hb : b ≠ [] := by
            rintro rfl
            cases hread
          obtain ⟨heof, happ⟩ := ih (encodeReads streamId rng (Slices.chunks cap b)).2 hrest
          simp only [List.cons_append, readSource, if_neg hb]
          rw [happ]
          exact ⟨heof, by simp only [List.append_assoc]⟩

omit [RngCore σ] in
theorem delivered_append (src more : List StreamRead) (hopen : src.any lastRead = false) :
    delivered (src ++ more) = delivered src ++ delivered more := by
  induction src with
  | nil => rfl
  | cons read src ih =>
      rw [List.any_cons, Bool.or_eq_false_iff] at hopen
      obtain ⟨hread, hrest⟩ := hopen
      cases read with
      | ioError => cases hread
      | bytes b =>
          have hb : b ≠ [] := by
            rintro rfl
            cases hread
          simp only [List.cons_append, delivered, if_neg hb]
          rw [ih hrest, List.append_assoc]

namespace StreamReader

variable {r : StreamReader σ}

/-- The payloads are the data read, in pieces, and a sentinel if one was sent. -/
theorem payloads_eq (r : StreamReader σ) :
    ∃ datas, r.payloads = datas ++ (if r.sentinel && r.sawEof then [[]] else []) ∧
      (∀ d ∈ datas, d ≠ []) ∧ datas.flatten = delivered r.src := by
  have hcarry := carry_readSource r.streamId (clampRead_pos r.maxRead) r.src r.padRng
  rcases hrun : readSource r.streamId (clampRead r.maxRead) r.src r.padRng with ⟨cells, eof, rng⟩
  rw [hrun] at hcarry
  refine ⟨cells.map fun c => (decodeRealCell c.bytes).2, ?_, ?_, hcarry.decoded⟩
  · rw [payloads, StreamReader.cells, sawEof, hrun, ← Bool.and_assoc]
    by_cases hclose : (r.sentinel && r.ended) = true
    · rw [if_pos hclose, hclose, Bool.true_and, muxTorReader, hrun]
      cases eof with
      | false => simp
      | true =>
          have := CellSend.decodeRealCell_encode (.close r.streamId rng)
          rw [CellSend.encode] at this
          simp [this, CellSend.payload]
    · rw [if_neg hclose, Bool.eq_false_of_not_eq_true hclose]
      simp
  · intro d hd
    obtain ⟨c, hc, rfl⟩ := List.mem_map.mp hd
    exact (hcarry.each c hc).notClose

/-- A sentinel adds no bytes. -/
theorem flatten_payloads (r : StreamReader σ) : r.payloads.flatten = delivered r.src := by
  obtain ⟨datas, hpay, -, hflat⟩ := r.payloads_eq
  rw [hpay, List.flatten_append, hflat]
  split <;> simp

theorem cells_of_open (hopen : r.ended = false) :
    r.cells = (readSource r.streamId (clampRead r.maxRead) r.src r.padRng).1 := by
  rw [cells, hopen, Bool.and_false, if_neg Bool.false_ne_true]

/-- Another read adds cells behind those there are. -/
theorem cells_prefix_push (hopen : r.ended = false) (read : StreamRead) :
    r.cells <+: (r.push read).cells := by
  obtain ⟨-, happ⟩ := readSource_append r.streamId (clampRead r.maxRead) r.src [read] r.padRng hopen
  have hread : r.cells <+: (readSource r.streamId (clampRead r.maxRead) (r.src ++ [read])
      r.padRng).1 := by
    rw [cells_of_open hopen, happ]
    exact List.prefix_append _ _
  refine hread.trans ?_
  rw [StreamReader.cells]
  split
  · rw [muxTorReader, push]
    split
    · next heq =>
      rw [heq]
      exact List.prefix_append _ _
    · next heq =>
      rw [heq]
  · exact List.prefix_rfl

/-- What one more read does to the pipe of the reader. -/
theorem push_spec (hopen : r.ended = false) (read : StreamRead) :
    r.sawEof = false ∧
      ((∃ b, delivered (r.push read).src = delivered r.src ++ b ∧ (r.push read).sawEof = false) ∨
        delivered (r.push read).src = delivered r.src ∧ (r.push read).sawEof = true) := by
  obtain ⟨-, happ⟩ := readSource_append r.streamId (clampRead r.maxRead) r.src [read] r.padRng hopen
  have hdel := delivered_append r.src [read] hopen
  have hnot : r.sawEof = false := by rw [sawEof, hopen, Bool.false_and]
  have hended : (r.push read).ended = lastRead read := by
    rw [ended, push, List.any_append, show r.src.any lastRead = false from hopen]
    simp
  refine ⟨hnot, ?_⟩
  rw [sawEof, hended, show (r.push read).src = r.src ++ [read] from rfl, hdel]
  simp only [push, happ]
  cases read with
  | ioError => exact .inl ⟨[], rfl, by simp [readSource]⟩
  | bytes b =>
      by_cases hb : b = []
      · subst hb
        exact .inr ⟨by simp [delivered], by simp [readSource, lastRead]⟩
      · exact .inl ⟨b, by simp [delivered, hb], by simp [lastRead, hb]⟩

end StreamReader

end Reading

-- ============================================================================
-- Invariant
-- ============================================================================

/-- A payload list that continues data pieces continues them in order, and only behind
    all of them with a sentinel. -/
theorem prefix_pieces {α : Type*} {pieces : List (List α)} {tail : List (List α)} {close : Bool}
    {out : List (List α)} {d : List α} (htail : tail = if close then [[]] else [])
    (hne : ∀ p ∈ pieces, p ≠ []) (hpre : out ++ [d] <+: pieces ++ tail) :
    [] ∉ out ∧ ((d ≠ [] ∧ out ++ [d] <+: pieces) ∨ (d = [] ∧ close = true ∧ out = pieces)) := by
  subst htail
  obtain ⟨rest, hrest⟩ := hpre
  have hno : ∀ l : List (List α), l <+: pieces → [] ∉ l := fun l hl hmem =>
    hne [] (hl.mem hmem) rfl
  have hinside : out ++ [d] <+: pieces → [] ∉ out ∧ ((d ≠ [] ∧ out ++ [d] <+: pieces) ∨
      (d = [] ∧ close = true ∧ out = pieces)) := by
    intro hd
    refine ⟨hno _ ((List.prefix_append _ _).trans hd), .inl ⟨?_, hd⟩⟩
    rintro rfl
    exact hno _ hd (List.mem_append_right _ List.mem_cons_self)
  rcases List.append_eq_append_iff.mp hrest with ⟨more, hmore, -⟩ | ⟨more, hmore, htail⟩
  · -- the pieces go on behind `d`
    exact hinside ⟨more, hmore.symm⟩
  · -- the pieces end before `d` or with it
    cases close with
    | false =>
        obtain ⟨rfl, -⟩ := List.append_eq_nil_iff.mp (htail.symm.trans (if_neg Bool.false_ne_true))
        rw [List.append_nil] at hmore
        exact hinside (hmore ▸ List.prefix_rfl)
    | true =>
        rw [if_pos rfl] at htail
        rcases List.append_eq_singleton_iff.mp htail.symm with ⟨rfl, -⟩ | ⟨rfl, -⟩
        · rw [List.append_nil] at hmore
          exact hinside (hmore ▸ List.prefix_rfl)
        · obtain ⟨rfl, hd⟩ := List.append_inj' hmore rfl
          exact ⟨hno _ List.prefix_rfl, .inr ⟨List.singleton_inj.mp hd, rfl, rfl⟩⟩

namespace Direction

variable {ρ σ : Type} [RngCore σ] {A : Aead} {cipher₀ : FrameCipher} {d : Direction ρ σ}

/-- The link delivers in order what the readers feed it, under ids of their own. -/
structure Inv (A : Aead) (cipher₀ : FrameCipher) (d : Direction ρ σ) : Prop where
  link : d.link.Inv A cipher₀
  feeds : Feeds d.readers d.echoed d.link.flow.cellRx
  ids : (d.readers.map StreamReader.streamId).Nodup

omit [RngCore σ] in
theorem decodedFor_append (streamId : UInt16) (ps qs : List (UInt16 × Bytes)) :
    decodedFor streamId (ps ++ qs) = decodedFor streamId ps ++ decodedFor streamId qs := by
  rw [decodedFor, List.filter_append, List.map_append, decodedFor, decodedFor]

omit [RngCore σ] in
theorem decodedFor_cells (streamId : UInt16) (cells : List Cell) :
    decodedFor streamId (cells.map fun c => decodeRealCell c.bytes)
      = (cellsOf streamId cells).map fun c => (decodeRealCell c.bytes).2 := by
  rw [decodedFor, cellsOf, List.filter_map, List.map_map]
  rfl

omit [RngCore σ] in
/-- Sentinels carry no bytes. -/
theorem flatten_dataCells (cells : List Cell) :
    ((dataCells cells).map fun c => (decodeRealCell c.bytes).2).flatten
      = (cells.map fun c => (decodeRealCell c.bytes).2).flatten := by
  rw [← List.flatten_filter_ne_nil (L := cells.map fun c => (decodeRealCell c.bytes).2),
    List.filter_map]
  rfl

/-- What has been decoded for a stream is a first part of what the channel has carried for
    it. -/
theorem Inv.decodedFor_prefix_sent (h : d.Inv A cipher₀) (streamId : UInt16) :
    decodedFor streamId d.link.receiver.decoded
      <+: (cellsOf streamId d.link.flow.cellRx.sent).map fun c => (decodeRealCell c.bytes).2 := by
  have hdecoded : d.link.receiver.decoded
      <+: d.link.flow.cellRx.sent.map fun c => decodeRealCell c.bytes := by
    refine (Link.decoded_prefix_received h.link).trans ?_
    rw [Chan.sent, List.map_append]
    exact List.prefix_append _ _
  rw [← decodedFor_cells]
  exact (hdecoded.filter fun p => p.1 = streamId).map Prod.snd

/-- Without an echo that is a first part of what its reader has sent. -/
theorem Inv.decodedFor_prefix (h : d.Inv A cipher₀) {r : StreamReader σ} (hr : r ∈ d.readers)
    (hecho : r.streamId ∉ d.echoed) :
    decodedFor r.streamId d.link.receiver.decoded <+: r.payloads :=
  (h.decodedFor_prefix_sent r.streamId).trans ((h.feeds.sent r hr hecho).map _)

/-- Echoes or not, the bytes that come out are a first part of those read. -/
theorem Inv.output_prefix (h : d.Inv A cipher₀) {r : StreamReader σ} (hr : r ∈ d.readers) :
    (d.pipe r).output <+: (d.pipe r).input := by
  have hdata := List.IsPrefix.flatten ((h.feeds.data r hr).map fun c => (decodeRealCell c.bytes).2)
  rw [flatten_dataCells, flatten_dataCells] at hdata
  have hread : r.payloads.flatten = delivered r.src := r.flatten_payloads
  rw [StreamReader.payloads] at hread
  rw [hread] at hdata
  exact (List.IsPrefix.flatten (h.decodedFor_prefix_sent r.streamId)).trans hdata

/-- What is decoded for a stream without a reader is an echo. -/
theorem Inv.decoded_own (h : d.Inv A cipher₀) {p : UInt16 × Bytes}
    (hp : p ∈ d.link.receiver.decoded) :
    (∃ r ∈ d.readers, r.streamId = p.1) ∨ (p.2 = [] ∧ p.1 ∈ d.echoed) := by
  obtain ⟨c, hc, rfl⟩ := List.mem_map.mp ((Link.decoded_prefix_received h.link).mem hp)
  exact h.feeds.own c (List.mem_append_left _ hc)

variable [RngCore ρ] {F : F64} {flow : FlowSlot ρ}

/-- A read by the receiver decodes at most one cell. -/
theorem step_decoded {l l' : Link ρ} {e : LinkEvent} (h : l.step F A e = some l') :
    l'.receiver.decoded = l.receiver.decoded ∨
      ∃ p, l'.receiver.decoded = l.receiver.decoded ++ [p] := by
  cases e with
  | service call =>
      simp only [Link.step] at h
      split at h
      · obtain rfl := Option.some.inj h
        exact .inl rfl
      · cases h
  | eof =>
      simp only [Link.step] at h
      split at h
      · obtain rfl := Option.some.inj h
        exact .inl rfl
      · cases h
  | read n =>
      simp only [Link.step] at h
      split at h
      · obtain rfl := Option.some.inj h
        simp only [Receiver.read]
        split
        · exact .inl rfl
        · split
          · exact .inl rfl
          · split
            · exact .inr ⟨_, rfl⟩
            · exact .inl rfl
      · cases h

/-- What a step does: a reader that is idle reads, the demux answers a sentinel, or the
    link moves and takes what they send. -/
theorem step_cases {d' : Direction ρ σ} {e : DirectionEvent} (h : step F A d e = some d') :
    (∃ i read r, e = .source i read ∧ d.readers[i]? = some r ∧ r.ended = false ∧
      r.cells.Sublist (cellsOf r.streamId d.link.flow.cellRx.sent) ∧
      d' = { d with readers := d.readers.modify i (·.push read) }) ∨
    (∃ streamId, e = .echo streamId ∧ d.link.flow.cellRx.senders = true ∧
      d' = { d with echoed := d.echoed ++ [streamId] }) ∨
    (∃ e' link, e = .link e' ∧ d.link.step F A e' = some link ∧
      Feeds d.readers d.echoed link.flow.cellRx ∧ d' = { d with link }) := by
  cases e with
  | source i read =>
      simp only [step] at h
      split at h
      · cases h
      · next r hr =>
        split at h
        · next hguard =>
          obtain ⟨hopen, hidle⟩ := hguard
          exact .inl ⟨i, read, r, rfl, hr, by simpa using hopen, hidle, (Option.some.inj h).symm⟩
        · cases h
  | echo streamId =>
      simp only [step] at h
      split at h
      · next hopen => exact .inr (.inl ⟨streamId, rfl, hopen, (Option.some.inj h).symm⟩)
      · cases h
  | link e' =>
      simp only [step] at h
      split at h
      · cases h
      · next link hlink =>
        split at h
        · next hfeeds => exact .inr (.inr ⟨e', link, rfl, hlink, hfeeds, (Option.some.inj h).symm⟩)
        · cases h

omit [RngCore ρ] in
/-- A reader that reads on still feeds the channel. -/
theorem Inv.source (h : d.Inv A cipher₀) {i : Nat} {r : StreamReader σ} {read : StreamRead}
    (hr : d.readers[i]? = some r) (hopen : r.ended = false) :
    ({ d with readers := d.readers.modify i (·.push read) } : Direction ρ σ).Inv A cipher₀ := by
  obtain ⟨hlink, ⟨hdata, hsent, hown, hclosed⟩, hids⟩ := h
  have hkeys : (d.readers.modify i (·.push read)).map StreamReader.streamId
      = d.readers.map StreamReader.streamId := Keyed.map_modify_same fun _ _ => rfl
  have hr' := List.mem_of_getElem? hr
  have hpush := StreamReader.cells_prefix_push hopen read
  -- each reader is one there was, or the one that has read
  have hcase : ∀ q ∈ d.readers.modify i (·.push read), q ∈ d.readers ∨ q = r.push read := by
    intro q hq
    obtain ⟨j, hj⟩ := List.getElem?_of_mem hq
    rcases Keyed.modify_cases hj with ⟨-, hold⟩ | ⟨rfl, r₀, hr₀, rfl⟩
    · exact .inl (List.mem_of_getElem? hold)
    · obtain rfl := Option.some.inj (hr.symm.trans hr₀)
      exact .inr rfl
  refine ⟨hlink, ⟨?_, ?_, ?_, ?_⟩, hkeys ▸ hids⟩
  · intro q hq
    rcases hcase q hq with hold | rfl
    · exact hdata q hold
    · exact (hdata r hr').trans (hpush.filter _)
  · intro q hq hecho
    rcases hcase q hq with hold | rfl
    · exact hsent q hold hecho
    · exact (hsent r hr' hecho).trans hpush
  · intro c hc
    refine (hown c hc).imp_left fun ⟨q, hq, hid⟩ => ?_
    obtain ⟨j, hj⟩ := List.getElem?_of_mem hq
    by_cases hij : i = j
    · subst hij
      exact ⟨q.push read, List.mem_of_getElem? (by rw [List.getElem?_modify_eq, hj]; rfl), hid⟩
    · exact ⟨q, List.mem_of_getElem? (by rw [List.getElem?_modify_ne _ _ hij, hj]), hid⟩
  · intro hs
    have := (hclosed hs r hr').1
    rw [hopen] at this
    cases this

omit [RngCore ρ] in
/-- An answer only frees its stream. -/
theorem Inv.echo (h : d.Inv A cipher₀) (streamId : UInt16) :
    ({ d with echoed := d.echoed ++ [streamId] } : Direction ρ σ).Inv A cipher₀ := by
  obtain ⟨hlink, ⟨hdata, hsent, hown, hclosed⟩, hids⟩ := h
  refine ⟨hlink, ⟨hdata, fun r hr hecho => hsent r hr fun hold => ?_, fun c hc => ?_, hclosed⟩,
    hids⟩
  · exact hecho (List.mem_append_left _ hold)
  · exact (hown c hc).imp_right fun ⟨hclose, hold⟩ => ⟨hclose, List.mem_append_left _ hold⟩

theorem step_inv (hA : A.Lawful) {d' : Direction ρ σ} {e : DirectionEvent} (h : d.Inv A cipher₀)
    (hstep : step F A d e = some d') : d'.Inv A cipher₀ := by
  rcases step_cases hstep with ⟨i, read, r, -, hr, hopen, -, rfl⟩ | ⟨streamId, -, -, rfl⟩ |
    ⟨e', link, -, hlink, hfeeds, rfl⟩
  · exact h.source hr hopen
  · exact h.echo streamId
  · exact ⟨Link.step_inv hA h.link hlink, hfeeds, h.ids⟩

-- ============================================================================
-- Refinement
-- ============================================================================

/-- The pipe of the `i`-th reader, for as long as its stream is not echoed. -/
def IsPipe (i : Nat) (d : Direction ρ σ) (p : Pipe UInt8) : Prop :=
  ∃ r, d.readers[i]? = some r ∧ (r.streamId ∉ d.echoed → p = d.pipe r)

omit [RngCore ρ] in
/-- A read puts what it returns into the pipe, or ends it. -/
theorem pipe_push (d : Direction ρ σ) {r : StreamReader σ} (hopen : r.ended = false)
    (read : StreamRead) (readers : List (StreamReader σ)) :
    ∃ trace, Machine.run Pipe.step (d.pipe r) trace
      = some (({ d with readers } : Direction ρ σ).pipe (r.push read)) := by
  obtain ⟨hnot, ⟨b, hdel, heof⟩ | ⟨hdel, heof⟩⟩ := StreamReader.push_spec hopen read
  · refine ⟨[.push b], ?_⟩
    simp only [Machine.run, Pipe.step, pipe, hnot, hdel, heof]
    rfl
  · refine ⟨[.finish], ?_⟩
    simp only [Machine.run, Pipe.step, pipe, hnot, hdel, heof]
    rfl

omit [RngCore ρ] in
/-- A decoded cell takes its data out of the pipe of its stream, or closes it. -/
theorem pipe_decode {link : Link ρ} {p : UInt16 × Bytes} {r : StreamReader σ} (hr : r ∈ d.readers)
    (h : ({ d with link } : Direction ρ σ).Inv A cipher₀) (hecho : r.streamId ∉ d.echoed)
    (hdec : link.receiver.decoded = d.link.receiver.decoded ++ [p]) :
    ∃ trace, Machine.run Pipe.step (d.pipe r) trace
      = some (({ d with link } : Direction ρ σ).pipe r) := by
  obtain ⟨streamId, data⟩ := p
  have hafter := h.decodedFor_prefix hr hecho
  simp only [hdec, decodedFor_append] at hafter
  by_cases hid : streamId = r.streamId
  · subst hid
    have hone : decodedFor r.streamId [(r.streamId, data)] = [data] := by simp [decodedFor]
    obtain ⟨datas, hpay, hne, hflat⟩ := r.payloads_eq
    rw [hone, hpay] at hafter
    obtain ⟨hno, hnext⟩ := prefix_pieces rfl hne hafter
    have hclosed : (d.pipe r).closed = false := decide_eq_false hno
    rcases hnext with ⟨hdata, hpre⟩ | ⟨rfl, hclose, hall⟩
    · have hinput : (d.pipe r).output ++ data <+: (d.pipe r).input := by
        have := List.IsPrefix.flatten hpre
        rwa [List.flatten_append, List.flatten_singleton, hflat] at this
      refine ⟨[.pull data.length], ?_⟩
      rw [Machine.run_cons, Pipe.step_pull hclosed hinput]
      simp only [Machine.run, Option.bind_some, pipe, hdec, decodedFor_append, hone,
        List.flatten_append, List.flatten_singleton, List.mem_append, List.mem_singleton,
        Ne.symm hdata, or_false]
    · have hended : (d.pipe r).ended = true := (Bool.and_eq_true_iff.mp hclose).2
      have hout : (d.pipe r).output = (d.pipe r).input := by
        rw [pipe, hall, hflat]
      refine ⟨[.close], ?_⟩
      rw [Machine.run_cons, Pipe.step_close hclosed hended hout]
      simp [Machine.run, pipe, hdec, decodedFor_append, hone]
  · have hnone : decodedFor r.streamId [(streamId, data)] = [] := by simp [decodedFor, hid]
    refine ⟨[], ?_⟩
    simp only [Machine.run, pipe, hdec, decodedFor_append, hnone, List.append_nil]

/-- Every step of a direction is a few steps of the pipe of each stream. -/
theorem simulates (hA : A.Lawful) (i : Nat) :
    Machine.Simulates (step F A) Pipe.step
      fun (d : Direction ρ σ) p => d.Inv A cipher₀ ∧ IsPipe i d p := by
  rintro d e d' p ⟨hinv, r, hr, hpipe⟩ hstep
  have hinv' := step_inv hA hinv hstep
  rcases step_cases hstep with ⟨j, read, r₀, -, hr₀, hopen, -, rfl⟩ | ⟨streamId, -, -, rfl⟩ |
    ⟨e', link, -, hlink, -, rfl⟩
  · by_cases hij : j = i
    · subst hij
      obtain rfl := Option.some.inj (hr.symm.trans hr₀)
      have hr' : (d.readers.modify j (·.push read))[j]? = some (r.push read) := by
        rw [List.getElem?_modify_eq, hr]
        rfl
      by_cases hecho : r.streamId ∈ d.echoed
      · exact ⟨[], _, rfl, hinv', r.push read, hr', fun hnot => absurd hecho hnot⟩
      · obtain rfl := hpipe hecho
        obtain ⟨trace, htrace⟩ := pipe_push d hopen read (d.readers.modify j (·.push read))
        exact ⟨trace, _, htrace, hinv', r.push read, hr', fun _ => rfl⟩
    · refine ⟨[], _, rfl, hinv', r, ?_, hpipe⟩
      rw [List.getElem?_modify_ne _ _ hij, hr]
  · exact ⟨[], _, rfl, hinv', r, hr, fun hecho =>
      hpipe fun hold => hecho (List.mem_append_left _ hold)⟩
  · rcases step_decoded hlink with hsame | ⟨q, hq⟩
    · refine ⟨[], _, rfl, hinv', r, hr, fun hecho => (hpipe hecho).trans ?_⟩
      simp only [pipe, hsame]
    · by_cases hecho : r.streamId ∈ d.echoed
      · exact ⟨[], _, rfl, hinv', r, hr, fun hnot => absurd hecho hnot⟩
      · obtain rfl := hpipe hecho
        obtain ⟨trace, htrace⟩ := pipe_decode (List.mem_of_getElem? hr) hinv' hecho hq
        exact ⟨trace, _, htrace, hinv', r, hr, fun _ => rfl⟩

-- ============================================================================
-- Runs
-- ============================================================================

/-- A flow as `shaped_forward` or `register_shaped_flow` registers it. -/
def Registered (F : F64) (H : Blake3) (new : NewFlow ρ) (flow : FlowSlot ρ) : Prop :=
  shapedForward F H new = some flow ∨ registerShapedFlow F H new = some flow

omit [RngCore σ] in
theorem Registered.spec {H : Blake3} {new : NewFlow ρ} (h : Registered F H new flow) :
    flow.Accounted A new.cipher ∧ flow.ReaderState ∧ flow.cipher = new.cipher ∧ flow.wire = [] ∧
      flow.cellRx = .new := by
  rcases h with h | h
  · obtain ⟨session, clock, hnew, rfl⟩ := FlowSlot.shapedForward_eq_some h
    exact ⟨FlowSlot.registered_accounted hnew _ _ _ _ _,
      ⟨Nat.zero_le _, fun hd => absurd hd Bool.false_ne_true⟩, rfl, rfl, rfl⟩
  · rw [registerShapedFlow] at h
    split at h
    · next session clock hnew =>
      obtain rfl := Option.some.inj h
      exact ⟨FlowSlot.registered_accounted hnew _ _ _ _ _,
        ⟨Nat.zero_le _, fun hd => absurd hd Bool.false_ne_true⟩, rfl, rfl, rfl⟩
    · cases h

theorem start_inv {H : Blake3} {new : NewFlow ρ} (h : Registered F H new flow)
    {readers : List (StreamReader σ)} (hids : (readers.map StreamReader.streamId).Nodup) :
    (start readers flow new.cipher).Inv A new.cipher := by
  obtain ⟨hacc, -, hcipher, hwire, hrx⟩ := h.spec (A := A)
  refine ⟨?_, ?_, ?_⟩
  · rw [← hcipher] at hacc ⊢
    exact Link.start_inv hacc hwire
  · have hsent : (start readers flow new.cipher).link.flow.cellRx.sent = [] := by
      rw [start, hrx]
      rfl
    refine ⟨fun r _ => ?_, fun r _ _ => ?_, fun c hc => ?_, fun hs => ?_⟩
    · rw [hsent]
      exact List.nil_prefix
    · rw [hsent]
      exact List.nil_prefix
    · rw [hsent] at hc
      cases hc
    · rw [start, hrx] at hs
      cases hs
  · rwa [start, List.map_map]

/-- What happened to the stream of a reader in a run: its bytes came out in order, and
    without an echo it went through a run of a pipe. -/
theorem run_pipe (hA : A.Lawful) {H : Blake3} {new : NewFlow ρ} (hflow : Registered F H new flow)
    {readers : List (StreamReader σ)} (hids : (readers.map StreamReader.streamId).Nodup)
    {events : List DirectionEvent} {d : Direction ρ σ}
    (hrun : Machine.run (step F A) (start readers flow new.cipher) events = some d) {i : Nat}
    (hi : i < readers.length) :
    ∃ r, d.readers[i]? = some r ∧ (d.pipe r).output <+: (d.pipe r).input ∧
      (r.streamId ∉ d.echoed → ∃ trace,
        Machine.run Pipe.step Pipe.new trace = some (d.pipe r) ∧ (d.pipe r).Sound) := by
  have hpipe : IsPipe i (start readers flow new.cipher) Pipe.new := by
    refine ⟨{ readers[i] with src := [] }, ?_, fun _ => rfl⟩
    rw [start, List.getElem?_map, List.getElem?_eq_getElem hi]
    rfl
  obtain ⟨trace, p, htrace, hinv, r, hr, hp⟩ :=
    (simulates hA i).run ⟨start_inv (A := A) hflow hids, hpipe⟩ hrun
  refine ⟨r, hr, hinv.output_prefix (List.mem_of_getElem? hr), fun hecho => ?_⟩
  obtain rfl := hp hecho
  exact ⟨trace, htrace, Pipe.run_sound htrace⟩

/-- **A direction is a pipe for each of its streams.**  In every run of a production flow
    with readers of distinct stream ids and a receiver at the same key, however reads,
    sends, echoes, slots, partial writes and partial reads interleave: the bytes of each
    stream come out in order.  What happened to a stream without an echo is a run of a
    pipe, so its sentinel comes out behind all of them.  And nothing but echoes is
    decoded for any other stream. -/
theorem refines_pipes (hA : A.Lawful) (H : Blake3) (new : NewFlow ρ)
    (hflow : Registered F H new flow) (readers : List (StreamReader σ))
    (hids : (readers.map StreamReader.streamId).Nodup) (events : List DirectionEvent)
    {d : Direction ρ σ}
    (hrun : Machine.run (step F A) (start readers flow new.cipher) events = some d) :
    (∀ i < readers.length, ∃ r, d.readers[i]? = some r ∧
      (d.pipe r).output <+: (d.pipe r).input ∧
      (r.streamId ∉ d.echoed → ∃ trace,
        Machine.run Pipe.step Pipe.new trace = some (d.pipe r) ∧ (d.pipe r).Sound)) ∧
    ∀ p ∈ d.link.receiver.decoded,
      (∃ r ∈ d.readers, r.streamId = p.1) ∨ (p.2 = [] ∧ p.1 ∈ d.echoed) := by
  refine ⟨fun i hi => run_pipe hA hflow hids hrun hi, fun p hp => ?_⟩
  exact (Machine.run_invariant (fun _ _ _ h hs => step_inv hA h hs) (start_inv hflow hids)
    hrun).decoded_own hp

/-- A single-circuit reader over a source that has not been read. -/
def singleReader : StreamReader FixedRng := ⟨streamIdSingle, 4096, ⟨0⟩, false, []⟩

def steepOff : NewFlow FixedRng := { Connections.steepNew with tail := .off }

theorem registered_steepOff :
    Registered .steep .sumBytes steepOff (Service.steepFlow 157 .off) := by
  have hnew : ShapedSession.new .steep .sumBytes steepOff.clock steepOff.seed
      (shapedCompositionConfig .steep steepOff.initialIatMs) steepOff.composerRng
        = some (.ok (steepSession 157, .const 0)) := new_steepSession 157
  left
  rw [shapedForward, hnew]
  rfl

/-- A reader of replies to circuit 7. -/
def echoedReader : StreamReader FixedRng := ⟨7, 4096, ⟨0⟩, true, []⟩

/-- Two sources return a byte each, and the second stream is echoed before its byte is sent;
    the three cells leave in three slots, and the first frame is read in two pieces. -/
def echoRun : List DirectionEvent :=
  let cells := (singleReader.push (.bytes [42])).cells ++ [(encodeCloseCell 7 (⟨0⟩ : FixedRng)).1]
    ++ (echoedReader.push (.bytes [7])).cells
  [.source 0 (.bytes [42]), .source 1 (.bytes [7]), .echo 7,
    .link (.service ⟨.const 0, fun i => if i = 0 then ⟨cells, false⟩ else .none, .ok⟩),
    .link (.service ⟨.const 60000000, fun _ => .none, .ok⟩),
    .link (.service ⟨.const 120000000, fun _ => .none, .ok⟩),
    .link (.service ⟨.const 180000000, fun _ => .none, .ok⟩),
    .link (.read 500), .link (.read 31), .link (.read 531), .link (.read 531)]

theorem refines_pipes_one_byte :
    ∃ (d : Direction FixedRng FixedRng) (r r' : StreamReader FixedRng),
      d.pipe r = ⟨[42], [42], false, false⟩ ∧ d.pipe r' = ⟨[7], [7], false, true⟩ ∧
      (∃ trace, Machine.run Pipe.step Pipe.new trace = some (d.pipe r)) ∧
      (d.pipe r').output <+: (d.pipe r').input := by
  have hrun : (Machine.run (step .steep .tagOnly)
        (start [singleReader, echoedReader] (Service.steepFlow 157 .off) steepOff.cipher)
        echoRun).map (fun d => (d.readers[0]?.map d.pipe, d.readers[1]?.map d.pipe,
          d.readers[0]?.map StreamReader.streamId, d.echoed))
      = some (some ⟨[42], [42], false, false⟩, some ⟨[7], [7], false, true⟩, some 0, [7]) := by
    decide +kernel
  obtain ⟨d, hd, hstate⟩ := Option.map_eq_some_iff.mp hrun
  simp only [Prod.mk.injEq] at hstate
  obtain ⟨hpipe, hpipe', hid, hecho⟩ := hstate
  obtain ⟨r, hr, hval⟩ := Option.map_eq_some_iff.mp hpipe
  obtain ⟨r', hr', hval'⟩ := Option.map_eq_some_iff.mp hpipe'
  have hall := (refines_pipes Aead.tagOnly_lawful .sumBytes steepOff registered_steepOff
    [singleReader, echoedReader] (by decide) echoRun hd).1
  obtain ⟨q, hq, -, htrace⟩ := hall 0 (by decide)
  obtain ⟨q', hq', hout, -⟩ := hall 1 (by decide)
  obtain rfl := Option.some.inj (hr.symm.trans hq)
  obtain rfl := Option.some.inj (hr'.symm.trans hq')
  rw [hr] at hid
  obtain ⟨trace, hrunPipe, -⟩ := htrace (by
    rw [hecho, Option.some.inj hid]
    decide)
  exact ⟨d, r, r', hval, hval', ⟨trace, hrunPipe⟩, hout⟩

end Direction

end MixTor
