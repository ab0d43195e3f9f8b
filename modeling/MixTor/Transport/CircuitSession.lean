/-
  MixTor.Transport.CircuitSession

  A connection from the handshake on (transport.rs): the client of
  `handle_client_connection_with_lab` or of `MuxWire::connect` and the server of
  `handle_server_connection_with_lab`.

  Each end seals with one of the two ciphers its handshake returns and opens with
  the other.  After an exchange in which each side reads what the other has
  written, the ciphers of the two ends match crosswise, and both directions are
  pipes, whatever the order in which the two ends move: the uplink for all its
  streams, the downlink for those the client has not closed.
-/

import MixTor.Crypto.Handshake
import MixTor.Transport.Direction

namespace MixTor

open Crypto

/-- An undisturbed exchange: each side reads, in pieces of any size and in the hour it is
    written in, the message of the other, and nothing behind it: frames that came in
    with the message would be lost to the handshake's buffer. -/
structure Exchange (C : Curve) (H : Blake3Kdf) where
  staticKp : StaticKeypair C
  x : Ephemeral C
  y : Ephemeral C
  xPoint : Key
  clientPad : HsPad
  serverPad : HsPad
  clientSecs : Nat
  serverSecs : Nat
  serverNow : Int → Nat
  clientNow : Int → Nat
  serverReads : List Bytes
  clientReads : List Bytes
  decodes : C.fromRepresentative x.repr = some xPoint
  nonzero : (dhIsZero (dh C xPoint y.priv) || dhIsZero (dh C xPoint staticKp.secretBytes)) = false
  clientMark : MarkNotEarly H.toBlake3 (identityMacKey H staticKp.publicBytes) x.repr.toList
    clientPad
  serverMark : MarkNotEarly H.toBlake3 (identityMacKey H staticKp.publicBytes)
    (y.repr.toList ++ ((honestTranscript staticKp x y xPoint).auth H).toList) serverPad
  sameHour : serverNow 0 = clientSecs
  sameHour' : clientNow 0 = serverSecs
  serverReads_ne : ∀ r ∈ serverReads, r ≠ []
  clientReads_ne : ∀ r ∈ clientReads, r ≠ []
  serverReads_eq : serverReads.flatten
    = (clientHandshake C H staticKp.publicBytes x clientPad clientSecs .done clientNow
        (clientReads.map .bytes)).written
  clientReads_eq : clientReads.flatten
    = (serverHandshake C H staticKp y serverPad serverSecs .done serverNow
        (serverReads.map .bytes)).written

namespace Exchange

variable {C : Curve} {H : Blake3Kdf}

def client (e : Exchange C H) : HandshakeRun :=
  clientHandshake C H e.staticKp.publicBytes e.x e.clientPad e.clientSecs .done e.clientNow
    (e.clientReads.map .bytes)

def server (e : Exchange C H) : HandshakeRun :=
  serverHandshake C H e.staticKp e.y e.serverPad e.serverSecs .done e.serverNow
    (e.serverReads.map .bytes)

/-- The transcript both ends hash. -/
def transcript (e : Exchange C H) : Transcript := honestTranscript e.staticKp e.x e.y e.xPoint

/-- Both ends complete, and what one seals with the other opens with. -/
theorem ciphers_match (hC : C.Commutes) (e : Exchange C H) :
    e.client.result = .ok (.new (e.transcript.kC2s H), .new (e.transcript.kS2c H)) ∧
      e.server.result = .ok (.new (e.transcript.kS2c H), .new (e.transcript.kC2s H)) := by
  have hrequest := e.serverReads_eq
  rw [clientHandshake_written] at hrequest
  obtain ⟨hserver, -, hwritten⟩ : e.server.result = _ ∧ e.server.transcript = _ ∧
      e.server.written = _ :=
    serverHandshake_honest e.decodes e.nonzero e.clientMark e.sameHour e.serverReads_ne
      (hrequest.trans (List.append_nil _).symm)
  obtain ⟨hclient, -⟩ : e.client.result = _ ∧ e.client.transcript = _ :=
    clientHandshake_honest hC e.decodes e.nonzero e.serverMark e.sameHour' e.clientReads_ne
      ((e.clientReads_eq.trans hwritten).trans (List.append_nil _).symm)
  exact ⟨hclient, hserver⟩

end Exchange

/-- The two directions of a connection. -/
abbrev CircuitSession (ρ σ : Type) := Direction ρ σ × Direction ρ σ

namespace CircuitSession

open Direction (decodedFor)

variable {ρ σ : Type} [RngCore ρ] [RngCore σ]

/-- The client answers no sentinel, and the server, with `mux_demux_to_bridges`, answers
    each that it has decoded once. -/
def answers (s : CircuitSession ρ σ) : DirectionEvent ⊕ DirectionEvent → Bool
  | .inl (.echo _) => false
  | .inr (.echo streamId) =>
      s.2.echoed.count streamId < (decodedFor streamId s.1.link.receiver.decoded).count []
  | _ => true

/-- Either end moves. -/
def step (F : F64) (A : Aead) :
    CircuitSession ρ σ → DirectionEvent ⊕ DirectionEvent → Option (CircuitSession ρ σ) :=
  Machine.guarded answers (Machine.both (Direction.step F A) (Direction.step F A))

/-- The session after a handshake: each side's flow seals with its sending cipher, and
    its receiver opens with the other.  The client's flow is that of a mux wire
    (`MuxWire::connect`) or of a single circuit (`handle_client_connection_with_lab`).
    `none` when a side has no ciphers or no flow. -/
def start {C : Curve} {K : Blake3Kdf} (F : F64) (H : Blake3) (e : Exchange C K) (mux : Bool)
    (up down : NewFlow ρ) (upReaders downReaders : List (StreamReader σ)) :
    Option (CircuitSession ρ σ) :=
  match e.client.result, e.server.result with
  | .ok (clientSend, clientRecv), .ok (serverSend, serverRecv) =>
      match (if mux then registerShapedFlow F H { up with cipher := clientSend }
            else shapedForward F H { up with cipher := clientSend }),
          registerShapedFlow F H { down with cipher := serverSend } with
      | some upFlow, some downFlow =>
          some (.start upReaders upFlow serverRecv, .start downReaders downFlow clientRecv)
      | _, _ => none
  | _, _ => none

variable {F : F64} {A : Aead} {C : Curve} {K : Blake3Kdf}

omit [RngCore σ] in
/-- The flow and the receiver of a direction hold the same key. -/
theorem start_eq_some (hC : C.Commutes) {H : Blake3} {e : Exchange C K} {mux : Bool}
    {up down : NewFlow ρ} {upReaders downReaders : List (StreamReader σ)} {s : CircuitSession ρ σ}
    (h : start F H e mux up down upReaders downReaders = some s) :
    ∃ (up' down' : NewFlow ρ) (upFlow downFlow : FlowSlot ρ),
      Direction.Registered F H up' upFlow ∧ Direction.Registered F H down' downFlow ∧
        s = (.start upReaders upFlow up'.cipher, .start downReaders downFlow down'.cipher) := by
  obtain ⟨hclient, hserver⟩ := e.ciphers_match hC
  simp only [start, hclient, hserver] at h
  split at h
  · next upFlow downFlow hup hdown =>
    refine ⟨{ up with cipher := .new (e.transcript.kC2s K) }, _, upFlow, downFlow, ?_, .inr hdown,
      (Option.some.inj h).symm⟩
    cases mux with
    | true => exact .inr hup
    | false => exact .inl hup
  · cases h

/-- The uplink carries no echoes, and the downlink only those of sentinels that have come
    up. -/
def EchoesAnswered (s : CircuitSession ρ σ) : Prop :=
  s.1.echoed = [] ∧
    ∀ streamId ∈ s.2.echoed, [] ∈ decodedFor streamId s.1.link.receiver.decoded

theorem step_echoesAnswered {s t : CircuitSession ρ σ} {e : DirectionEvent ⊕ DirectionEvent}
    (h : s.EchoesAnswered) (hstep : step F A s e = some t) : t.EchoesAnswered := by
  obtain ⟨hup, hdown⟩ := h
  obtain ⟨hanswers, hboth⟩ := Machine.guarded_eq_some.mp hstep
  cases e with
  | inl e =>
      obtain ⟨d, hd, rfl⟩ := Option.map_eq_some_iff.mp hboth
      rcases Direction.step_cases hd with ⟨i, read, r, -, -, -, -, rfl⟩ | ⟨streamId, rfl, -, -⟩ |
        ⟨e', link, -, hlink, -, rfl⟩
      · exact ⟨hup, hdown⟩
      · cases hanswers
      · refine ⟨hup, fun streamId hid => ?_⟩
        rcases Direction.step_decoded hlink with hsame | ⟨p, hp⟩
        · exact hsame ▸ hdown streamId hid
        · show [] ∈ decodedFor streamId link.receiver.decoded
          rw [hp, Direction.decodedFor_append]
          exact List.mem_append_left _ (hdown streamId hid)
  | inr e =>
      obtain ⟨d, hd, rfl⟩ := Option.map_eq_some_iff.mp hboth
      rcases Direction.step_cases hd with ⟨i, read, r, -, -, -, -, rfl⟩ | ⟨streamId, rfl, -, rfl⟩ |
        ⟨e', link, -, -, -, rfl⟩
      · exact ⟨hup, hdown⟩
      · refine ⟨hup, fun id hid => ?_⟩
        rcases List.mem_append.mp hid with hold | hnew
        · exact hdown id hold
        · obtain rfl := List.mem_singleton.mp hnew
          exact List.count_pos_iff.mp (Nat.zero_lt_of_lt (of_decide_eq_true hanswers))
      · exact ⟨hup, hdown⟩

/-- **Both directions of a session are pipes.**  After an undisturbed exchange, in every
    run of the two ends, with readers of distinct stream ids on each: each stream of
    the uplink has gone through a run of a pipe.  On the downlink the bytes of each
    stream have come out in order, and as long as no sentinel of the stream has come
    up from the client it has gone through a run of a pipe too. -/
theorem refines_pipes_both (hA : A.Lawful) (hC : C.Commutes) (H : Blake3) (e : Exchange C K)
    (mux : Bool) (up down : NewFlow ρ) (upReaders downReaders : List (StreamReader σ))
    (hupIds : (upReaders.map StreamReader.streamId).Nodup)
    (hdownIds : (downReaders.map StreamReader.streamId).Nodup) {s t : CircuitSession ρ σ}
    (hstart : start F H e mux up down upReaders downReaders = some s)
    (events : List (DirectionEvent ⊕ DirectionEvent))
    (hrun : Machine.run (step F A) s events = some t) :
    (∀ i < upReaders.length, ∃ r trace, t.1.readers[i]? = some r ∧
      Machine.run Pipe.step Pipe.new trace = some (t.1.pipe r) ∧ (t.1.pipe r).Sound) ∧
    ∀ i < downReaders.length, ∃ r, t.2.readers[i]? = some r ∧
      (t.2.pipe r).output <+: (t.2.pipe r).input ∧
      ([] ∉ decodedFor r.streamId t.1.link.receiver.decoded → ∃ trace,
        Machine.run Pipe.step Pipe.new trace = some (t.2.pipe r) ∧ (t.2.pipe r).Sound) := by
  obtain ⟨up', down', upFlow, downFlow, hup, hdown, rfl⟩ := start_eq_some hC hstart
  obtain ⟨hnone, hanswered⟩ := Machine.run_invariant
    (fun _ _ _ h hs => step_echoesAnswered h hs) ⟨rfl, fun _ h => absurd h List.not_mem_nil⟩ hrun
  obtain ⟨hrunUp, hrunDown⟩ := Machine.run_both (Machine.run_guarded hrun)
  refine ⟨fun i hi => ?_, fun i hi => ?_⟩
  · obtain ⟨r, hr, -, hpipe⟩ := Direction.run_pipe hA hup hupIds hrunUp hi
    obtain ⟨trace, htrace⟩ := hpipe (hnone ▸ List.not_mem_nil)
    exact ⟨r, trace, hr, htrace⟩
  · obtain ⟨r, hr, hout, hpipe⟩ := Direction.run_pipe hA hdown hdownIds hrunDown hi
    exact ⟨r, hr, hout, fun hopen => hpipe fun hecho => hopen (hanswered r.streamId hecho)⟩

/-- The sample exchange, each message read at once. -/
def sampleExchange : Exchange .sum .sumBytes where
  staticKp := sampleKeypair
  x := sampleX
  y := sampleY
  xPoint := sampleX.repr
  clientPad := .none
  serverPad := .none
  clientSecs := 0
  serverSecs := 0
  serverNow _ := 0
  clientNow _ := 0
  serverReads := [sampleRequest]
  clientReads := [sampleAnswer]
  decodes := rfl
  nonzero := by decide
  clientMark := markNotEarly_of_no_pad _ _ _
  serverMark := markNotEarly_of_no_pad _ _ _
  sameHour := rfl
  sameHour' := rfl
  serverReads_ne := (buildMarkedMessage_singleton _ _ _ _ _).1
  clientReads_ne := (buildMarkedMessage_singleton _ _ _ _ _).1
  serverReads_eq := by
    rw [clientHandshake_written]
    exact (buildMarkedMessage_singleton _ _ _ _ _).2.trans (List.append_nil _)
  clientReads_eq := by
    obtain ⟨hne, hcat⟩ := buildMarkedMessage_singleton Blake3Kdf.sumBytes.toBlake3 sampleMacKey
      sampleX.repr.toList .none 0
    obtain ⟨-, -, hwritten⟩ := @serverHandshake_honest .sum .sumBytes sampleKeypair sampleX sampleY
      sampleX.repr .none .none 0 0 (fun _ => 0) [sampleRequest] [] rfl (by decide)
      (markNotEarly_of_no_pad _ _ _) rfl hne hcat
    rw [hwritten]
    exact (buildMarkedMessage_singleton _ _ _ _ _).2.trans (List.append_nil _)

/-- A reader of a circuit, or of replies to it. -/
def circuitReader (streamId : UInt16) : StreamReader FixedRng := ⟨streamId, 4096, ⟨0⟩, true, []⟩

/-- Two circuits. -/
def circuits : List (StreamReader FixedRng) := [circuitReader 7, circuitReader 8]

/-- The flow of a sample session under a cipher. -/
def sampleFlow (cipher : FrameCipher) : FlowSlot FixedRng :=
  .registered (steepSession 157) 0 .off ⟨1, 2, 3⟩ 0 cipher

theorem start_sampleExchange :
    start .steep .sumBytes sampleExchange true Direction.steepOff Direction.steepOff
        circuits circuits
      = some (.start circuits (sampleFlow (.new (sampleExchange.transcript.kC2s .sumBytes)))
            (.new (sampleExchange.transcript.kC2s .sumBytes)),
          .start circuits (sampleFlow (.new (sampleExchange.transcript.kS2c .sumBytes)))
            (.new (sampleExchange.transcript.kS2c .sumBytes))) := by
  have hnew : ShapedSession.new .steep .sumBytes Direction.steepOff.clock Direction.steepOff.seed
      (shapedCompositionConfig .steep Direction.steepOff.initialIatMs)
      Direction.steepOff.composerRng = some (.ok (steepSession 157, .const 0)) :=
    new_steepSession 157
  obtain ⟨hclient, hserver⟩ := sampleExchange.ciphers_match Curve.sum_commutes
  simp only [start, hclient, hserver, if_true, registerShapedFlow, hnew]
  rfl

/-- A call at a fixed time, before which some cells arrive. -/
def callWith (t : Instant) (cells : List Cell) : DirectionEvent :=
  .link (.service ⟨.const t, fun i => if i = 0 then ⟨cells, false⟩ else .none, .ok⟩)

/-- Each circuit sends a byte and gets one; the client closes the first, whose echo comes
    down before its byte, and the bridge the second. -/
def sampleRun : List (DirectionEvent ⊕ DirectionEvent) :=
  let first := (circuitReader 7).push (.bytes [42])
  let second := (circuitReader 8).push (.bytes [5])
  let echo := (encodeCloseCell 7 (⟨0⟩ : FixedRng)).1
  [.inl (.source 0 (.bytes [42])), .inl (.source 1 (.bytes [5])), .inl (callWith 0 second.cells),
    .inl (callWith 0 first.cells), .inl (.source 0 (.bytes [])),
    .inl (callWith 300000000 ((first.push (.bytes [])).cells.drop 1))]
  ++ List.replicate 5 (.inl (.link (.read 531)))
  ++ [.inr (.source 0 (.bytes [42])), .inr (.source 1 (.bytes [5])), .inr (.echo 7),
    .inr (callWith 0 (echo :: first.cells ++ second.cells)), .inr (.source 1 (.bytes [])),
    .inr (callWith 300000000 ((second.push (.bytes [])).cells.drop 1))]
  ++ List.replicate 5 (.inr (.link (.read 531)))

theorem refines_pipes_both_sample :
    ∃ (t : CircuitSession FixedRng FixedRng) (r r' q q' : StreamReader FixedRng),
      t.1.readers = [r, r'] ∧ t.2.readers = [q, q'] ∧
      t.1.pipe r = ⟨[42], [42], true, true⟩ ∧ t.1.pipe r' = ⟨[5], [5], false, false⟩ ∧
      t.2.pipe q = ⟨[42], [42], false, true⟩ ∧ t.2.pipe q' = ⟨[5], [5], true, true⟩ ∧
      (t.1.pipe r).Sound ∧ (t.2.pipe q).output <+: (t.2.pipe q).input ∧ (t.2.pipe q').Sound := by
  have hrun : ((start .steep .sumBytes sampleExchange true Direction.steepOff Direction.steepOff
        circuits circuits).bind fun s => Machine.run (step .steep .tagOnly) s sampleRun).map
      (fun t => (t.1.readers.map t.1.pipe, t.2.readers.map t.2.pipe,
        t.2.readers.map fun r => (decodedFor r.streamId t.1.link.receiver.decoded)))
      = some ([⟨[42], [42], true, true⟩, ⟨[5], [5], false, false⟩],
        [⟨[42], [42], false, true⟩, ⟨[5], [5], true, true⟩], [[[42], []], [[5]]]) := by
    rw [start_sampleExchange, Option.bind_some]
    decide +kernel
  obtain ⟨t, ht, hstate⟩ := Option.map_eq_some_iff.mp hrun
  obtain ⟨s, hs, hst⟩ := Option.bind_eq_some_iff.mp ht
  simp only [Prod.mk.injEq] at hstate
  obtain ⟨hup, hdown, hdecoded⟩ := hstate
  obtain ⟨hall, hall'⟩ := refines_pipes_both Aead.tagOnly_lawful Curve.sum_commutes .sumBytes
    sampleExchange true Direction.steepOff Direction.steepOff circuits circuits
    (by decide) (by decide) hs sampleRun hst
  obtain ⟨r, r', hreaders⟩ := List.length_eq_two.mp
    ((List.length_map _).symm.trans (congrArg List.length hup))
  obtain ⟨q, q', hreaders'⟩ := List.length_eq_two.mp
    ((List.length_map _).symm.trans (congrArg List.length hdown))
  rw [hreaders] at hup hall
  rw [hreaders'] at hdown hdecoded hall'
  simp only [List.map_cons, List.map_nil, List.cons.injEq, and_true] at hup hdown hdecoded
  obtain ⟨r₀, -, hr₀, -, hsound⟩ := hall 0 (by decide)
  obtain ⟨q₀, hq₀, hout, -⟩ := hall' 0 (by decide)
  obtain ⟨q₁, hq₁, -, hpipe⟩ := hall' 1 (by decide)
  obtain rfl := Option.some.inj hr₀
  obtain rfl := Option.some.inj hq₀
  obtain rfl := Option.some.inj hq₁
  obtain ⟨-, -, hsound'⟩ := hpipe (by rw [hdecoded.2]; decide)
  exact ⟨t, r, r', q, q', hreaders, hreaders', hup.1, hup.2, hdown.1, hdown.2, hsound, hout,
    hsound'⟩

end CircuitSession

end MixTor
