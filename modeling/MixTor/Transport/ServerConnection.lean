/-
  MixTor.Transport.ServerConnection

  The life of one connection at the server, from accept to return
  (`handle_server_connection_with_lab` and `blackhole` in transport.rs).

  The handshake runs under a timeout; whatever makes it fail sends the connection
  into the blackhole, which reads and discards until its own deadline.  Nothing
  is written before `read_marked_message` has accepted the peer's message, and
  the handshake permit is an argument of the handler, dropped by name after the
  handshake and otherwise when the handler returns.
-/

import MixTor.Lib.Machine
import MixTor.Crypto.Handshake

namespace MixTor

open Crypto (Bytes Key Curve Blake3Kdf StaticKeypair Ephemeral HsPad Transcript HandshakeError
  HandshakeRun StreamRead WriteAll Accepted pubkeyLen maxHandshakeLen)

/-- Where the handler stands. -/
inductive ConnPhase where
  /-- In the loop of `read_marked_message`, with its buffer. -/
  | reading (buf : Bytes)
  /-- The message is accepted; `pfx` is its prefix. -/
  | accepted (pfx : Bytes)
  /-- In `write_all` of the reply, of which `left` is still to be written. -/
  | replying (t : Transcript) (left : Bytes)
  | handshakeDone (t : Transcript)
  | blackhole
  /-- Demultiplexing the uplink; the shared emitter writes the downlink. -/
  | established (t : Transcript)
  /-- The stream is dropped. -/
  | closed
  | returned
  deriving DecidableEq

structure ServerConn where
  phase : ConnPhase
  /-- The handler still holds a handshake permit. -/
  handshakePermit : Bool
  /-- Everything written to the peer. -/
  written : Bytes
  /-- The buffers `read_marked_message` has searched, each with the clock it read. -/
  scans : List (Bytes × (Int → Nat))

inductive ConnEvent (C : Curve) where
  /-- A read returns bytes, with the clock as a MAC check would read it. -/
  | read (b : Bytes) (now : Int → Nat)
  | eof
  | ioError
  /-- `HANDSHAKE_TIMEOUT` has elapsed. -/
  | timeout
  /-- Both DHs and the session, with the randomness of the reply. -/
  | derive (y : Ephemeral C) (pad : HsPad) (secs : Nat)
  | wrote (n : Nat)
  | writeError
  | flushed
  /-- The blackhole's random deadline. -/
  | deadline
  /-- The permit is dropped and the connection cap checked. -/
  | tryAcquire (acquired : Bool)
  /-- The emitter writes a frame. -/
  | wireWrite (b : Bytes)
  | relayEnds
  | ret

namespace ServerConn

/-- Size of the read buffer of `read_marked_message`. -/
def readChunk : Nat := 1024

def start (handshakePermit : Bool) : ServerConn := ⟨.reading [], handshakePermit, [], []⟩

section Step

variable (C : Curve) (H : Blake3Kdf) (staticKp : StaticKeypair C)

/-- The loop of `read_marked_message` after a read. -/
def searched (now : Int → Nat) (buf : Bytes) : ConnPhase :=
  match Crypto.scanBuffer H.toBlake3 (Crypto.identityMacKey H staticKp.publicBytes) pubkeyLen now buf
    with
  | some (.ok pfx) => .accepted pfx
  | some (.error _) => .blackhole
  | none => if maxHandshakeLen ≤ buf.length then .blackhole else .reading buf

def step (s : ServerConn) : ConnEvent C → Option ServerConn
  | .read b now =>
      if b = [] then none
      else match s.phase with
        | .reading buf =>
            if b.length ≤ readChunk then
              some { s with
                phase := searched C H staticKp now (buf ++ b)
                scans := s.scans ++ [(buf ++ b, now)] }
            else none
        | .blackhole => some s
        | _ => none
  | .eof | .ioError =>
      match s.phase with
      | .reading _ => some { s with phase := .blackhole }
      | .blackhole => some { s with phase := .closed }
      | _ => none
  | .timeout =>
      match s.phase with
      | .reading _ | .replying _ _ => some { s with phase := .blackhole }
      | _ => none
  | .derive y pad secs =>
      match s.phase with
      | .accepted pfx =>
          match Crypto.serverDerive C staticKp y pfx with
          | .error _ => some { s with phase := .blackhole }
          | .ok t =>
              some { s with phase := .replying t (Crypto.buildMarkedMessage H.toBlake3
                (Crypto.identityMacKey H staticKp.publicBytes)
                (t.yRepr.toList ++ (t.auth H).toList) pad secs) }
      | _ => none
  | .wrote n =>
      match s.phase with
      | .replying t left =>
          if 0 < n ∧ n ≤ left.length then
            some { s with phase := .replying t (left.drop n), written := s.written ++ left.take n }
          else none
      | _ => none
  | .writeError =>
      match s.phase with
      | .replying _ _ => some { s with phase := .blackhole }
      | _ => none
  | .flushed =>
      match s.phase with
      | .replying t [] => some { s with phase := .handshakeDone t }
      | _ => none
  | .deadline =>
      match s.phase with
      | .blackhole => some { s with phase := .closed }
      | _ => none
  | .tryAcquire acquired =>
      match s.phase with
      | .handshakeDone t =>
          some { s with
            phase := if acquired then .established t else .closed
            handshakePermit := false }
      | _ => none
  | .wireWrite b =>
      match s.phase with
      | .established _ => some { s with written := s.written ++ b }
      | _ => none
  | .relayEnds =>
      match s.phase with
      | .established _ => some { s with phase := .closed }
      | _ => none
  | .ret =>
      match s.phase with
      | .closed => some { s with phase := .returned, handshakePermit := false }
      | _ => none

end Step

-- ============================================================================
-- Silence
-- ============================================================================

section Silence

variable {C : Curve} {H : Blake3Kdf} {staticKp : StaticKeypair C} {permit : Bool}

/-- Some buffer the handshake has searched is an accepted message. -/
def AcceptedScan (H : Blake3Kdf) (staticKp : StaticKeypair C) (s : ServerConn) : Prop :=
  ∃ scan ∈ s.scans,
    Accepted H.toBlake3 (Crypto.identityMacKey H staticKp.publicBytes) pubkeyLen scan.2 scan.1

/-- The phases a connection goes through without an accepted message. -/
def Unanswered (s : ServerConn) : Prop :=
  match s.phase with
  | .reading _ | .blackhole | .closed | .returned => True
  | .accepted _ | .replying _ _ | .handshakeDone _ | .established _ => False

/-- Nothing is written, and the permit is held until the handler returns. -/
structure Silent (permit : Bool) (s : ServerConn) : Prop where
  written : s.written = []
  handshakePermit : s.phase ≠ .returned → s.handshakePermit = permit

/-- Without an accepted message the connection is silent and stays where no reply
    is made. -/
def Guarded (H : Blake3Kdf) (staticKp : StaticKeypair C) (permit : Bool) (s : ServerConn) : Prop :=
  s.AcceptedScan H staticKp ∨ s.Unanswered ∧ s.Silent permit

/-- A search that lets the handshake go on has accepted the buffer. -/
theorem searched_cases (now : Int → Nat) (buf : Bytes) :
    (∃ pfx, searched C H staticKp now buf = .accepted pfx ∧
      Accepted H.toBlake3 (Crypto.identityMacKey H staticKp.publicBytes) pubkeyLen now buf) ∨
    searched C H staticKp now buf = .blackhole ∨
    searched C H staticKp now buf = .reading buf := by
  rw [searched]
  split
  · next pfx hscan => exact .inl ⟨pfx, rfl, (Crypto.scanBuffer_eq_ok.mp hscan).1⟩
  · exact .inr (.inl rfl)
  · split
    · exact .inr (.inl rfl)
    · exact .inr (.inr rfl)

/-- The searched buffers are a history: a step only adds to them. -/
theorem scans_prefix_of_step {s t : ServerConn} {e : ConnEvent C}
    (h : step C H staticKp s e = some t) : s.scans <+: t.scans := by
  cases e <;> simp only [step] at h <;> (repeat' split at h) <;>
    first
    | cases h
      exact List.prefix_rfl
    | cases h
      exact List.prefix_append _ _
    | cases h

/-- What an unanswered connection can do. -/
theorem step_of_unanswered {s t : ServerConn} {e : ConnEvent C} (hs : s.Unanswered)
    (h : step C H staticKp s e = some t) :
    (∃ buf b now, s.phase = .reading buf ∧ t =
      { s with
        phase := searched C H staticKp now (buf ++ b)
        scans := s.scans ++ [(buf ++ b, now)] }) ∨
    (s.phase = .closed ∧ t = { s with phase := .returned, handshakePermit := false }) ∨
    (s.phase ≠ .closed ∧ s.phase ≠ .returned ∧
      ∃ phase, t = { s with phase } ∧ (phase = .blackhole ∨ phase = .closed)) := by
  obtain ⟨phase, hp, written, scans⟩ := s
  cases phase with
  | reading buf =>
      cases e with
      | read b now =>
          simp only [step] at h
          split at h
          · cases h
          · split at h
            · cases h
              exact .inl ⟨buf, b, now, rfl, rfl⟩
            · cases h
      | eof | ioError | timeout =>
          cases h
          exact .inr (.inr ⟨nofun, nofun, _, rfl, .inl rfl⟩)
      | derive | wrote | writeError | flushed | deadline | tryAcquire | wireWrite | relayEnds | ret =>
          cases h
  | blackhole =>
      cases e with
      | read b now =>
          simp only [step] at h
          split at h
          · cases h
          · cases h
            exact .inr (.inr ⟨nofun, nofun, _, rfl, .inl rfl⟩)
      | eof | ioError | deadline =>
          cases h
          exact .inr (.inr ⟨nofun, nofun, _, rfl, .inr rfl⟩)
      | timeout | derive | wrote | writeError | flushed | tryAcquire | wireWrite | relayEnds | ret =>
          cases h
  | closed =>
      cases e with
      | ret =>
          cases h
          exact .inr (.inl ⟨rfl, rfl⟩)
      | read b now =>
          simp only [step] at h
          split at h <;> cases h
      | eof | ioError | timeout | derive | wrote | writeError | flushed | deadline | tryAcquire
        | wireWrite | relayEnds => cases h
  | returned =>
      cases e with
      | read b now =>
          simp only [step] at h
          split at h <;> cases h
      | eof | ioError | timeout | derive | wrote | writeError | flushed | deadline | tryAcquire
        | wireWrite | relayEnds | ret => cases h
  | accepted | replying | handshakeDone | established => cases hs

/-- A step keeps a guarded connection guarded. -/
theorem step_guarded {s t : ServerConn} {e : ConnEvent C} (hs : s.Guarded H staticKp permit)
    (h : step C H staticKp s e = some t) : t.Guarded H staticKp permit := by
  rcases hs with ⟨scan, hmem, hacc⟩ | ⟨hun, hsilent⟩
  · exact .inl ⟨scan, (scans_prefix_of_step h).subset hmem, hacc⟩
  · rcases step_of_unanswered hun h with ⟨buf, b, now, hread, rfl⟩ | ⟨hclosed, rfl⟩ |
      ⟨hnc, hnr, phase, rfl, hphase⟩
    · have hpermit := hsilent.handshakePermit (by rw [hread]; nofun)
      rcases searched_cases now (buf ++ b) with ⟨pfx, -, hacc⟩ | heq | heq
      · exact .inl ⟨(buf ++ b, now), by simp, hacc⟩
      · exact .inr ⟨by simp only [Unanswered, heq], hsilent.written, fun _ => hpermit⟩
      · exact .inr ⟨by simp only [Unanswered, heq], hsilent.written, fun _ => hpermit⟩
    · exact .inr ⟨trivial, hsilent.written, fun hne => absurd rfl hne⟩
    · have hpermit := hsilent.handshakePermit hnr
      rcases hphase with rfl | rfl
      · exact .inr ⟨trivial, hsilent.written, fun _ => hpermit⟩
      · exact .inr ⟨trivial, hsilent.written, fun _ => hpermit⟩

/-- **Silence towards probes.** In every run, whatever the peer sends and wherever
    it stalls or closes: as long as no buffer that `read_marked_message` searched
    is an accepted message, the server has written nothing and holds its handshake
    permit until the handler returns. -/
theorem silent_unless_accepted (C : Curve) (H : Blake3Kdf) (staticKp : StaticKeypair C)
    (permit : Bool) (es : List (ConnEvent C)) :
    Machine.Always (step C H staticKp)
      (fun s => ¬ s.AcceptedScan H staticKp → s.Silent permit) (start permit) es := by
  have hstart : Guarded H staticKp permit (start permit) :=
    .inr ⟨trivial, rfl, fun _ => rfl⟩
  have hinv : Machine.Always (step C H staticKp) (Guarded H staticKp permit) (start permit) es :=
    Machine.always_of_invariant (fun _ _ _ => step_guarded) hstart es
  exact hinv.mono fun s hs hnone => hs.elim (fun hacc => absurd hacc hnone) And.right

end Silence

end ServerConn

end MixTor
