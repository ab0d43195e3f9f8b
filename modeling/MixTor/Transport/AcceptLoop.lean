/-
  MixTor.Transport.AcceptLoop

  The accept loop of the server (`serve_accept_loop` in bin/mixtor-server.rs) over the
  handlers it spawns (`handle_server_connection_with_lab` in transport.rs).

  Two semaphores bound a process: the loop takes a handshake permit for every client it
  accepts and sheds the client where none is left, and a handler whose client has shaken
  hands gives that permit back and tries for one of `global_connection_sem`.  Handlers
  move in any order.
-/

import MixTor.Transport.ServerConnection
import MixTor.Transport.ConnectionLimit

namespace MixTor

open Crypto (Curve Blake3Kdf StaticKeypair Ephemeral HsPad Transcript)
open Tally (tally tally_set)

/-- Max number of in-progress handshakes. -/
def maxConcurrentHandshakes : Nat := 512

/-- Where a handler stands towards the two semaphores. -/
inductive Place where
  /-- The handshake is not over, or its peer is blackholed. -/
  | handshaking
  | established
  /-- About to return. -/
  | closed
  | returned
  deriving DecidableEq

def ServerConn.place (s : ServerConn) : Place :=
  match s.phase with
  | .reading _ | .accepted _ | .replying .. | .handshakeDone _ | .blackhole => .handshaking
  | .established _ => .established
  | .closed => .closed
  | .returned => .returned

/-- A handler that the loop has spawned. -/
structure Handler where
  conn : ServerConn
  /-- The handler holds `_conn_permit`. -/
  connPermit : Bool

namespace Handler

/-- Spawned with the permit that the loop has taken. -/
def spawn : Handler := ⟨.start true, false⟩

/-- What a handler holds, by where it stands: one permit at most. -/
def Holds (h : Handler) : Prop :=
  match h.conn.place with
  | .handshaking => h.conn.handshakePermit = true ∧ h.connPermit = false
  | .established => h.conn.handshakePermit = false ∧ h.connPermit = true
  | .closed => ¬ (h.conn.handshakePermit = true ∧ h.connPermit = true)
  | .returned => h.conn.handshakePermit = false ∧ h.connPermit = false

section

variable (C : Curve) (H : Blake3Kdf) (staticKp : StaticKeypair C)

/-- A step of the handler; `free` tells whether `global_connection_sem` has a permit. -/
def step (free : Bool) (h : Handler) (e : ConnEvent C) : Option Handler :=
  match e with
  | .tryAcquire acquired =>
      if acquired = free then
        (h.conn.step C H staticKp e).map fun conn => ⟨conn, acquired⟩
      else none
  -- the permit lives as long as the handler
  | .ret => (h.conn.step C H staticKp e).map fun conn => ⟨conn, false⟩
  | e => (h.conn.step C H staticKp e).map fun conn => { h with conn }

end

end Handler

/-- The handlers that the loop has spawned. -/
structure AcceptLoop where
  handlers : List Handler

namespace AcceptLoop

def new : AcceptLoop := ⟨[]⟩

/-- The handshake permits that are out. -/
def handshakePermits (s : AcceptLoop) : Nat :=
  tally (fun h => h.conn.handshakePermit.toNat) s.handlers

/-- The permits of `global_connection_sem` that are out. -/
def connPermits (s : AcceptLoop) : Nat := tally (fun h => h.connPermit.toNat) s.handlers

/-- The handlers that stand at a place. -/
def count (s : AcceptLoop) (place : Place) : Nat :=
  tally (fun h => (decide (h.conn.place = place)).toNat) s.handlers

inductive Event (C : Curve) where
  /-- `accept` returns a client. -/
  | accept
  | handler (i : Nat) (e : ConnEvent C)

section

variable (C : Curve) (H : Blake3Kdf) (staticKp : StaticKeypair C)

def step (s : AcceptLoop) : Event C → Option AcceptLoop
  | .accept =>
      if s.handshakePermits < maxConcurrentHandshakes then some ⟨s.handlers ++ [.spawn]⟩
      -- drops the client
      else some s
  | .handler i e =>
      (s.handlers[i]?).bind fun h =>
        (h.step C H staticKp (decide (s.connPermits < maxTotalConnections)) e).map fun h' =>
          ⟨s.handlers.set i h'⟩

end

/-- Few clients are unanswered and few are served, each handler holds what its place asks
    for, and a client without an accepted message gets no byte and no connection permit. -/
structure Bounded {C : Curve} (H : Blake3Kdf) (staticKp : StaticKeypair C) (s : AcceptLoop) :
    Prop where
  handshakes : s.count .handshaking ≤ maxConcurrentHandshakes
  connections : s.count .established ≤ maxTotalConnections
  holds : ∀ h ∈ s.handlers, h.Holds
  probes : ∀ h ∈ s.handlers, ¬ h.conn.AcceptedScan H staticKp →
    h.conn.written = [] ∧ h.connPermit = false

end AcceptLoop

-- ============================================================================
-- What a step does to the permits
-- ============================================================================

namespace ServerConn

variable {C : Curve} {H : Blake3Kdf} {staticKp : StaticKeypair C} {s t : ServerConn}

/-- A step of a connection other than the two that drop a permit. -/
theorem step_keeps {e : ConnEvent C} (he : ∀ a, e ≠ .tryAcquire a) (hret : e ≠ .ret)
    (h : step C H staticKp s e = some t) :
    t.handshakePermit = s.handshakePermit ∧
      (s.place = .handshaking ∨ s.place = .established) ∧
      (t.place = s.place ∨ t.place = .closed) := by
  cases e with
  | tryAcquire a => exact absurd rfl (he a)
  | ret => exact absurd rfl hret
  | read b now =>
      simp only [step] at h
      split at h
      · cases h
      split at h
      · next buf hphase =>
        have hpending : s.place = .handshaking := by rw [place, hphase]
        split at h
        · obtain rfl := Option.some.inj h
          refine ⟨rfl, .inl hpending, .inl ?_⟩
          rw [hpending]
          have hsearched := @searched_cases C H staticKp now (buf ++ b)
          rcases hsearched with ⟨pfx, heq, -⟩ | heq | heq <;> simp only [place, heq]
        · cases h
      · next hphase =>
        obtain rfl := Option.some.inj h
        exact ⟨rfl, .inl (by rw [place, hphase]), .inl rfl⟩
      · cases h
  | eof | ioError | timeout | derive | wrote | writeError | flushed | deadline | wireWrite
    | relayEnds =>
      simp only [step] at h
      repeat' split at h
      all_goals cases h
      all_goals simp [place, *]

end ServerConn

namespace Handler

variable {C : Curve} {H : Blake3Kdf} {staticKp : StaticKeypair C} {h h' : Handler} {free : Bool}

/-- A handler moves its connection and keeps what it holds, or gives a permit back. -/
theorem step_cases {e : ConnEvent C} (hstep : h.step C H staticKp free e = some h') :
    h.conn.step C H staticKp e = some h'.conn ∧
      (((∀ a, e ≠ .tryAcquire a) ∧ e ≠ .ret ∧ h'.connPermit = h.connPermit) ∨
        (∃ t, e = .tryAcquire free ∧ h.conn.phase = .handshakeDone t ∧
          h'.conn.place = (if free then .established else .closed) ∧
          h'.conn.handshakePermit = false ∧ h'.connPermit = free) ∨
        e = .ret ∧ h.conn.place = .closed ∧ h'.conn.place = .returned ∧
          h'.conn.handshakePermit = false ∧ h'.connPermit = false) := by
  cases e with
  | tryAcquire acquired =>
      rw [step] at hstep
      split at hstep
      · next hfree =>
        subst hfree
        obtain ⟨conn, hconn, rfl⟩ := Option.map_eq_some_iff.mp hstep
        refine ⟨hconn, .inr (.inl ?_)⟩
        simp only [ServerConn.step] at hconn
        split at hconn
        · next t hphase =>
          obtain rfl := Option.some.inj hconn
          exact ⟨t, rfl, hphase, by cases acquired <;> rfl, rfl, rfl⟩
        · cases hconn
      · cases hstep
  | ret =>
      obtain ⟨conn, hconn, rfl⟩ := Option.map_eq_some_iff.mp hstep
      refine ⟨hconn, .inr (.inr ?_)⟩
      simp only [ServerConn.step] at hconn
      split at hconn
      · next hphase =>
        obtain rfl := Option.some.inj hconn
        exact ⟨rfl, by rw [ServerConn.place, hphase], rfl, rfl, rfl⟩
      · cases hconn
  | read | eof | ioError | timeout | derive | wrote | writeError | flushed | deadline | wireWrite
    | relayEnds =>
      obtain ⟨conn, hconn, rfl⟩ := Option.map_eq_some_iff.mp hstep
      refine ⟨hconn, .inl ⟨fun a h => ?_, fun h => ?_, rfl⟩⟩
      · cases h
      · cases h

/-- A handler holds what the place it has moved to asks for. -/
theorem Holds.step {e : ConnEvent C} (hh : h.Holds)
    (hstep : h.step C H staticKp free e = some h') : h'.Holds := by
  rw [Holds] at hh ⊢
  obtain ⟨hconn, ⟨hne, hret, hsame⟩ | ⟨t, rfl, -, hplace, hback, htook⟩ |
    ⟨rfl, -, hplace, hback, hgone⟩⟩ := step_cases hstep
  · obtain ⟨hkept, hfrom, hto⟩ := ServerConn.step_keeps hne hret hconn
    rcases hto with hstays | hends
    · rw [hstays, hkept, hsame]
      exact hh
    · rw [hends, hkept, hsame]
      rcases hfrom with hp | hp <;> rw [hp] at hh <;> simp [hh.1, hh.2]
  · cases free with
    | true =>
        rw [hplace]
        exact ⟨hback, htook⟩
    | false =>
        rw [hplace]
        exact fun hboth => by rw [htook] at hboth; cases hboth.2
  · rw [hplace]
    exact ⟨hback, hgone⟩

/-- What holds of a handler at every moment. -/
structure Sound (H : Blake3Kdf) (staticKp : StaticKeypair C) (h : Handler) : Prop where
  holds : h.Holds
  guarded : h.conn.Guarded H staticKp true
  /-- A connection permit is earned by an accepted message. -/
  earned : h.connPermit = true → h.conn.AcceptedScan H staticKp

theorem spawn_sound : spawn.Sound H staticKp :=
  ⟨⟨rfl, rfl⟩, .inr ⟨trivial, rfl, fun _ => rfl⟩, nofun⟩

/-- **Step lemma.**  A handler stays sound. -/
theorem Sound.step {e : ConnEvent C} (hs : h.Sound H staticKp)
    (hstep : h.step C H staticKp free e = some h') : h'.Sound H staticKp := by
  have hcases := step_cases hstep
  have hmono : h.conn.AcceptedScan H staticKp → h'.conn.AcceptedScan H staticKp := by
    rintro ⟨scan, hmem, hacc⟩
    exact ⟨scan, (ServerConn.scans_prefix_of_step hcases.1).subset hmem, hacc⟩
  refine ⟨hs.holds.step hstep, ServerConn.step_guarded hs.guarded hcases.1, fun hpermit => ?_⟩
  rcases hcases.2 with ⟨-, -, hsame⟩ | ⟨t, -, hphase, -⟩ | ⟨-, -, -, -, hgone⟩
  · exact hmono (hs.earned (hsame ▸ hpermit))
  · -- the handshake is done only after an accepted message
    rcases hs.guarded with hacc | ⟨hun, -⟩
    · exact hmono hacc
    · rw [ServerConn.Unanswered, hphase] at hun
      exact hun.elim
  · rw [hgone] at hpermit
    cases hpermit

/-- A handshake permit is not taken again, and a connection permit where one is free. -/
theorem step_permits {e : ConnEvent C} (hstep : h.step C H staticKp free e = some h') :
    (h'.conn.handshakePermit.toNat ≤ h.conn.handshakePermit.toNat) ∧
      (h'.connPermit.toNat ≤ h.connPermit.toNat ∨
        free = true ∧ h'.connPermit.toNat ≤ h.connPermit.toNat + 1) := by
  rcases step_cases hstep with ⟨hconn, ⟨hne, hret, hsame⟩ | ⟨t, -, -, -, hback, htook⟩ |
    ⟨-, -, -, hback, hgone⟩⟩
  · rw [(ServerConn.step_keeps hne hret hconn).1, hsame]
    exact ⟨Nat.le_refl _, .inl (Nat.le_refl _)⟩
  · rw [hback, htook]
    refine ⟨Nat.zero_le _, ?_⟩
    cases free with
    | true => exact .inr ⟨rfl, Nat.le_add_left ..⟩
    | false => exact .inl (Nat.zero_le _)
  · rw [hback, hgone]
    exact ⟨Nat.zero_le _, .inl (Nat.zero_le _)⟩

end Handler

-- ============================================================================
-- The caps
-- ============================================================================

namespace AcceptLoop

variable {C : Curve} {H : Blake3Kdf} {staticKp : StaticKeypair C} {s s' : AcceptLoop}

/-- The semaphores count the permits that the handlers hold. -/
structure Sound (H : Blake3Kdf) (staticKp : StaticKeypair C) (s : AcceptLoop) : Prop where
  handshakePermits : s.handshakePermits ≤ maxConcurrentHandshakes
  connPermits : s.connPermits ≤ maxTotalConnections
  handlers : ∀ h ∈ s.handlers, h.Sound H staticKp

/-- A step accepts a client, drops one, or is one of a handler. -/
theorem step_cases {e : Event C} (h : s.step C H staticKp e = some s') :
    (e = .accept ∧ s.handshakePermits < maxConcurrentHandshakes ∧
      s' = ⟨s.handlers ++ [.spawn]⟩) ∨
    (e = .accept ∧ s' = s) ∨
    ∃ i e' x x', e = .handler i e' ∧ s.handlers[i]? = some x ∧
      x.step C H staticKp (decide (s.connPermits < maxTotalConnections)) e' = some x' ∧
      s' = ⟨s.handlers.set i x'⟩ := by
  cases e with
  | accept =>
      rw [step] at h
      split at h
      · next hroom => exact .inl ⟨rfl, hroom, (Option.some.inj h).symm⟩
      · exact .inr (.inl ⟨rfl, (Option.some.inj h).symm⟩)
  | handler i e =>
      obtain ⟨x, hx, h⟩ := Option.bind_eq_some_iff.mp h
      obtain ⟨x', hx', rfl⟩ := Option.map_eq_some_iff.mp h
      exact .inr (.inr ⟨i, e, x, x', rfl, hx, hx', rfl⟩)

/-- **Step lemma.**  The semaphores stay within their caps. -/
theorem Sound.step {e : Event C} (hs : s.Sound H staticKp)
    (hstep : s.step C H staticKp e = some s') : s'.Sound H staticKp := by
  rcases step_cases hstep with ⟨-, hroom, rfl⟩ | ⟨-, rfl⟩ | ⟨i, e', x, x', -, hx, hmove, rfl⟩
  · refine ⟨?_, ?_, ?_⟩
    · rw [AcceptLoop.handshakePermits, Tally.tally_append]
      exact hroom
    · rw [AcceptLoop.connPermits, Tally.tally_append]
      exact hs.connPermits
    · intro h hmem
      rcases List.mem_append.mp hmem with hold | hnew
      · exact hs.handlers h hold
      · rw [List.mem_singleton.mp hnew]
        exact Handler.spawn_sound
  · exact hs
  · obtain ⟨hhandshake, hconn⟩ := Handler.step_permits hmove
    refine ⟨?_, ?_, ?_⟩
    · have hset := tally_set (f := fun h => h.conn.handshakePermit.toNat) hx x'
      have hcap := hs.handshakePermits
      rw [AcceptLoop.handshakePermits] at hcap ⊢
      simp only at hset ⊢
      omega
    · have hset := tally_set (f := fun h => h.connPermit.toNat) hx x'
      have hcap := hs.connPermits
      rw [AcceptLoop.connPermits] at hcap ⊢
      simp only at hset ⊢
      rcases hconn with hle | ⟨hfree, hle⟩
      · omega
      · have hroom := of_decide_eq_true hfree
        rw [AcceptLoop.connPermits] at hroom
        omega
    · intro h hmem
      rcases List.mem_or_eq_of_mem_set hmem with hold | rfl
      · exact hs.handlers h hold
      · exact (hs.handlers x (List.mem_of_getElem? hx)).step hmove

/-- A handler that stands at a place holds a permit for it. -/
theorem Sound.bounded (hs : s.Sound H staticKp) : s.Bounded H staticKp := by
  refine ⟨?_, ?_, fun h hmem => (hs.handlers h hmem).holds, ?_⟩
  · refine (Tally.tally_mono fun h hmem => ?_).trans hs.handshakePermits
    have hholds := (hs.handlers h hmem).holds
    by_cases hplace : h.conn.place = .handshaking
    · rw [Handler.Holds, hplace] at hholds
      rw [hholds.1]
      exact Bool.toNat_le _
    · rw [decide_eq_false hplace]
      exact Nat.zero_le _
  · refine (Tally.tally_mono fun h hmem => ?_).trans hs.connPermits
    have hholds := (hs.handlers h hmem).holds
    by_cases hplace : h.conn.place = .established
    · rw [Handler.Holds, hplace] at hholds
      rw [hholds.2]
      exact Bool.toNat_le _
    · rw [decide_eq_false hplace]
      exact Nat.zero_le _
  · intro h hmem hnone
    have hsound := hs.handlers h hmem
    rcases hsound.guarded with hacc | ⟨-, hsilent⟩
    · exact absurd hacc hnone
    · exact ⟨hsilent.written, Bool.eq_false_iff.mpr fun hp => hnone (hsound.earned hp)⟩

theorem new_sound : new.Sound H staticKp :=
  ⟨Nat.zero_le _, Nat.zero_le _, fun _ hmem => absurd hmem List.not_mem_nil⟩

theorem always_sound (events : List (Event C)) :
    Machine.Always (step C H staticKp) (Sound H staticKp) new events :=
  Machine.always_of_invariant (fun _ _ _ => Sound.step) new_sound events

/-- **A flood of clients stays within the caps.**  In every run of the accept loop,
    whoever connects and in whatever order the handlers move: at most 512 clients are in a
    handshake or in the blackhole, at most 4096 are served, and one without an accepted
    message gets no byte and takes no connection permit. -/
theorem always_bounded (C : Curve) (H : Blake3Kdf) (staticKp : StaticKeypair C)
    (events : List (Event C)) :
    Machine.Always (step C H staticKp) (Bounded H staticKp) new events :=
  (always_sound events).mono fun _ => Sound.bounded

-- ============================================================================
-- Permits come back
-- ============================================================================

end AcceptLoop

/-- The server moves on its own: its timers, its derivation, its semaphore. -/
def ConnEvent.Own {C : Curve} : ConnEvent C → Prop
  | .timeout | .derive .. | .deadline | .tryAcquire _ | .ret => True
  | .read .. | .eof | .ioError | .wrote _ | .writeError | .flushed | .wireWrite _ | .relayEnds =>
      False

namespace AcceptLoop

variable {C : Curve} {H : Blake3Kdf} {staticKp : StaticKeypair C} {s s' : AcceptLoop}

def Event.Own : Event C → Prop
  | .accept => False
  | .handler _ e => e.Own

variable (C H staticKp) in
/-- In `n` moves of its own, the `i`-th handler has no handshake permit; nothing else
    changes. -/
def GivesBack (n i : Nat) (s : AcceptLoop) : Prop :=
  ∃ (es : List (ConnEvent C)) (x' : Handler), es.length ≤ n ∧ (∀ e ∈ es, ConnEvent.Own e) ∧
    Machine.run (step C H staticKp) s (es.map (.handler i)) = some ⟨s.handlers.set i x'⟩ ∧
    x'.conn.handshakePermit = false

section GivesBack

variable {i n : Nat} {x x' : Handler}

/-- A move of a handler. -/
theorem step_handler {e : ConnEvent C} (hx : s.handlers[i]? = some x)
    (hmove : x.step C H staticKp (decide (s.connPermits < maxTotalConnections)) e = some x') :
    s.step C H staticKp (.handler i e) = some ⟨s.handlers.set i x'⟩ := by
  rw [step, hx, Option.bind_some, hmove]
  rfl

/-- After one move, `n` more are left. -/
theorem GivesBack.move (e : ConnEvent C) (x' : Handler) (hown : e.Own)
    (hx : s.handlers[i]? = some x)
    (hmove : x.step C H staticKp (decide (s.connPermits < maxTotalConnections)) e = some x')
    (hrest : GivesBack C H staticKp n i ⟨s.handlers.set i x'⟩) :
    GivesBack C H staticKp (n + 1) i s := by
  obtain ⟨es, x'', hlen, howns, hrun, hback⟩ := hrest
  refine ⟨e :: es, x'', Nat.succ_le_succ hlen, List.forall_mem_cons.mpr ⟨hown, howns⟩, ?_, hback⟩
  rw [List.map_cons, Machine.run_cons, step_handler hx hmove, Option.bind_some, hrun,
    List.set_set]

/-- The move that gives the permit back. -/
theorem GivesBack.last (e : ConnEvent C) (x' : Handler) (hown : e.Own)
    (hx : s.handlers[i]? = some x)
    (hmove : x.step C H staticKp (decide (s.connPermits < maxTotalConnections)) e = some x')
    (hback : x'.conn.handshakePermit = false) : GivesBack C H staticKp 1 i s :=
  ⟨[e], x', Nat.le_refl 1, List.forall_mem_singleton.mpr hown,
    Machine.run_cons_eq_some.mpr ⟨_, step_handler hx hmove, rfl⟩, hback⟩

theorem GivesBack.mono {m : Nat} (h : GivesBack C H staticKp n i s) (hle : n ≤ m) :
    GivesBack C H staticKp m i s := by
  obtain ⟨es, x', hlen, hrest⟩ := h
  exact ⟨es, x', hlen.trans hle, hrest⟩

/-- The handler is there after its own move. -/
theorem getElem?_set_of_some (hx : s.handlers[i]? = some x) :
    (s.handlers.set i x')[i]? = some x' := by
  obtain ⟨hlt, -⟩ := List.getElem?_eq_some_iff.mp hx
  exact List.getElem?_set_self hlt

theorem givesBack_closed (hx : s.handlers[i]? = some x) (hphase : x.conn.phase = .closed) :
    GivesBack C H staticKp 1 i s := by
  refine GivesBack.last .ret ⟨{ x.conn with
    phase := .returned
    handshakePermit := false }, false⟩ trivial hx ?_ rfl
  rw [Handler.step, ServerConn.step, hphase]
  rfl

theorem givesBack_blackhole (hx : s.handlers[i]? = some x) (hphase : x.conn.phase = .blackhole) :
    GivesBack C H staticKp 2 i s := by
  refine GivesBack.move .deadline { x with conn := { x.conn with phase := .closed } } trivial hx ?_
    (givesBack_closed (getElem?_set_of_some hx) rfl)
  rw [Handler.step, ServerConn.step, hphase]
  · rfl
  all_goals
    intros
    contradiction

/-- The timeout ends a handshake that waits for its peer. -/
theorem givesBack_waiting (hx : s.handlers[i]? = some x)
    (hphase : (∃ buf, x.conn.phase = .reading buf) ∨ ∃ t left, x.conn.phase = .replying t left) :
    GivesBack C H staticKp 3 i s := by
  refine GivesBack.move .timeout { x with conn := { x.conn with phase := .blackhole } } trivial hx ?_
    (givesBack_blackhole (getElem?_set_of_some hx) rfl)
  rw [Handler.step, ServerConn.step]
  · rcases hphase with ⟨buf, hphase⟩ | ⟨t, left, hphase⟩ <;> rw [hphase] <;> rfl
  all_goals
    intros
    contradiction

/-- The derivation fails, or its reply may wait for the peer. -/
theorem givesBack_accepted (y : Ephemeral C) (pad : HsPad) {pfx : Crypto.Bytes}
    (hx : s.handlers[i]? = some x) (hphase : x.conn.phase = .accepted pfx) :
    GivesBack C H staticKp 4 i s := by
  cases hderive : Crypto.serverDerive C staticKp y pfx with
  | error err =>
      refine (GivesBack.move (.derive y pad 0) { x with conn := { x.conn with phase := .blackhole } }
        trivial hx ?_ (givesBack_blackhole (getElem?_set_of_some hx) rfl)).mono (by decide)
      rw [Handler.step, ServerConn.step, hphase]
      · simp only [hderive]
        rfl
      all_goals
        intros
        contradiction
  | ok t =>
      refine GivesBack.move (.derive y pad 0)
        { x with conn := { x.conn with phase := .replying t (Crypto.buildMarkedMessage
          H.toBlake3 (Crypto.identityMacKey H staticKp.publicBytes)
          (t.yRepr.toList ++ (t.auth H).toList) pad 0) } } trivial hx ?_
        (givesBack_waiting (getElem?_set_of_some hx) (.inr ⟨_, _, rfl⟩))
      rw [Handler.step, ServerConn.step, hphase]
      · simp only [hderive]
        rfl
      all_goals
        intros
        contradiction

/-- The handshake permit is dropped whether a connection permit is free or not. -/
theorem givesBack_handshakeDone {t : Transcript} (hx : s.handlers[i]? = some x)
    (hphase : x.conn.phase = .handshakeDone t) : GivesBack C H staticKp 1 i s := by
  refine GivesBack.last (.tryAcquire (decide (s.connPermits < maxTotalConnections))) ⟨{ x.conn with
      phase := if decide (s.connPermits < maxTotalConnections) then .established t else .closed
      handshakePermit := false }, decide (s.connPermits < maxTotalConnections)⟩ trivial hx ?_ rfl
  rw [Handler.step, if_pos rfl, ServerConn.step, hphase]
  rfl

/-- A handler that holds a handshake permit gives it back in four moves of its own. -/
theorem givesBack_of_permit (y : Ephemeral C) (pad : HsPad) (hx : s.handlers[i]? = some x)
    (hholds : x.Holds) (hpermit : x.conn.handshakePermit = true) :
    GivesBack C H staticKp 4 i s := by
  rw [Handler.Holds, ServerConn.place] at hholds
  cases hphase : x.conn.phase with
  | reading buf => exact (givesBack_waiting hx (.inl ⟨buf, hphase⟩)).mono (by decide)
  | accepted pfx => exact givesBack_accepted y pad hx hphase
  | replying t left => exact (givesBack_waiting hx (.inr ⟨t, left, hphase⟩)).mono (by decide)
  | handshakeDone t => exact (givesBack_handshakeDone hx hphase).mono (by decide)
  | blackhole => exact (givesBack_blackhole hx hphase).mono (by decide)
  | closed => exact (givesBack_closed hx hphase).mono (by decide)
  | established | returned =>
      rw [hphase] at hholds
      rw [hholds.1] at hpermit
      cases hpermit

end GivesBack

/-- **Run lemma.**  All handshake permits come back, and the handlers that hold none do not
    move.  The induction is on the number of permits that are out. -/
theorem exists_release (y : Ephemeral C) (pad : HsPad) (hs : s.Sound H staticKp) (k : Nat)
    (hk : s.handshakePermits = k) :
    ∃ (es : List (Event C)) (s' : AcceptLoop), es.length ≤ 4 * k ∧ (∀ e ∈ es, e.Own) ∧
      Machine.run (step C H staticKp) s es = some s' ∧ s'.handshakePermits = 0 ∧
      ∀ (i : Nat) (x : Handler), s.handlers[i]? = some x → x.conn.handshakePermit = false →
        s'.handlers[i]? = some x := by
  induction k generalizing s with
  | zero =>
      exact ⟨[], s, Nat.le_refl 0, fun _ hmem => absurd hmem List.not_mem_nil, rfl, hk,
        fun _ _ hx _ => hx⟩
  | succ k ih =>
      have hpos : 0 < tally (fun h : Handler => h.conn.handshakePermit.toNat) s.handlers := by
        rw [← AcceptLoop.handshakePermits]
        omega
      obtain ⟨i, x, hx, hone⟩ := Tally.exists_of_tally_pos hpos
      have hpermit : x.conn.handshakePermit = true := by
        cases hp : x.conn.handshakePermit with
        | true => rfl
        | false =>
            rw [hp] at hone
            cases hone
      have hback : GivesBack C H staticKp 4 i s :=
        givesBack_of_permit y pad hx (hs.handlers x (List.mem_of_getElem? hx)).holds hpermit
      obtain ⟨es, x', hlen, howns, hrun, hback⟩ := hback
      have hset := tally_set (f := fun h : Handler => h.conn.handshakePermit.toNat) hx x'
      have hless : handshakePermits ⟨s.handlers.set i x'⟩ = k := by
        simp only [hback, hpermit, Bool.toNat_false, Bool.toNat_true] at hset
        rw [AcceptLoop.handshakePermits] at hk ⊢
        simp only
        omega
      obtain ⟨fs, s', hlen', howns', hrun', hzero, hframe⟩ :=
        ih (Machine.run_invariant (fun _ _ _ => Sound.step) hs hrun) hless
      refine ⟨es.map (.handler i) ++ fs, s', ?_, ?_, ?_, hzero, ?_⟩
      · rw [List.length_append, List.length_map]
        omega
      · intro e hmem
        rcases List.mem_append.mp hmem with hfirst | hrest
        · obtain ⟨e', hmem', rfl⟩ := List.mem_map.mp hfirst
          exact howns e' hmem'
        · exact howns' e hrest
      · rw [Machine.run_append, hrun, Option.bind_some, hrun']
      · intro j z hz hfree
        refine hframe j z ?_ hfree
        have hne : i ≠ j := by
          rintro rfl
          rw [Option.some.inj (hx.symm.trans hz), hfree] at hpermit
          cases hpermit
        exact (List.getElem?_set_ne hne).trans hz

end AcceptLoop

end MixTor
