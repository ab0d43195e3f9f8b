/-
  MixTor.Mux.BridgeRelay

  The uplink leg of one mux stream on the server: `bridge_stream_relay` up to
  the connection, then `bridge_stream_writer` (transport.rs).

  One `poll` is one step of the task between two await points.  In the hold
  phase chunks move from the channel to `held`; once connected the writer writes
  the held chunks and then what the channel brings, and shuts the write half
  down when the channel is closed and empty.

  The downlink leg has no part here: when the reader ends first, the relay
  returns, but the writer it spawned goes on.
-/

import MixTor.Mux.MuxWire
import MixTor.Shaping.Basic
import Mathlib.Data.List.Infix

namespace MixTor

open Channel
open Crypto (Bytes)

/-- Cap on the bytes a stream may hold behind the epoch gate. -/
def epochHoldMaxBytes : Nat := 256 * 1024

/-- `held_bytes`. -/
def heldBytes (held : List Bytes) : Nat := (held.map List.length).sum

/-- Where the task of a stream is. -/
inductive RelayPhase where
  /-- Not yet polled. -/
  | spawned
  | hold (held : List Bytes)
  | connecting (held : List Bytes)
  /-- The writer runs; `held` is what it still has to flush. -/
  | relaying (held : List Bytes)
  /-- The write half is shut down. -/
  | shut
  /-- Ended without a shutdown: returned from the hold phase, or failed. -/
  | ended
  deriving DecidableEq, Repr

structure BridgeRelay where
  gateUntil : Instant
  /-- The timer behind `deadline` has fired. -/
  deadlinePassed : Bool
  dataRx : Chan Bytes streamChannelCap
  phase : RelayPhase
  /-- The upstream connection was opened. -/
  connected : Bool
  /-- What was written to it, one entry a `write_all`. -/
  written : List Bytes
  deriving DecidableEq, Repr

namespace BridgeRelay

def spawn (gateUntil : Instant) : BridgeRelay where
  gateUntil
  deadlinePassed := false
  dataRx := .new
  phase := .spawned
  connected := false
  written := []

/-- One step of the task, or `none` while it waits. -/
def poll (r : BridgeRelay) (now : Instant) : Option BridgeRelay :=
  match r.phase with
  | .spawned =>
      some { r with phase := if now < r.gateUntil then .hold [] else .connecting [] }
  | .hold held =>
      if epochHoldMaxBytes ≤ heldBytes held then
        -- cap hit: quit draining and wait for the gate
        if r.deadlinePassed then some { r with phase := .connecting held } else none
      else if r.deadlinePassed then some { r with phase := .connecting held }
      else match r.dataRx.tryRecv with
        | (.ok data, rx) => some { r with phase := .hold (held ++ [data]), dataRx := rx }
        | (.empty, _) => none
        -- stream closed before gate
        | (.disconnected, rx) => some { r with phase := .ended, dataRx := rx.dropReceiver }
  | .connecting held => some { r with phase := .relaying held, connected := true }
  | .relaying (data :: held) =>
      some { r with phase := .relaying held, written := r.written ++ [data] }
  | .relaying [] =>
      match r.dataRx.tryRecv with
      | (.ok data, rx) => some { r with dataRx := rx, written := r.written ++ [data] }
      | (.empty, _) => none
      | (.disconnected, rx) => some { r with phase := .shut, dataRx := rx.dropReceiver }
  | .shut => none
  | .ended => none

/-- The timer fires: never early, possibly late. -/
def fireDeadline (r : BridgeRelay) (now : Instant) : Option BridgeRelay :=
  if r.gateUntil ≤ now then some { r with deadlinePassed := true } else none

/-- The demux hands a chunk over. -/
def send (r : BridgeRelay) (data : Bytes) : Option BridgeRelay :=
  if r.dataRx.senders then
    match r.dataRx.trySend data with
    | .ok rx => some { r with dataRx := rx }
    | .error _ => none
  else none

/-- The demux drops its sender. -/
def close (r : BridgeRelay) : BridgeRelay := { r with dataRx := r.dataRx.dropSenders }

/-- What can happen to a relay while no bridge I/O fails. -/
inductive Event where
  | send (data : Bytes)
  | close
  | deadline (now : Instant)
  | poll (now : Instant)
  deriving DecidableEq, Repr

def step (r : BridgeRelay) : Event → Option BridgeRelay
  | .send data => r.send data
  | .close => some r.close
  | .deadline now => r.fireDeadline now
  | .poll now => r.poll now

/-- `TcpStream::connect` fails. -/
def connectFails (r : BridgeRelay) : Option BridgeRelay :=
  match r.phase with
  | .connecting _ => some { r with phase := .ended, dataRx := r.dataRx.dropReceiver }
  | _ => none

/-- A `write_all` fails after `n` bytes. -/
def writeFails (r : BridgeRelay) (n : Nat) : Option BridgeRelay :=
  match r.phase with
  | .relaying (data :: _) => some { r with
      phase := .ended
      dataRx := r.dataRx.dropReceiver
      written := r.written ++ [data.take n] }
  | .relaying [] =>
      match r.dataRx.tryRecv with
      | (.ok data, rx) => some { r with
          phase := .ended
          dataRx := rx.dropReceiver
          written := r.written ++ [data.take n] }
      | _ => none
  | _ => none

/-- The task is over, with or without a shutdown. -/
def Over (r : BridgeRelay) : Prop := r.phase = .shut ∨ r.phase = .ended

/-- What one poll does, case by case. -/
inductive Polled (r : BridgeRelay) (now : Instant) : BridgeRelay → Prop where
  | holds (hp : r.phase = .spawned) (hgate : now < r.gateUntil) :
      Polled r now { r with phase := .hold [] }
  | opens (hp : r.phase = .spawned) (hgate : r.gateUntil ≤ now) :
      Polled r now { r with phase := .connecting [] }
  | released {held : List Bytes} (hp : r.phase = .hold held) (hd : r.deadlinePassed = true) :
      Polled r now { r with phase := .connecting held }
  | pulls {held : List Bytes} {data : Bytes} {rest : List Bytes} (hp : r.phase = .hold held)
      (hcap : heldBytes held < epochHoldMaxBytes) (hd : r.deadlinePassed = false)
      (hq : r.dataRx.queue = data :: rest) :
      Polled r now { r with phase := .hold (held ++ [data]), dataRx := r.dataRx.tryRecv.2 }
  | abandons {held : List Bytes} (hp : r.phase = .hold held)
      (hcap : heldBytes held < epochHoldMaxBytes) (hd : r.deadlinePassed = false)
      (hq : r.dataRx.queue = []) (hs : r.dataRx.senders = false) :
      Polled r now { r with phase := .ended, dataRx := r.dataRx.dropReceiver }
  | connects {held : List Bytes} (hp : r.phase = .connecting held) :
      Polled r now { r with phase := .relaying held, connected := true }
  | flushes {data : Bytes} {held : List Bytes} (hp : r.phase = .relaying (data :: held)) :
      Polled r now { r with phase := .relaying held, written := r.written ++ [data] }
  | forwards {data : Bytes} {rest : List Bytes} (hp : r.phase = .relaying [])
      (hq : r.dataRx.queue = data :: rest) :
      Polled r now { r with dataRx := r.dataRx.tryRecv.2, written := r.written ++ [data] }
  | shuts (hp : r.phase = .relaying []) (hq : r.dataRx.queue = [])
      (hs : r.dataRx.senders = false) :
      Polled r now { r with phase := .shut, dataRx := r.dataRx.dropReceiver }

/-- The task waits: for its gate, for a chunk, or for nothing any more. -/
inductive Idle (r : BridgeRelay) : Prop where
  | atCap {held : List Bytes} (hp : r.phase = .hold held)
      (hcap : epochHoldMaxBytes ≤ heldBytes held) (hd : r.deadlinePassed = false)
  | holding {held : List Bytes} (hp : r.phase = .hold held) (hd : r.deadlinePassed = false)
      (hq : r.dataRx.queue = []) (hs : r.dataRx.senders = true)
  | drained (hp : r.phase = .relaying []) (hq : r.dataRx.queue = [])
      (hs : r.dataRx.senders = true)
  | finished (hp : r.Over)

variable {r r' : BridgeRelay} {now : Instant}

/-- A poll makes progress as `Polled` says, or the task is idle. -/
theorem poll_cases (r : BridgeRelay) (now : Instant) :
    (∃ r', r.poll now = some r' ∧ r.Polled now r') ∨ r.poll now = none ∧ r.Idle := by
  cases hp : r.phase with
  | spawned =>
      left
      by_cases hgate : now < r.gateUntil
      · exact ⟨_, by rw [poll, hp]; simp only [if_pos hgate], .holds hp hgate⟩
      · exact ⟨_, by rw [poll, hp]; simp only [if_neg hgate], .opens hp (Nat.le_of_not_lt hgate)⟩
  | hold held =>
      by_cases hcap : epochHoldMaxBytes ≤ heldBytes held
      · cases hd : r.deadlinePassed with
        | true => exact .inl ⟨_, by rw [poll, hp]; simp only [if_pos hcap, hd, if_true],
            .released hp hd⟩
        | false => exact .inr ⟨by rw [poll, hp]; simp only [if_pos hcap, hd]; rfl,
            .atCap hp hcap hd⟩
      · have hlt : heldBytes held < epochHoldMaxBytes := Nat.lt_of_not_le hcap
        cases hd : r.deadlinePassed with
        | true => exact .inl ⟨_, by rw [poll, hp]; simp only [if_neg hcap, hd, if_true],
            .released hp hd⟩
        | false =>
            have hpoll : r.poll now = match r.dataRx.tryRecv with
                | (.ok data, rx) => some { r with phase := .hold (held ++ [data]), dataRx := rx }
                | (.empty, _) => none
                | (.disconnected, rx) =>
                    some { r with phase := .ended, dataRx := rx.dropReceiver } := by
              rw [poll, hp]
              simp only [if_neg hcap, hd]
              rfl
            rcases Chan.tryRecv_cases r.dataRx with
              ⟨data, rest, hq, hok, -, -, -, -⟩ | ⟨hq, hs, hrecv⟩ | ⟨hq, hs, hrecv⟩
            · left
              refine ⟨_, ?_, .pulls hp hlt hd hq⟩
              rw [hpoll, ← Prod.mk.eta (p := r.dataRx.tryRecv), hok]
            · right
              exact ⟨by rw [hpoll, hrecv], .holding hp hd hq hs⟩
            · left
              exact ⟨_, by rw [hpoll, hrecv], .abandons hp hlt hd hq hs⟩
  | connecting held => exact .inl ⟨_, by rw [poll, hp], .connects hp⟩
  | relaying held =>
      cases held with
      | cons data held => exact .inl ⟨_, by rw [poll, hp], .flushes hp⟩
      | nil =>
          rcases Chan.tryRecv_cases r.dataRx with
            ⟨data, rest, hq, hok, -, -, -, -⟩ | ⟨hq, hs, hrecv⟩ | ⟨hq, hs, hrecv⟩
          · left
            refine ⟨_, ?_, .forwards hp hq⟩
            rw [poll, hp]
            simp only
            rw [← Prod.mk.eta (p := r.dataRx.tryRecv), hok]
          · right
            exact ⟨by rw [poll, hp]; simp only [hrecv], .drained hp hq hs⟩
          · left
            exact ⟨_, by rw [poll, hp]; simp only [hrecv], .shuts hp hq hs⟩
  | shut => exact .inr ⟨by rw [poll, hp], .finished (.inl hp)⟩
  | ended => exact .inr ⟨by rw [poll, hp], .finished (.inr hp)⟩

theorem polled_of_poll (h : r.poll now = some r') : r.Polled now r' := by
  rcases poll_cases r now with ⟨t, ht, hpolled⟩ | ⟨hnone, -⟩
  · obtain rfl := Option.some.inj (h.symm.trans ht)
    exact hpolled
  · rw [h] at hnone
    cases hnone

theorem idle_of_poll (h : r.poll now = none) : r.Idle := by
  rcases poll_cases r now with ⟨t, ht, -⟩ | ⟨-, hidle⟩
  · rw [h] at ht
    cases ht
  · exact hidle

-- ============================================================================
-- Every chunk is in one place
-- ============================================================================

/-- What the task has taken from its channel is held, written or, where it ended,
    written up to the point of failure. -/
def Accounted (r : BridgeRelay) : Prop :=
  match r.phase with
  | .spawned => r.written = [] ∧ r.dataRx.received = []
  | .hold held | .connecting held => r.written = [] ∧ r.dataRx.received = held
  | .relaying held => r.written ++ held = r.dataRx.received
  | .shut | .ended => r.written.flatten <+: r.dataRx.received.flatten

theorem accounted_relaying {held : List Bytes} (hp : r.phase = .relaying held) :
    r.Accounted ↔ r.written ++ held = r.dataRx.received := by
  rw [Accounted, hp]

theorem accounted_spawn (gateUntil : Instant) : (spawn gateUntil).Accounted := ⟨rfl, rfl⟩

theorem Accounted.poll (h : r.Accounted) (hpoll : r.poll now = some r') : r'.Accounted := by
  cases polled_of_poll hpoll with
  | holds hp _ | opens hp _ =>
      rw [Accounted, hp] at h
      exact h
  | released hp _ =>
      rw [Accounted, hp] at h
      exact h
  | pulls hp _ _ hq =>
      rw [Accounted, hp] at h
      refine ⟨h.1, ?_⟩
      show r.dataRx.tryRecv.2.received = _
      rw [(Chan.tryRecv_of_cons hq).2, h.2]
  | abandons hp _ _ _ _ =>
      rw [Accounted, hp] at h
      show r.written.flatten <+: r.dataRx.received.flatten
      rw [h.1]
      exact List.nil_prefix
  | connects hp =>
      rw [Accounted, hp] at h
      show r.written ++ _ = r.dataRx.received
      rw [h.1, h.2, List.nil_append]
  | flushes hp =>
      have hacc := (accounted_relaying hp).mp h
      apply (accounted_relaying rfl).mpr
      show (r.written ++ [_]) ++ _ = r.dataRx.received
      rw [List.append_assoc, List.singleton_append, hacc]
  | forwards hp hq =>
      have hacc := (accounted_relaying hp).mp h
      rw [List.append_nil] at hacc
      rw [Accounted]
      simp only [hp]
      rw [(Chan.tryRecv_of_cons hq).2, ← hacc, List.append_nil]
  | shuts hp _ _ =>
      have hacc := (accounted_relaying hp).mp h
      show r.written.flatten <+: r.dataRx.received.flatten
      rw [← hacc, List.append_nil]

/-- What happens to the queue of the channel leaves the account as it is. -/
theorem Accounted.of_queue (h : r.Accounted) {rx : Chan Bytes streamChannelCap}
    (hrx : rx.received = r.dataRx.received) : Accounted { r with dataRx := rx } := by
  rw [Accounted] at h ⊢
  rw [hrx]
  exact h

/-- The timer changes its own mark alone. -/
theorem fireDeadline_eq_some (h : r.fireDeadline now = some r') :
    r.gateUntil ≤ now ∧ r' = { r with deadlinePassed := true } := by
  rw [fireDeadline] at h
  split at h
  · next hgate => exact ⟨hgate, (Option.some.inj h).symm⟩
  · cases h

/-- A connection fails where it is opened. -/
theorem connectFails_eq_some (h : r.connectFails = some r') :
    ∃ held, r.phase = .connecting held ∧
      r' = { r with phase := .ended, dataRx := r.dataRx.dropReceiver } := by
  rw [connectFails] at h
  split at h
  · next held hp => exact ⟨held, hp, (Option.some.inj h).symm⟩
  · cases h

/-- A write that fails breaks off the next chunk: the next one held, or else the next
    one of the channel. -/
theorem writeFails_eq_some {n : Nat} (h : r.writeFails n = some r') :
    ∃ data held rx, (∃ unflushed, r.phase = .relaying unflushed) ∧
      (r.Accounted → r.written ++ data :: held = rx.received) ∧ rx.sent = r.dataRx.sent ∧
      r' = { r with phase := .ended, dataRx := rx, written := r.written ++ [data.take n] } := by
  rw [writeFails] at h
  split at h
  · next data held hp =>
    exact ⟨data, held, r.dataRx.dropReceiver, ⟨_, hp⟩, (accounted_relaying hp).mp, rfl,
      (Option.some.inj h).symm⟩
  · next hp =>
    split at h
    · next data rx hrecv =>
      have hsent := Chan.tryRecv_sent r.dataRx
      rw [hrecv] at hsent
      refine ⟨data, [], rx.dropReceiver, ⟨_, hp⟩, fun hacc => ?_, hsent, (Option.some.inj h).symm⟩
      have hkept := (accounted_relaying hp).mp hacc
      rw [List.append_nil] at hkept
      rw [hkept]
      exact (Chan.tryRecv_eq_ok hrecv).2.symm
    · cases h
  · cases h

theorem Accounted.fireDeadline (h : r.Accounted) (hfire : r.fireDeadline now = some r') :
    r'.Accounted := by
  obtain ⟨-, rfl⟩ := fireDeadline_eq_some hfire
  exact h

theorem Accounted.connectFails (h : r.Accounted) (hfail : r.connectFails = some r') :
    r'.Accounted := by
  obtain ⟨held, hp, rfl⟩ := connectFails_eq_some hfail
  rw [Accounted, hp] at h
  show r.written.flatten <+: r.dataRx.received.flatten
  rw [h.1]
  exact List.nil_prefix

/-- A chunk that breaks off continues what was written before it. -/
theorem take_prefix {written held received : List Bytes} {data : Bytes}
    (h : written ++ data :: held = received) (n : Nat) :
    (written ++ [data.take n]).flatten <+: received.flatten := by
  rw [← h, List.flatten_append, List.flatten_append]
  apply (List.prefix_append_right_inj _).mpr
  show data.take n ++ [] <+: data ++ held.flatten
  rw [List.append_nil]
  exact (List.take_prefix n data).trans (List.prefix_append _ _)

theorem Accounted.writeFails {n : Nat} (h : r.Accounted) (hfail : r.writeFails n = some r') :
    r'.Accounted := by
  obtain ⟨data, held, rx, -, hreceived, -, rfl⟩ := writeFails_eq_some hfail
  exact take_prefix (hreceived h) n

/-- A hand-over appends to the channel. -/
theorem send_eq_some {data : Bytes} (h : r.send data = some r') :
    r.dataRx.senders = true ∧ ∃ rx, r.dataRx.trySend data = .ok rx ∧
      r' = { r with dataRx := rx } := by
  rw [send] at h
  split at h
  · next hs =>
    split at h
    · next rx hrx => exact ⟨hs, rx, hrx, (Option.some.inj h).symm⟩
    · cases h
  · cases h

/-- In order: what was written is what was handed over first. -/
theorem Accounted.flatten_prefix (h : r.Accounted) :
    r.written.flatten <+: r.dataRx.sent.flatten := by
  have hsent : r.dataRx.received.flatten <+: r.dataRx.sent.flatten := by
    rw [Chan.sent, List.flatten_append]
    exact List.prefix_append _ _
  rw [Accounted] at h
  cases hp : r.phase with
  | spawned | hold | connecting =>
      rw [hp] at h
      rw [h.1]
      exact List.nil_prefix
  | relaying held =>
      rw [hp] at h
      rw [← h, List.flatten_append] at hsent
      exact (List.prefix_append _ _).trans hsent
  | shut | ended =>
      rw [hp] at h
      exact h.trans hsent

-- ============================================================================
-- Progress
-- ============================================================================

/-- A bound on the polls left until the task waits. -/
def todo (r : BridgeRelay) : Nat :=
  2 * r.dataRx.queue.length +
    match r.phase with
    | .spawned => 4
    | .hold held => 3 + held.length
    | .connecting held => 2 + held.length
    | .relaying held => 1 + held.length
    | .shut | .ended => 0

theorem todo_lt (hpoll : r.poll now = some r') : r'.todo < r.todo := by
  cases polled_of_poll hpoll with
  | holds hp _ | opens hp _ =>
      simp only [todo, hp, List.length_nil]
      omega
  | released hp _ | connects hp =>
      simp only [todo, hp]
      omega
  | pulls hp _ _ hq =>
      simp only [todo, hp, (Chan.tryRecv_of_cons hq).1, hq, List.length_cons, List.length_append,
        List.length_nil]
      omega
  | flushes hp =>
      simp only [todo, hp, List.length_cons]
      omega
  | forwards hp hq =>
      simp only [todo, hp, (Chan.tryRecv_of_cons hq).1, hq, List.length_cons]
      omega
  | abandons hp _ _ hq _ | shuts hp hq _ =>
      simp only [todo, hp, Chan.dropReceiver_queue]
      omega

/-- Polls alone keep the gate, the timer and the history of the channel. -/
theorem poll_frame (hpoll : r.poll now = some r') :
    r'.gateUntil = r.gateUntil ∧ r'.deadlinePassed = r.deadlinePassed ∧
      r'.dataRx.sent = r.dataRx.sent ∧ r'.dataRx.senders = r.dataRx.senders := by
  cases polled_of_poll hpoll with
  | holds | opens | released | connects | flushes => exact ⟨rfl, rfl, rfl, rfl⟩
  | abandons | shuts =>
      exact ⟨rfl, rfl, Chan.dropReceiver_sent _, Chan.dropReceiver_senders _⟩
  | pulls | forwards => exact ⟨rfl, rfl, Chan.tryRecv_sent _, Chan.tryRecv_senders _⟩

/-- A task that is polled often enough comes to wait. -/
theorem exists_idle (r : BridgeRelay) (now : Instant) :
    ∃ n s, Machine.run step r (List.replicate n (.poll now)) = some s ∧ s.Idle := by
  induction hk : r.todo using Nat.strong_induction_on generalizing r with
  | _ k ih =>
      subst hk
      cases hpoll : r.poll now with
      | none => exact ⟨0, r, rfl, idle_of_poll hpoll⟩
      | some r' =>
          obtain ⟨n, s, hrun, hidle⟩ := ih r'.todo (todo_lt hpoll) r' rfl
          refine ⟨n + 1, s, ?_, hidle⟩
          rw [List.replicate_succ, Machine.run_cons]
          show (r.poll now).bind _ = _
          rw [hpoll]
          exact hrun

-- ============================================================================
-- A relay whose sender lives
-- ============================================================================

/-- Both ends of the channel are alive and the task goes on. -/
structure Open (r : BridgeRelay) : Prop where
  senders : r.dataRx.senders = true
  receiver : r.dataRx.receiver = true
  notOver : ¬ r.Over

theorem open_of_new {rx : Chan Bytes streamChannelCap} {data : Bytes} (gateUntil : Instant)
    (hsend : Chan.new.trySend data = .ok rx) :
    Open { spawn gateUntil with dataRx := rx } := by
  obtain ⟨-, -, -, -, hs, hr⟩ := Chan.trySend_eq_ok hsend
  refine ⟨hs, hr, ?_⟩
  intro hover
  rcases hover with hover | hover <;> cases hover

/-- While its sender lives no poll ends a relay. -/
theorem Open.poll (h : r.Open) (hpoll : r.poll now = some r') : r'.Open := by
  obtain ⟨hs, hr, hover⟩ := h
  cases polled_of_poll hpoll with
  | abandons _ _ _ _ hclosed | shuts _ _ hclosed =>
      rw [hs] at hclosed
      cases hclosed
  | holds | opens | released | connects | flushes =>
      refine ⟨hs, hr, ?_⟩
      intro hover'
      rcases hover' with hover' | hover' <;> cases hover'
  | pulls _ _ _ hq =>
      refine ⟨(Chan.tryRecv_senders _).trans hs, (Chan.tryRecv_receiver _).trans hr, ?_⟩
      intro hover'
      rcases hover' with hover' | hover' <;> cases hover'
  | forwards hp hq =>
      exact ⟨(Chan.tryRecv_senders _).trans hs, (Chan.tryRecv_receiver _).trans hr, hover⟩

theorem Open.fireDeadline (h : r.Open) (hfire : r.fireDeadline now = some r') : r'.Open := by
  obtain ⟨-, rfl⟩ := fireDeadline_eq_some hfire
  exact ⟨h.senders, h.receiver, h.notOver⟩

end BridgeRelay

end MixTor
