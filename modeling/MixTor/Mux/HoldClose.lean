/-
  MixTor.Mux.HoldClose

  The close of a stream against the chunks handed over before it.

  A relay that takes the end of its channel for the end of a stream with nothing
  to forward returns from the hold phase with the chunks it has already pulled.
  Every other way through the hold phase loses nothing: past the deadline, at
  the byte cap and after the connection the chunks reach the writer first.
-/

import MixTor.Mux.BridgeRelay

namespace MixTor

open Channel
open Crypto (Bytes)

namespace BridgeRelay

/-- No chunk is lost.  What is written comes in the order of the hand-over, the
    task ends only when all of it is written, and once the stream is closed the
    task does end when its gate has opened. -/
structure Lossless (r : BridgeRelay) : Prop where
  inOrder : r.written <+: r.dataRx.sent
  flushed : r.Over → r.written = r.dataRx.sent
  drains : r.dataRx.senders = false → ∃ n s,
    Machine.run step r (.deadline r.gateUntil :: List.replicate n (.poll r.gateUntil)) = some s ∧
      s.Over ∧ s.written = r.dataRx.sent

/-- The hold loop does not see the end of its channel with chunks in hand: when
    it polls an empty, closed channel below the cap and before the deadline, it
    holds nothing. -/
def KeepsHeld (r : BridgeRelay) : Event → Prop
  | .poll _ => ∀ held, r.phase = .hold held → heldBytes held < epochHoldMaxBytes →
      r.deadlinePassed = false → r.dataRx.queue = [] → r.dataRx.senders = false → held = []
  | _ => True

/-- The invariant behind `Lossless`. -/
structure Whole (r : BridgeRelay) : Prop where
  accounted : r.Accounted
  finished : r.Over → r.written = r.dataRx.sent ∧ r.dataRx.senders = false

variable {r r' : BridgeRelay} {now : Instant}

theorem whole_spawn (gateUntil : Instant) : (spawn gateUntil).Whole where
  accounted := accounted_spawn gateUntil
  finished h := by rcases h with h | h <;> cases h

theorem Whole.poll (h : r.Whole) (hc : r.KeepsHeld (.poll now)) (hpoll : r.poll now = some r') :
    r'.Whole := by
  refine ⟨h.accounted.poll hpoll, ?_⟩
  have hacc := h.accounted
  cases polled_of_poll hpoll with
  | holds | opens | released | pulls | connects | flushes =>
      intro hover
      rcases hover with hover | hover <;> cases hover
  | forwards hp _ =>
      intro hover
      rcases hover with hover | hover <;> cases hp.symm.trans hover
  | abandons hp hcap hd hq hs =>
      intro _
      obtain rfl := hc _ hp hcap hd hq hs
      rw [Accounted, hp] at hacc
      refine ⟨?_, hs⟩
      show r.written = r.dataRx.sent
      rw [Chan.sent, hq, hacc.1, hacc.2]
      rfl
  | shuts hp hq hs =>
      intro _
      have hwritten := (accounted_relaying hp).mp hacc
      rw [List.append_nil] at hwritten
      refine ⟨?_, hs⟩
      show r.written = r.dataRx.sent
      rw [Chan.sent, hq, List.append_nil, hwritten]

/-- A relay that has ended takes no more chunks and has nothing left to write. -/
theorem Whole.step {e : Event} (h : r.Whole) (hc : r.KeepsHeld e) (hstep : r.step e = some r') :
    r'.Whole := by
  cases e with
  | poll now => exact h.poll hc hstep
  | deadline now =>
      refine ⟨h.accounted.fireDeadline hstep, ?_⟩
      obtain ⟨-, rfl⟩ := fireDeadline_eq_some hstep
      exact h.finished
  | send data =>
      obtain ⟨hs, rx, hrx, rfl⟩ := send_eq_some hstep
      obtain ⟨-, -, -, hrec, -, -⟩ := Chan.trySend_eq_ok hrx
      refine ⟨h.accounted.of_queue hrec, fun hover => ?_⟩
      have hopen := (h.finished hover).2
      rw [hs] at hopen
      cases hopen
  | close =>
      obtain rfl := Option.some.inj hstep
      exact ⟨h.accounted.of_queue rfl, fun hover => ⟨(h.finished hover).1, rfl⟩⟩

/-- After the deadline a closed stream is drained. -/
theorem Whole.drains (h : r.Whole) (hs : r.dataRx.senders = false) :
    ∃ n s, Machine.run BridgeRelay.step r
        (.deadline r.gateUntil :: List.replicate n (.poll r.gateUntil)) = some s ∧
      s.Over ∧ s.written = r.dataRx.sent := by
  have hfire : r.step (.deadline r.gateUntil) = some { r with deadlinePassed := true } := by
    show r.fireDeadline r.gateUntil = _
    rw [fireDeadline, if_pos (Nat.le_refl _)]
  have hkeeps : r.KeepsHeld (.deadline r.gateUntil) := trivial
  have hwhole := h.step hkeeps hfire
  obtain ⟨n, s, hrun, hidle⟩ := exists_idle { r with deadlinePassed := true } r.gateUntil
  -- along the polls the timer stays fired, so no held chunk can be abandoned
  have hinv : s.Whole ∧ s.deadlinePassed = true ∧ s.dataRx.sent = r.dataRx.sent ∧
      s.dataRx.senders = false := by
    refine (Machine.always_of_meets
      (I := fun t => t.Whole ∧ t.deadlinePassed = true ∧ t.dataRx.sent = r.dataRx.sent ∧
        t.dataRx.senders = false)
      (c := fun _ e => e = .poll r.gateUntil) ?_ ⟨hwhole, rfl, rfl, hs⟩
      (Machine.meets_of_mem (fun _ he _ => List.eq_of_mem_replicate he) _)).last hrun
    rintro t e t' ⟨ht, hd, hsent, hts⟩ rfl hstep
    obtain ⟨-, hd', hsent', hts'⟩ := poll_frame hstep
    have hkeeps : t.KeepsHeld (.poll r.gateUntil) := by
      intro held _ _ hnot
      rw [hd] at hnot
      cases hnot
    exact ⟨ht.step hkeeps hstep, hd'.trans hd, hsent'.trans hsent, hts'.trans hts⟩
  obtain ⟨hw, hd, hsent, hts⟩ := hinv
  have hover : s.Over := by
    cases hidle with
    | atCap _ _ hnot | holding _ hnot _ _ =>
        rw [hd] at hnot
        cases hnot
    | drained _ _ hopen =>
        rw [hts] at hopen
        cases hopen
    | finished hp => exact hp
  refine ⟨n, s, ?_, hover, (hw.finished hover).1.trans hsent⟩
  rw [Machine.run_cons, hfire]
  exact hrun

theorem Whole.lossless (h : r.Whole) : r.Lossless where
  inOrder := by
    have hsent : r.dataRx.received <+: r.dataRx.sent := List.prefix_append _ _
    have hacc := h.accounted
    rw [Accounted] at hacc
    cases hp : r.phase with
    | spawned | hold | connecting =>
        rw [hp] at hacc
        rw [hacc.1]
        exact List.nil_prefix
    | relaying held =>
        rw [hp] at hacc
        rw [← hacc] at hsent
        exact (List.prefix_append _ _).trans hsent
    | shut => exact (h.finished (.inl hp)).1 ▸ List.prefix_rfl
    | ended => exact (h.finished (.inr hp)).1 ▸ List.prefix_rfl
  flushed hover := (h.finished hover).1
  drains := h.drains

/-- A poll that breaks the condition loses what the relay holds. -/
theorem not_lossless_of_abandons {e : Event} (h : r.Whole) (hc : ¬ r.KeepsHeld e)
    (hstep : r.step e = some r') : ¬ r'.Lossless := by
  cases e with
  | poll now =>
      have hbad : ∃ held, r.phase = .hold held ∧ heldBytes held < epochHoldMaxBytes ∧
          r.deadlinePassed = false ∧ r.dataRx.queue = [] ∧ r.dataRx.senders = false ∧
          held ≠ [] := by
        simpa only [KeepsHeld, not_forall, exists_prop] using hc
      obtain ⟨held, hp, hcap, hd, hq, hs, hne⟩ := hbad
      have hacc := h.accounted
      rw [Accounted, hp] at hacc
      obtain ⟨hwritten, hreceived⟩ := hacc
      have hover : r'.Over ∧ r'.written = r.written := by
        cases polled_of_poll hstep with
        | abandons => exact ⟨.inr rfl, rfl⟩
        | holds hp' | opens hp' | connects hp' | flushes hp' | forwards hp' | shuts hp' =>
            cases hp.symm.trans hp'
        | released _ hd' =>
            rw [hd] at hd'
            cases hd'
        | pulls _ _ _ hq' =>
            rw [hq] at hq'
            cases hq'
      obtain ⟨-, -, hsent, -⟩ := poll_frame hstep
      intro hl
      have hall := hl.flushed hover.1
      rw [hover.2, hwritten, hsent, Chan.sent, hq, hreceived, List.append_nil] at hall
      exact hne hall.symm
  | send | close | deadline => exact absurd trivial hc

/-- **When the close of a stream loses nothing.** For every gate and every
    interleaving of hand-overs, the close, the deadline and the steps of the
    relay, no chunk is lost if and only if the hold loop never finds its channel
    closed and empty, below the cap and before the deadline, while it holds a
    chunk. -/
theorem lossless_iff (gateUntil : Instant) (events : List Event) :
    Machine.Always step Lossless (spawn gateUntil) events ↔
      Machine.Meets step KeepsHeld (spawn gateUntil) events :=
  Machine.always_iff_meets (fun _ h => h.lossless) (fun _ _ _ h hc hstep => h.step hc hstep)
    (fun _ _ _ => not_lossless_of_abandons) (whole_spawn gateUntil)

/-- One chunk and the close arrive within the hold window: the chunk is pulled
    into `held` and never written. -/
theorem close_in_hold_loses_chunk :
    ((Machine.run step (spawn 1000)
        [.send [7], .poll 10, .poll 20, .close, .poll 30]).map fun r =>
          (r.phase, r.dataRx.sent, r.written)) = some (.ended, [[7]], []) ∧
      ¬ Machine.Always step Lossless (spawn 1000)
        [.send [7], .poll 10, .poll 20, .close, .poll 30] := by
  have hrun : ((Machine.run step (spawn 1000)
      [.send [7], .poll 10, .poll 20, .close, .poll 30]).map fun r =>
        (r.phase, r.dataRx.sent, r.written)) = some (.ended, [[7]], []) := by
    decide +kernel
  refine ⟨hrun, fun h => ?_⟩
  obtain ⟨r, hr, hstate⟩ := Option.map_eq_some_iff.mp hrun
  obtain ⟨hphase, hrest⟩ := Prod.mk.inj hstate
  obtain ⟨hsent, hwritten⟩ := Prod.mk.inj hrest
  have hall := (h.last hr).flushed (.inr hphase)
  rw [hwritten, hsent] at hall
  cases hall

end BridgeRelay

end MixTor
