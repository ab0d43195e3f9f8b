/-
  MixTor.Transport.ConnectionLimit

  The cap on established connections (transport.rs): `global_connection_sem` and the
  flows on the shared emitter.

  Once a client has shaken hands its connection takes a permit, and gives it back when
  `handle_server_connection_with_lab` returns.  The flow that it has registered is kept
  by the emitter until `service_flow` drops it: past the end of its channel, which the
  clones of `downlink_tx` in relay tasks put off, and past its tail.  So a flow can
  outlive the permit of its connection.
-/

import MixTor.Transport.FlowClose
import MixTor.Lib.Tally

namespace MixTor

open Crypto (Aead Blake3 FrameCipher)
open Tally (tally tally_set)

/-- Process-wide cap on simultaneously-established server connections. -/
def maxTotalConnections : Nat := 4096

/-- What the registration of a flow draws, reads and is given. -/
structure NewFlow (ρ : Type) where
  clock : Clock
  seed : EphemeralSeed
  initialIatMs : Double
  composerRng : ρ
  thresholds : FuzzedClassThresholds
  cipher : FrameCipher
  tail : TailPolicy

section

variable {ρ : Type} [RngCore ρ]

/-- The flow of a server connection, without an entry gate; or no session for it. -/
def registerShapedFlow (F : F64) (H : Blake3) (new : NewFlow ρ) : Option (FlowSlot ρ) :=
  match ShapedSession.new F H new.clock new.seed (shapedCompositionConfig F new.initialIatMs)
      new.composerRng with
  | some (.ok (session, clock)) =>
      some (.registered session clock.now new.tail new.thresholds clock.now new.cipher)
  | _ => none

end

/-- The call finds the channel open wherever it looks. -/
def ServiceCall.keepOpen (call : ServiceCall) : ServiceCall :=
  { call with arrivals := fun i => ⟨(call.arrivals i).cells, false⟩ }

/-- A connection that was established. -/
structure Established (ρ : Type) where
  /-- The handler holds `_conn_permit`. -/
  permit : Bool
  /-- The demux holds `downlink_tx`. -/
  sender : Bool
  /-- Relay tasks that hold a clone of it. -/
  relays : Nat
  slot : Service ρ

namespace Established

variable {ρ : Type} [RngCore ρ]

inductive Event where
  /-- The demux clones `downlink_tx` for a new relay task. -/
  | relayStarts
  /-- A relay task is over, with its reader. -/
  | relayEnds
  /-- `mux_demux_to_bridges` returns: EOF, a bad frame or too many streams. -/
  | demuxEnds
  /-- The handler returns. -/
  | handlerReturns
  /-- The emitter services the flow. -/
  | service (call : ServiceCall)

/-- Registered: the permit is taken and the slot handed to the emitter. -/
def new (flow : FlowSlot ρ) : Established ρ := ⟨true, true, 0, .start flow⟩

/-- The demux or a relay task can still send. -/
def Alive (c : Established ρ) : Prop := c.sender = true ∨ 0 < c.relays

instance (c : Established ρ) : Decidable c.Alive :=
  inferInstanceAs (Decidable (c.sender = true ∨ 0 < c.relays))

def step (F : F64) (A : Aead) (c : Established ρ) : Event → Option (Established ρ)
  | .relayStarts => if c.sender then some { c with relays := c.relays + 1 } else none
  | .relayEnds => if 0 < c.relays then some { c with relays := c.relays - 1 } else none
  | .demuxEnds => if c.sender then some { c with sender := false } else none
  | .handlerReturns =>
      if c.permit && !c.sender then some { c with permit := false } else none
  | .service call =>
      -- the channel cannot close before its last sender is dropped
      let call := if c.Alive then call.keepOpen else call
      (c.slot.step F A call).map fun slot => { c with slot }

end Established

/-- The established connections of a process. -/
structure Connections (ρ : Type) where
  conns : List (Established ρ)

namespace Connections

variable {ρ : Type}

def new : Connections ρ := ⟨[]⟩

/-- The permits that are out. -/
def permits (s : Connections ρ) : Nat := tally (fun c => c.permit.toNat) s.conns

/-- The slots that were registered and not yet dropped. -/
def slots (s : Connections ρ) : Nat := tally (fun c => c.slot.kept.toNat) s.conns

/-- The connections that hold a permit or have left a slot. -/
def live (s : Connections ρ) : Nat := tally (fun c => (c.permit || c.slot.kept).toNat) s.conns

inductive Event (ρ : Type) where
  /-- A client has shaken hands. -/
  | establish (flow : NewFlow ρ)
  | conn (i : Nat) (e : Established.Event)

/-- The number of slots stays within the cap. -/
def SlotsBounded (s : Connections ρ) : Prop := s.slots ≤ maxTotalConnections

/-- No handler that has returned has left a slot behind. -/
def NoneLeft (s : Connections ρ) : Prop := ∀ c ∈ s.conns, c.permit = false → c.slot.kept = false

/-- A client is given a permit only while no handler that has returned has left a slot
    behind. -/
def NoEarlyReturn (s : Connections ρ) : Event ρ → Prop
  | .establish _ => s.permits < maxTotalConnections → s.NoneLeft
  | .conn .. => True

/-- A handler returns only when its slot has been dropped. -/
def ReturnsLast (s : Connections ρ) : Event ρ → Prop
  | .conn i .handlerReturns => ∀ c ∈ s.conns[i]?, c.slot.kept = false
  | _ => True

variable [RngCore ρ]

def step (F : F64) (A : Aead) (H : Blake3) (s : Connections ρ) :
    Event ρ → Option (Connections ρ)
  | .establish new =>
      if s.permits < maxTotalConnections then
        match registerShapedFlow F H new with
        | none => some s
        | some flow => some ⟨s.conns ++ [.new flow]⟩
      -- at capacity: shed this connection
      else some s
  | .conn i e =>
      (s.conns[i]?).bind fun c => (c.step F A e).map fun c' => ⟨s.conns.set i c'⟩

end Connections

-- ============================================================================
-- What a step does to the permits and the slots
-- ============================================================================

namespace Established

variable {ρ : Type} [RngCore ρ] {F : F64} {A : Aead} {c c' : Established ρ}

/-- A step services the slot, or leaves it alone; no sender comes back, and a permit is
    given back by its handler alone. -/
theorem step_cases {e : Event} (h : c.step F A e = some c') :
    (∃ call slot, e = .service call ∧
      c.slot.step F A (if c.Alive then call.keepOpen else call) = some slot ∧
      c' = { c with slot }) ∨
    c'.slot = c.slot ∧ (c'.Alive → c.Alive) ∧
      (c'.permit = c.permit ∨ e = .handlerReturns ∧ c'.permit = false) := by
  cases e with
  | relayStarts =>
      rw [step] at h
      split at h
      · next hsender =>
        obtain rfl := Option.some.inj h
        exact .inr ⟨rfl, fun _ => .inl hsender, .inl rfl⟩
      · cases h
  | relayEnds =>
      rw [step] at h
      split at h
      · next hrelays =>
        obtain rfl := Option.some.inj h
        exact .inr ⟨rfl, fun _ => .inr hrelays, .inl rfl⟩
      · cases h
  | demuxEnds =>
      rw [step] at h
      split at h
      · next hsender =>
        obtain rfl := Option.some.inj h
        exact .inr ⟨rfl, fun _ => .inl hsender, .inl rfl⟩
      · cases h
  | handlerReturns =>
      rw [step] at h
      split at h
      · obtain rfl := Option.some.inj h
        exact .inr ⟨rfl, fun halive => halive, .inr ⟨rfl, rfl⟩⟩
      · cases h
  | service call =>
      obtain ⟨slot, hslot, rfl⟩ := Option.map_eq_some_iff.mp h
      exact .inl ⟨call, slot, rfl, hslot, rfl⟩

/-- A slot that was dropped does not come back. -/
theorem step_kept {e : Event} (h : c.step F A e = some c') (hkept : c'.slot.kept = true) :
    c.slot.kept = true := by
  rcases step_cases h with ⟨call, slot, -, hslot, rfl⟩ | ⟨hsame, -, -⟩
  · rw [Service.step] at hslot
    split at hslot
    · next hnow => exact hnow
    · cases hslot
  · rwa [hsame] at hkept

/-- The permit stays where it is until its handler returns. -/
theorem step_permit {e : Event} (h : c.step F A e = some c') :
    c'.permit = c.permit ∨ e = .handlerReturns ∧ c'.permit = false := by
  rcases step_cases h with ⟨call, slot, -, -, rfl⟩ | ⟨-, -, hpermit⟩
  · exact .inl rfl
  · exact hpermit

theorem step_permit_le {e : Event} (h : c.step F A e = some c') :
    c'.permit.toNat ≤ c.permit.toNat := by
  rcases step_permit h with hsame | ⟨-, hback⟩
  · rw [hsame]
  · rw [hback]
    exact Nat.zero_le _

/-- What is live was live. -/
theorem step_live {e : Event} (h : c.step F A e = some c') :
    (c'.permit || c'.slot.kept).toNat ≤ (c.permit || c.slot.kept).toNat := by
  have hlive : (c'.permit || c'.slot.kept) = true → (c.permit || c.slot.kept) = true := by
    rw [Bool.or_eq_true, Bool.or_eq_true]
    rintro (hpermit | hkept)
    · rcases step_permit h with hsame | ⟨-, hback⟩
      · exact .inl (hsame ▸ hpermit)
      · rw [hback] at hpermit
        cases hpermit
    · exact .inr (step_kept h hkept)
  cases hlater : (c'.permit || c'.slot.kept) with
  | true => rw [hlive hlater]
  | false => exact Nat.zero_le _

end Established

namespace Connections

variable {ρ : Type} [RngCore ρ] {F : F64} {A : Aead} {H : Blake3} {s s' : Connections ρ}

/-- A step establishes a connection while a permit is left, is one of a connection, or
    sheds a client. -/
theorem step_cases {e : Event ρ} (h : s.step F A H e = some s') :
    (∃ new flow, e = .establish new ∧ registerShapedFlow F H new = some flow ∧
      s.permits < maxTotalConnections ∧ s' = ⟨s.conns ++ [.new flow]⟩) ∨
    (∃ i e' c c', e = .conn i e' ∧ s.conns[i]? = some c ∧ c.step F A e' = some c' ∧
      s' = ⟨s.conns.set i c'⟩) ∨
    s' = s := by
  cases e with
  | establish new =>
      rw [step] at h
      split at h
      · next hroom =>
        split at h
        · exact .inr (.inr (Option.some.inj h).symm)
        · next flow hflow =>
          exact .inl ⟨new, flow, rfl, hflow, hroom, (Option.some.inj h).symm⟩
      · exact .inr (.inr (Option.some.inj h).symm)
  | conn i e =>
      obtain ⟨c, hc, h⟩ := Option.bind_eq_some_iff.mp h
      obtain ⟨c', hc', rfl⟩ := Option.map_eq_some_iff.mp h
      exact .inr (.inl ⟨i, e, c, c', rfl, hc, hc', rfl⟩)

/-- A count that no step of a connection raises grows with new connections alone, each
    counting one at most. -/
theorem tally_step {f : Established ρ → Nat} (hnew : ∀ flow, f (.new flow) ≤ 1)
    (hconn : ∀ {c c' : Established ρ} {e : Established.Event},
      c.step F A e = some c' → f c' ≤ f c)
    {e : Event ρ} (h : s.step F A H e = some s') :
    tally f s'.conns ≤ tally f s.conns ∨
      (∃ new, e = .establish new) ∧ s.permits < maxTotalConnections ∧
        tally f s'.conns ≤ tally f s.conns + 1 := by
  rcases step_cases h with
    ⟨new, flow, he, -, hroom, rfl⟩ | ⟨i, e', c, c', -, hc, hstep, rfl⟩ | rfl
  · refine .inr ⟨⟨new, he⟩, hroom, ?_⟩
    rw [Tally.tally_append, Tally.tally_cons, Tally.tally_nil]
    exact Nat.add_le_add_left (hnew flow) _
  · have hset := tally_set (f := f) hc c'
    have hle := hconn hstep
    left
    show tally f (s.conns.set i c') ≤ _
    omega
  · exact .inl (Nat.le_refl _)

/-- **The semaphore bounds the handlers**, in every run. -/
theorem always_permits (events : List (Event ρ)) :
    Machine.Always (step F A H) (fun s => s.permits ≤ maxTotalConnections) new events := by
  apply Machine.always_of_invariant
  · intro s e s' h hstep
    rcases tally_step (fun _ => Nat.le_refl 1) Established.step_permit_le hstep with
      hle | ⟨-, hroom, hle⟩
    · exact hle.trans h
    · exact hle.trans hroom
  · exact Nat.zero_le _

omit [RngCore ρ] in
/-- Where no slot is left behind, the permits count what is live. -/
theorem NoneLeft.live_le_permits (h : s.NoneLeft) : s.live ≤ s.permits := by
  apply Tally.tally_mono
  intro c hmem
  cases hpermit : c.permit with
  | true => exact Nat.le_refl 1
  | false =>
      rw [h c hmem hpermit]
      exact Nat.le_refl 0

/-- **Step lemma.**  What is live stays within the cap. -/
theorem step_live {e : Event ρ} (h : s.live ≤ maxTotalConnections) (hc : s.NoEarlyReturn e)
    (hstep : s.step F A H e = some s') : s'.live ≤ maxTotalConnections := by
  rcases tally_step (fun _ => Nat.le_refl 1) Established.step_live hstep with
    hle | ⟨⟨new, rfl⟩, hroom, hle⟩
  · exact hle.trans h
  · have hless : s.live < maxTotalConnections := (hc hroom).live_le_permits.trans_lt hroom
    exact hle.trans hless

/-- **The permits bound the slots as long as no client is let in over a slot that its
    handler has left behind.**  Any number of connections under any tail policy, any
    order of their endings. -/
theorem slotsBounded_of_noEarlyReturn (F : F64) (A : Aead) (H : Blake3) (events : List (Event ρ))
    (hc : Machine.Meets (step F A H) NoEarlyReturn new events) :
    Machine.Always (step F A H) SlotsBounded new events := by
  apply (Machine.always_of_meets (fun _ _ _ => step_live) (Nat.zero_le _) hc).mono
  intro s hlive
  have hslots : s.slots ≤ s.live := by
    apply Tally.tally_mono
    intro c _
    cases c.slot.kept with
    | true => rw [Bool.or_true]
    | false => exact Nat.zero_le _
  exact hslots.trans hlive

/-- A handler that returns last leaves no slot behind. -/
theorem step_noneLeft {e : Event ρ} (h : s.NoneLeft) (hlast : s.ReturnsLast e)
    (hstep : s.step F A H e = some s') : s'.NoneLeft := by
  rcases step_cases hstep with
    ⟨new, flow, -, -, -, rfl⟩ | ⟨i, e', c, c', rfl, hci, hmove, rfl⟩ | rfl
  · intro c hmem hfree
    rcases List.mem_append.mp hmem with hold | hnew
    · exact h c hold hfree
    · rw [List.mem_singleton.mp hnew] at hfree
      cases hfree
  · intro c₁ hmem hfree
    rcases List.mem_or_eq_of_mem_set hmem with hold | rfl
    · exact h c₁ hold hfree
    · by_contra hnot
      have hkept := Established.step_kept hmove (Bool.not_eq_false _ ▸ hnot)
      rcases Established.step_permit hmove with hsame | ⟨rfl, -⟩
      · rw [h c (List.mem_of_getElem? hci) (hsame ▸ hfree)] at hkept
        cases hkept
      · rw [hlast c hci] at hkept
        cases hkept
  · exact h

/-- **The permits alone would do if handlers returned last.** -/
theorem noEarlyReturn_of_returnsLast (F : F64) (A : Aead) (H : Blake3) (events : List (Event ρ))
    (hlast : Machine.Meets (step F A H) ReturnsLast new events) :
    Machine.Meets (step F A H) NoEarlyReturn new events := by
  apply hlast.imp_of_invariant (fun _ _ _ => step_noneLeft)
  · intro s e h _
    cases e with
    | conn => trivial
    | establish flow => exact fun _ => h
  · exact fun _ hmem => absurd hmem List.not_mem_nil

-- ============================================================================
-- What handlers leave behind
-- ============================================================================

omit [RngCore ρ] in
theorem set_last (cs : List (Established ρ)) (c c' : Established ρ) :
    (cs ++ [c]).set cs.length c' = cs ++ [c'] := by
  rw [List.set_append_right _ _ (Nat.le_refl _), Nat.sub_self]
  rfl

/-- The last connection moves on its own. -/
theorem run_last (cs : List (Established ρ)) (c : Established ρ)
    (events : List Established.Event) :
    Machine.run (step F A H) ⟨cs ++ [c]⟩ (events.map (.conn cs.length))
      = (Machine.run (Established.step F A) c events).map fun c' => ⟨cs ++ [c']⟩ := by
  induction events generalizing c with
  | nil => rfl
  | cons e events ih =>
      have hlast : (cs ++ [c])[cs.length]? = some c := List.getElem?_concat_length
      rw [List.map_cons, Machine.run_cons, Machine.run_cons]
      show ((((cs ++ [c])[cs.length]?).bind _).bind _) = _
      rw [hlast, Option.bind_some]
      cases c.step F A e with
      | none => rfl
      | some c' =>
          show Machine.run (step F A H) ⟨(cs ++ [c]).set cs.length c'⟩ _ = _
          rw [set_last]
          exact ih c'

/-- A flow under the class floors, at least 30 s long. -/
def steepNew : NewFlow FixedRng where
  clock := .const 0
  seed := ⟨Vector.replicate 32 157⟩
  initialIatMs := .finite 5
  composerRng := ⟨0⟩
  thresholds := ⟨1, 2, 3⟩
  cipher := .new (Vector.replicate 32 9)
  tail := .byClass

theorem register_steepNew :
    registerShapedFlow .steep .sumBytes steepNew = some (Service.steepFlow 157 .byClass) := by
  have hnew : ShapedSession.new .steep .sumBytes steepNew.clock steepNew.seed
      (shapedCompositionConfig .steep steepNew.initialIatMs) steepNew.composerRng
        = some (.ok (steepSession 157, .const 0)) := new_steepSession 157
  rw [registerShapedFlow, hnew]
  rfl

/-- The client closes its wire and the handler returns; then the emitter finds the
    channel closed, and the tail begins. -/
def closes : List Established.Event :=
  [.demuxEnds, .handlerReturns, .service (Service.callAt 0 .none),
    .service (Service.callAt 120000000 ⟨[], true⟩)]

/-- The `n`-th client comes and goes. -/
def visit (n : Nat) : List (Event FixedRng) := .establish steepNew :: closes.map (.conn n)

/-- The permit is back, and the slot is in its tail. -/
theorem run_closes : ∃ c, Machine.run (Established.step .steep .tagOnly)
    (.new (Service.steepFlow 157 .byClass)) closes = some c ∧ c.permit = false ∧
      c.slot.kept = true ∧ c.slot.flow.readerDone = true := by
  have hends : (Machine.run (Established.step .steep .tagOnly)
      (.new (Service.steepFlow 157 .byClass)) closes).map
        (fun c => (c.permit, c.slot.kept, c.slot.flow.readerDone)) = some (false, true, true) := by
    decide +kernel
  obtain ⟨c, hrun, hstate⟩ := Option.map_eq_some_iff.mp hends
  obtain ⟨hpermit, hrest⟩ := Prod.mk.inj hstate
  obtain ⟨hkept, hdone⟩ := Prod.mk.inj hrest
  exact ⟨c, hrun, hpermit, hkept, hdone⟩

theorem run_visits {c : Established FixedRng}
    (hc : Machine.run (Established.step .steep .tagOnly) (.new (Service.steepFlow 157 .byClass))
      closes = some c) (hpermit : c.permit = false) (n : Nat) :
    Machine.run (step .steep .tagOnly .sumBytes) new ((List.range n).flatMap visit)
      = some ⟨List.replicate n c⟩ := by
  induction n with
  | zero => rfl
  | succ n ih =>
      have hfree : permits ⟨List.replicate n c⟩ < maxTotalConnections := by
        have hnone : permits ⟨List.replicate n c⟩ = n * c.permit.toNat :=
          Tally.tally_replicate n c
        rw [hnone, hpermit, Bool.toNat_false, Nat.mul_zero]
        decide
      have hstep : step .steep .tagOnly .sumBytes ⟨List.replicate n c⟩ (.establish steepNew)
          = some ⟨List.replicate n c ++ [.new (Service.steepFlow 157 .byClass)]⟩ := by
        rw [step, if_pos hfree, register_steepNew]
      have hlast := run_last (F := .steep) (A := .tagOnly) (H := .sumBytes) (List.replicate n c)
        (.new (Service.steepFlow 157 .byClass)) closes
      rw [List.length_replicate, hc] at hlast
      rw [List.range_succ, List.flatMap_append, Machine.run_append, ih, List.flatMap_singleton,
        Option.bind_some, visit, Machine.run_cons, hstep, Option.bind_some, hlast, Option.map_some,
        List.replicate_succ']

/-- A client that has gone leaves its slot, within the cap. -/
theorem slotsBounded_of_noEarlyReturn_visit :
    (∃ s, Machine.run (step .steep .tagOnly .sumBytes) new (visit 0) = some s ∧
      s.permits = 0 ∧ s.slots = 1) ∧
      Machine.Always (step .steep .tagOnly .sumBytes) SlotsBounded new (visit 0) := by
  obtain ⟨c, hc, hpermit, hkept, -⟩ := run_closes
  refine ⟨⟨_, run_visits hc hpermit 1, ?_, ?_⟩, slotsBounded_of_noEarlyReturn _ _ _ _ ?_⟩
  · show c.permit.toNat + 0 = 0
    rw [hpermit]
    rfl
  · show c.slot.kept.toNat + 0 = 1
    rw [hkept]
    rfl
  · exact fun _ _ => ⟨fun _ _ hmem => absurd hmem List.not_mem_nil,
      Machine.meets_of_mem (fun e he _ => by
        obtain ⟨_, _, rfl⟩ := List.mem_map.mp he
        trivial) _⟩

/-- As many slots as clients have come and gone, and no permit is out. -/
theorem slots_visits (n : Nat) :
    ∃ s, Machine.run (step .steep .tagOnly .sumBytes) new
        ((List.range n).flatMap visit) = some s ∧
      s.permits = 0 ∧ s.slots = n := by
  obtain ⟨c, hc, hpermit, hkept, -⟩ := run_closes
  refine ⟨_, run_visits hc hpermit n, ?_, ?_⟩
  · show tally (fun c => c.permit.toNat) (List.replicate n c) = 0
    rw [Tally.tally_replicate, hpermit]
    exact Nat.mul_zero n
  · show tally (fun c => c.slot.kept.toNat) (List.replicate n c) = n
    rw [Tally.tally_replicate, hkept]
    exact Nat.mul_one n

theorem not_slotsBounded_visits {n : Nat} (hn : maxTotalConnections < n) :
    ¬ Machine.Always (step .steep .tagOnly .sumBytes) SlotsBounded new
        ((List.range n).flatMap visit) := by
  intro h
  obtain ⟨s, hrun, -, hslots⟩ := slots_visits n
  have hbound : s.slots ≤ maxTotalConnections := h.last hrun
  rw [hslots] at hbound
  exact Nat.not_lt.mpr hbound hn

/-- One slot more than the cap, with every permit free. -/
theorem slots_outlive_permits :
    (∃ s, Machine.run (step .steep .tagOnly .sumBytes) new
        ((List.range 4097).flatMap visit) = some s ∧
      s.permits = 0 ∧ s.slots = 4097) ∧
      ¬ Machine.Always (step .steep .tagOnly .sumBytes) SlotsBounded new
        ((List.range 4097).flatMap visit) :=
  ⟨slots_visits 4097, not_slotsBounded_visits (by decide)⟩

end Connections

end MixTor
