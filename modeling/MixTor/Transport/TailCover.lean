/-
  MixTor.Transport.TailCover

  Whether a flow whose peer keeps reading is padded to the end of its tail.

  The tail of a flow has a deadline and a wire volume; the backstop is 5 s behind
  the deadline and does not look at the volume.  Under a fixed or class floor the
  deadline is counted from the start of the session, so a reader that ends late
  finds the backstop in the past, and the flow is dropped at once, however far
  its wire volume is from the target.

  `KeepsTail` is the condition under which a call cannot do that: it ends before
  the backstop, or it cannot see the end of the reader, or the slots that come due
  in it are enough for the volume.  The volume is the one the flow has, or the one
  that the slot which finds the channel closed computes from the bytes and cells
  counted so far.
-/

import MixTor.Transport.SlotLoop

namespace MixTor

open Crypto (Bytes Key Aead FrameCipher Blake3)

namespace FlowSlot

variable {ρ : Type}

/-- The pull of a slot finds the channel closed. -/
structure SeesEnd (realGateOpen : Bool) (flow : FlowSlot ρ) : Prop where
  running : flow.readerDone = false
  space : flow.session.hasQueueSpace = true
  gate : realGateOpen = true
  unread : flow.cellRx.queue = []
  closed : flow.cellRx.senders = false

/-- The tail a flow would be given if its reader ended now. -/
def tailNow (flow : FlowSlot ρ) (clk : Clock) : Option (Instant × Nat) :=
  (tailTargets flow.realBytes flow.wireSeq flow.policy flow.thresholds flow.sessionStart clk).1

/-- The slots that come due in the call are enough for the volume target: for the
    one already set, or for the one set by a slot that finds the channel closed. -/
def VolumeMet [RngCore ρ] (F : F64) (A : Aead) (flow : FlowSlot ρ) (call : ServiceCall) : Prop :=
  if flow.readerDone then
    ∀ deadline vol, flow.tail = some (deadline, vol) →
      vol ≤ flow.wireSeq + (flow.callSlots F A call).length
  else
    ∀ g ∈ flow.callSlots F A call, g.SeesEnd (flow.realGateOpen F call) →
      ∀ clk deadline vol, g.tailNow clk = some (deadline, vol) →
        vol ≤ flow.wireSeq + (flow.callSlots F A call).length

/-- The call cannot cut the flow's tail. -/
def KeepsTail [RngCore ρ] (F : F64) (A : Aead) (flow : FlowSlot ρ) (call : ServiceCall) : Prop :=
  flow.BeforeBackstop call ∨ flow.ReaderAlive call ∨ flow.VolumeMet F A call

-- ============================================================================
-- The wire volume and the tail through the slots of a call
-- ============================================================================

/-- The tail of `f'` is the one of `f`, or the end of the reader set it in one of
    the slots. -/
def TailFrom (realGateOpen : Bool) (slots : List (FlowSlot ρ)) (f f' : FlowSlot ρ) : Prop :=
  (f'.readerDone = f.readerDone ∧ f'.tail = f.tail) ∨
    (f.readerDone = false ∧ f'.readerDone = true ∧
      ∃ g ∈ slots, g.SeesEnd realGateOpen ∧ ∃ clk, f'.tail = g.tailNow clk)

section Slots

variable {F : F64} {A : Aead} {f : FlowSlot ρ}

theorem arrive_tail (f : FlowSlot ρ) (a : Arrival) :
    (f.arrive a).wireSeq = f.wireSeq ∧ (f.arrive a).readerDone = f.readerDone ∧
      (f.arrive a).tail = f.tail := by
  rw [arrive]
  split <;> exact ⟨rfl, rfl, rfl⟩

theorem TailFrom.trans {gate : Bool} {slots slots' : List (FlowSlot ρ)} {f f' f'' : FlowSlot ρ}
    (h : TailFrom gate slots f f') (h' : TailFrom gate slots' f' f'') :
    TailFrom gate (slots ++ slots') f f'' := by
  rcases h' with ⟨hdone', htail'⟩ | ⟨hrun, hdone', g, hg, hend, htail'⟩
  · rcases h with ⟨hdone, htail⟩ | ⟨hrun, hdone, g, hg, hend, clk, htail⟩
    · exact .inl ⟨hdone'.trans hdone, htail'.trans htail⟩
    · exact .inr ⟨hrun, hdone'.trans hdone, g, List.mem_append_left _ hg, hend, clk,
        htail'.trans htail⟩
  · rcases h with ⟨hdone, -⟩ | ⟨-, hdone, -⟩
    · exact .inr ⟨hdone ▸ hrun, hdone', g, List.mem_append_right _ hg, hend, htail'⟩
    · rw [hdone] at hrun
      cases hrun

variable [RngCore ρ]

theorem startClock_tail (f : FlowSlot ρ) (clk : Clock) :
    (f.startClock F clk).1.wireSeq = f.wireSeq ∧
      (f.startClock F clk).1.readerDone = f.readerDone ∧
      (f.startClock F clk).1.tail = f.tail := by
  rw [startClock]
  split <;> exact ⟨rfl, rfl, rfl⟩

/-- A pull leaves the wire volume alone, and sets the tail only when it finds the
    channel closed. -/
theorem pull_tail (gate : Bool) (clk : Clock) (f : FlowSlot ρ) :
    (f.pull F gate clk).1.wireSeq = f.wireSeq ∧ TailFrom gate [f] f (f.pull F gate clk).1 := by
  rw [pull]
  split
  · next hguard =>
    simp only [Bool.and_eq_true, Bool.not_eq_true'] at hguard
    obtain ⟨⟨hrun, hspace⟩, hgate⟩ := hguard
    rcases f.cellRx.tryRecv_cases with ⟨c, rest, -, hok, -⟩ | ⟨-, -, h⟩ | ⟨hq, hclosed, h⟩
    · rw [show f.cellRx.tryRecv = (.ok c, f.cellRx.tryRecv.2) by rw [← hok]]
      dsimp only
      split
      · exact ⟨rfl, .inl ⟨rfl, rfl⟩⟩
      · split <;> exact ⟨rfl, .inl ⟨rfl, rfl⟩⟩
    · rw [h]
      exact ⟨rfl, .inl ⟨rfl, rfl⟩⟩
    · rw [h]
      exact ⟨rfl, .inr ⟨hrun, rfl, f, List.mem_singleton_self f,
        ⟨hrun, hspace, hgate, hq, hclosed⟩, clk, rfl⟩⟩
  · exact ⟨rfl, .inl ⟨rfl, rfl⟩⟩

/-- A slot that has come adds one cell to the wire volume. -/
theorem slot_tail (hs : f.Steady) {clk : Clock} (hdue : f.nextSlot ≤ clk.now) (gate : Bool)
    (a : Arrival) :
    (f.slot F A gate a clk).1.wireSeq = f.wireSeq + 1 ∧
      TailFrom gate [f.arrive a] f (f.slot F A gate a clk).1 := by
  obtain ⟨hseq, hdone, htail⟩ := f.arrive_tail a
  obtain ⟨hpseq, hptail⟩ := pull_tail (F := F) gate clk.later (f.arrive a)
  obtain ⟨p, clkp, hp, -, hlate, hfired⟩ := slot_spec (F := F) (A := A) hs hdue gate a
  rw [hp] at hpseq hptail
  rw [TailFrom, hdone, htail] at hptail
  generalize f.slot F A gate a clk = r at hfired
  obtain ⟨f', clk'⟩ := r
  cases hfired with
  | waits early => exact absurd hlate (not_le.mpr early)
  | emits => exact ⟨congrArg (· + 1) (hpseq.trans hseq), hptail⟩

/-- The loop adds one cell for each of its slots.  The induction is on the fuel. -/
theorem slotLoop_tail (gate : Bool) (fuel : Nat) (arrivals : Nat → Arrival) (clk : Clock)
    (hs : f.Steady) :
    (slotLoop F A gate fuel arrivals clk f).1.wireSeq
        = f.wireSeq + (slotStates F A gate fuel arrivals clk f).length ∧
      TailFrom gate (slotStates F A gate fuel arrivals clk f) f
        (slotLoop F A gate fuel arrivals clk f).1 := by
  induction fuel generalizing arrivals clk f with
  | zero => exact ⟨rfl, .inl ⟨rfl, rfl⟩⟩
  | succ fuel ih =>
      rw [slotLoop_succ, slotStates]
      split
      · next hguard =>
        have hdue := (slotGuard_iff.mp hguard).1
        obtain ⟨hseq, htail⟩ := slot_tail (F := F) (A := A) hs hdue gate (arrivals 0)
        obtain ⟨hseq', htail'⟩ := ih (fun i => arrivals (i + 1))
          (f.slot F A gate (arrivals 0) clk).2 (hs.slot hdue gate (arrivals 0))
        refine ⟨?_, htail.trans htail'⟩
        rw [hseq', hseq, List.length_cons]
        omega
      · exact ⟨rfl, .inl ⟨rfl, rfl⟩⟩

/-- **What the slots of a call do to the tail.** -/
theorem emit_tail (hs : f.Steady) (call : ServiceCall) :
    (f.emit F A call).1.wireSeq = f.wireSeq + (f.callSlots F A call).length ∧
      TailFrom (f.realGateOpen F call) (f.callSlots F A call) f (f.emit F A call).1 := by
  obtain ⟨hseq, hdone, htail⟩ := f.arrive_tail (call.arrivals 0)
  obtain ⟨hseq', hdone', htail'⟩ :=
    startClock_tail (F := F) (f.arrive (call.arrivals 0)) call.clock
  rw [hseq] at hseq'
  rw [hdone] at hdone'
  rw [htail] at htail'
  rw [emit, runSlots, callSlots]
  split
  · have hst := (hs.arrive (call.arrivals 0)).1.startClock (F := F) call.clock
    have hloop := slotLoop_tail (F := F) (A := A) (f.realGateOpen F call) pendingCap
      (fun i => call.arrivals (i + 1))
      ((f.arrive (call.arrivals 0)).startClock F call.clock).2.later hst
    rw [TailFrom, hseq', hdone', htail'] at hloop
    exact hloop
  · exact ⟨hseq', .inl ⟨hdone', htail'⟩⟩

end Slots

-- ============================================================================
-- Stages that keep a backstop behind the tail
-- ============================================================================

/-- With tail cover on, the end of the reader sets a tail, and the backstop 5 s
    behind its deadline. -/
structure TailSet (flow : FlowSlot ρ) : Prop where
  policy : flow.policy ≠ .off
  set : flow.readerDone = true → ∃ deadline vol, flow.tail = some (deadline, vol) ∧
    flow.finishBy = some (deadline + Duration.fromSecs 5)

/-- `f` is `flow` at some point of the first half of `call`, with its tail. -/
structure TailWithin (A : Aead) (cipher₀ : FrameCipher) (call : ServiceCall) (flow f : FlowSlot ρ) :
    Prop where
  within : flow.Within A cipher₀ call f
  tailSet : f.TailSet

variable {A : Aead} {cipher₀ : FrameCipher} {call : ServiceCall} {flow f : FlowSlot ρ}

/-- A stage that leaves the tail and the backstop alone. -/
theorem TailWithin.of_same {f' : FlowSlot ρ} (h : flow.TailWithin A cipher₀ call f)
    (hwithin : flow.Within A cipher₀ call f') (hpolicy : f'.policy = f.policy)
    (hdone : f'.readerDone = f.readerDone) (htail : f'.tail = f.tail)
    (hfinish : f'.finishBy = f.finishBy) : flow.TailWithin A cipher₀ call f' where
  within := hwithin
  tailSet := by
    refine ⟨hpolicy ▸ h.tailSet.policy, fun hd => ?_⟩
    rw [htail, hfinish]
    exact h.tailSet.set (hdone ▸ hd)

theorem tailWithin_self (hacc : flow.Accounted A cipher₀) (hreader : flow.ReaderState)
    (htail : flow.TailSet) : flow.TailWithin A cipher₀ call flow :=
  ⟨within_self hacc hreader, htail⟩

theorem arrive_tailWithin (i : Nat) (h : flow.TailWithin A cipher₀ call f) :
    flow.TailWithin A cipher₀ call (f.arrive (call.arrivals i)) := by
  have hwithin := arrive_within i h.within
  rw [arrive] at hwithin ⊢
  split
  · next hs =>
    rw [if_pos hs] at hwithin
    exact h.of_same hwithin rfl rfl rfl rfl
  · exact h

/-- The end of the reader sets the backstop behind the deadline it sets. -/
theorem eofBackstop_eq (realBytes wireSeq : Nat) {policy : TailPolicy}
    (th : FuzzedClassThresholds) (sessionStart : Instant) (clk : Clock) (hpolicy : policy ≠ .off) :
    ∃ deadline vol,
      (tailTargets realBytes wireSeq policy th sessionStart clk).1 = some (deadline, vol) ∧
      eofBackstop realBytes wireSeq policy th sessionStart clk = deadline + Duration.fromSecs 5 := by
  cases policy with
  | off => exact absurd rfl hpolicy
  | fixed floor => exact ⟨_, _, rfl, rfl⟩
  | byClass => exact ⟨_, _, rfl, rfl⟩
  | epoch clock => exact ⟨_, _, rfl, rfl⟩

theorem pulled_tailWithin {n : Nat} {f' : FlowSlot ρ} {clk' : Clock}
    (h : flow.TailWithin A cipher₀ call f) (hp : Pulled f (call.clock.after n) f' clk') :
    flow.TailWithin A cipher₀ call f' := by
  have hwithin := pulled_within h.within hp
  cases hp with
  | idle => exact h
  | cell c rest session' unread running fixed same queued =>
      exact h.of_same hwithin rfl rfl rfl rfl
  | eof tail m unread closed running targets =>
      obtain ⟨deadline, vol, htail, hfinish⟩ :=
        eofBackstop_eq f.realBytes f.wireSeq f.thresholds f.sessionStart (call.clock.after n)
          h.tailSet.policy
      exact ⟨hwithin, ⟨h.tailSet.policy, fun _ => ⟨deadline, vol, targets.trans htail,
        congrArg some hfinish⟩⟩⟩

theorem fired_tailWithin [RngCore ρ] {F : F64} {n : Nat} {f' : FlowSlot ρ} {clk' : Clock}
    (h : flow.TailWithin A cipher₀ call f) (hf : Fired F A f (call.clock.after n) f' clk') :
    flow.TailWithin A cipher₀ call f' := by
  have hwithin := fired_within h.within hf
  cases hf with
  | waits _ => exact h
  | emits => exact h.of_same hwithin rfl rfl rfl rfl

theorem startClock_tailWithin [RngCore ρ] {F : F64} (h : flow.TailWithin A cipher₀ call f) :
    flow.TailWithin A cipher₀ call (f.startClock F call.clock).1 := by
  have hwithin := startClock_within (F := F) h.within
  rw [startClock] at hwithin ⊢
  split
  · exact h
  · next hs =>
    rw [if_neg hs] at hwithin
    exact h.of_same hwithin rfl rfl rfl rfl

-- ============================================================================
-- Dropping a flow whose peer keeps reading
-- ============================================================================

/-- A reading of the call is past the deadline, and the volume is met. -/
def TailMet (flow : FlowSlot ρ) (clk : Clock) : Prop :=
  ∃ deadline vol n, flow.tail = some (deadline, vol) ∧ deadline ≤ (clk.after n).now ∧
    vol ≤ flow.wireSeq

/-- A finished flow has met its tail or is past its backstop. -/
theorem finished_tail {clk : Clock} {n : Nat} {deadline : Instant} {vol : Nat}
    (htail : f.tail = some (deadline, vol))
    (hfinish : f.finishBy = some (deadline + Duration.fromSecs 5))
    (h : f.finished (clk.after n) = true) :
    f.TailMet clk ∨ deadline + Duration.fromSecs 5 ≤ (clk.after (n + 1)).now := by
  rw [finished] at h
  split at h
  · rw [htail, hfinish] at h
    simp only [Bool.or_eq_true, Bool.and_eq_true, decide_eq_true_eq] at h
    rcases h with ⟨-, hdeadline, hvol⟩ | hpast
    · exact .inl ⟨deadline, vol, n, htail, hdeadline, hvol⟩
    · rw [Clock.later_after] at hpast
      exact .inr hpast
  · cases h

variable [RngCore ρ] {F : F64}

/-- In a call that keeps the tail, a flow past its backstop has met its volume. -/
theorem emit_volume (hkeeps : flow.KeepsTail F A call)
    (h : flow.TailWithin A cipher₀ call (flow.emit F A call).1) (hs : flow.Steady)
    (hdone : (flow.emit F A call).1.readerDone = true) {deadline : Instant} {vol : Nat}
    (htail : (flow.emit F A call).1.tail = some (deadline, vol))
    (hfinish : (flow.emit F A call).1.finishBy = some (deadline + Duration.fromSecs 5))
    (hpast : deadline + Duration.fromSecs 5 ≤ call.clock.stop) :
    vol ≤ (flow.emit F A call).1.wireSeq := by
  rcases hkeeps with hbefore | halive | hmet
  · exfalso
    rw [BeforeBackstop] at hbefore
    rcases h.within.finishBy hdone with ⟨hflow, heq⟩ | ⟨hflow, n, realBytes, wireSeq, hle, heq⟩
    · rw [if_pos hflow] at hbefore
      exact absurd (hbefore _ (heq ▸ hfinish)) (not_lt.mpr hpast)
    · rw [if_neg (by simp [hflow])] at hbefore
      have hlt := hbefore n realBytes wireSeq hle
      rw [heq] at hfinish
      rw [Option.some.inj hfinish] at hlt
      exact absurd hlt (not_lt.mpr hpast)
  · rw [(h.within.alive halive).1] at hdone
    cases hdone
  · obtain ⟨hseq, hfrom⟩ := emit_tail (F := F) (A := A) hs call
    rw [hseq]
    rw [VolumeMet] at hmet
    rcases hfrom with ⟨hsame, hold⟩ | ⟨hrun, -, g, hg, hend, clk, hnew⟩
    · rw [if_pos (hsame ▸ hdone)] at hmet
      exact hmet deadline vol (hold ▸ htail)
    · rw [if_neg (by simp [hrun])] at hmet
      exact hmet g hg hend clk deadline vol (hnew ▸ htail)

/-- A call that keeps the tail drops the flow only behind it. -/
theorem serviceFlow_tailMet (hacc : flow.Accounted A cipher₀) (hreader : flow.ReaderState)
    (hset : flow.TailSet) (hdrain : call.tryWrite = .ok) (hkeeps : flow.KeepsTail F A call) :
    (flow.serviceFlow F A call).2.TailSet ∧
      ((flow.serviceFlow F A call).1 = false →
        (flow.serviceFlow F A call).2.TailMet call.clock) := by
  obtain ⟨hwithin, n, hclk⟩ := emit_invariant (F := F) call
    (P := flow.TailWithin A cipher₀ call) (fun _ h => h.within.accounted.steady)
    (fun _ i h => arrive_tailWithin i h) (fun _ h => startClock_tailWithin h)
    (fun _ _ _ _ h hp => pulled_tailWithin h hp) (fun _ _ _ _ h hf => fired_tailWithin h hf)
    (tailWithin_self hacc hreader hset)
  have hres : (flow.serviceFlow F A call).1
      = !((flow.emit F A call).1.flush .ok).2.finished (flow.emit F A call).2 := by
    rw [serviceFlow, hdrain, if_pos (flush_ok _).1]
  have hvolume := fun (deadline : Instant) (vol : Nat) hdone
      (htail : (flow.emit F A call).1.tail = some (deadline, vol)) =>
    emit_volume hkeeps hwithin hacc.steady hdone htail
  rw [serviceFlow_snd, hdrain, hres, hclk]
  generalize (flow.emit F A call).1 = f at *
  obtain ⟨pending, wire, hflush⟩ := flush_eq .ok f
  rw [hflush]
  refine ⟨⟨hwithin.tailSet.policy, hwithin.tailSet.set⟩, fun hdrop => ?_⟩
  rw [Bool.not_eq_false'] at hdrop
  have hdone : f.readerDone = true := (finished_eq_true hdrop).1
  obtain ⟨deadline, vol, htail, hfinish⟩ := hwithin.tailSet.set hdone
  rcases finished_tail (f := { f with pending, wire }) htail hfinish hdrop with hmet | hpast
  · exact hmet
  · -- past the backstop the deadline has passed, and the volume is met
    have hstop := hpast.trans (Clock.now_le_stop _)
    rw [Clock.after_stop] at hstop
    exact ⟨deadline, vol, n + 1, htail, (Nat.le_add_right _ _).trans hpast,
      hvolume deadline vol hdone htail hfinish hstop⟩

/-- The flow is under a class floor, and its class is settled: `n` real bytes, and no
    cell waits in the channel. -/
structure ClassSettled (th : FuzzedClassThresholds) (n : Nat) (flow : FlowSlot ρ) : Prop where
  steady : flow.Steady
  policy : flow.policy = .byClass
  thresholds : flow.thresholds = th
  realBytes : flow.realBytes = n
  unread : flow.cellRx.queue = []

omit [RngCore ρ] in
theorem ClassSettled.arrive {th : FuzzedClassThresholds} {n : Nat} (h : f.ClassSettled th n)
    {a : Arrival} (ha : a.cells = []) : (f.arrive a).ClassSettled th n := by
  have hsteady := (h.steady.arrive a).1
  rw [FlowSlot.arrive] at hsteady ⊢
  split
  · next hs =>
    rw [if_pos hs] at hsteady
    refine ⟨hsteady, h.policy, h.thresholds, h.realBytes, ?_⟩
    rw [ha]
    split <;> simp [h.unread]
  · exact h

theorem ClassSettled.slot {th : FuzzedClassThresholds} {n : Nat} (h : f.ClassSettled th n)
    {a : Arrival} (ha : a.cells = []) {clk : Clock} (hdue : f.nextSlot ≤ clk.now) (gate : Bool) :
    (f.slot F A gate a clk).1.ClassSettled th n := by
  obtain ⟨harr, hpolicy, hth, hbytes, hunread⟩ := h.arrive ha
  obtain ⟨p, clkp, -, hpulled, -, hfired⟩ := slot_spec (F := F) (A := A) h.steady hdue gate a
  have hp : p.ClassSettled th n := by
    have hsteady := (harr.pulled hpulled).1
    cases hpulled with
    | idle => exact ⟨harr, hpolicy, hth, hbytes, hunread⟩
    | cell c rest session' unread =>
        rw [hunread] at unread
        cases unread
    | eof => exact ⟨hsteady, hpolicy, hth, hbytes, hunread⟩
  have hsteady := hp.steady.fired hfired
  generalize f.slot F A gate a clk = r at hfired hsteady
  obtain ⟨f', clk'⟩ := r
  cases hfired with
  | waits => exact hp
  | emits => exact ⟨hsteady, hp.policy, hp.thresholds, hp.realBytes, hp.unread⟩

/-- **A class flow that has emitted its volume keeps its tail**, whenever its reader
    ends: no more real bytes arrive, so the end of the reader asks for that volume. -/
theorem keepsTail_of_byClass (hs : flow.Steady) (hpolicy : flow.policy = .byClass)
    (hrun : flow.readerDone = false) (hunread : flow.cellRx.queue = [])
    (hquiet : ∀ i, (call.arrivals i).cells = [])
    (hvol : (classTargetsFuzzy flow.realBytes flow.thresholds).2 ≤ flow.wireSeq) :
    flow.KeepsTail F A call := by
  right; right
  rw [VolumeMet, if_neg (by simp [hrun])]
  rintro g hg - clk deadline vol htail
  have hsettled : g.ClassSettled flow.thresholds flow.realBytes := by
    refine callSlots_invariant (fun f i h => h.arrive (hquiet i)) ?_
      (fun f gate clk i h hdue => h.slot (hquiet i) hdue gate) ⟨hs, hpolicy, rfl, rfl, hunread⟩ g hg
    intro f clk h
    have hsteady := h.steady.startClock (F := F) clk
    rw [startClock] at hsteady ⊢
    split
    · exact h
    · next hfirst =>
      rw [if_neg hfirst] at hsteady
      exact ⟨hsteady, h.policy, h.thresholds, h.realBytes, h.unread⟩
  rw [tailNow, hsettled.policy, hsettled.thresholds, hsettled.realBytes] at htail
  obtain ⟨-, rfl⟩ := Prod.mk.inj (Option.some.inj htail)
  exact hvol.trans (Nat.le_add_right _ _)

end FlowSlot

-- ============================================================================
-- Runs towards a draining peer
-- ============================================================================

/-- A service call to a peer that takes every byte. -/
structure DrainCall where
  clock : Clock
  arrivals : Nat → Arrival

def DrainCall.toCall (c : DrainCall) : ServiceCall := ⟨c.clock, c.arrivals, .ok⟩

/-- A flow, and the clock of the last call that serviced it. -/
structure TailRun (ρ : Type) where
  service : Service ρ
  clock : Option Clock

namespace TailRun

open FlowSlot
open Service (steepFlow)

variable {ρ : Type} [RngCore ρ]

def start (flow : FlowSlot ρ) : TailRun ρ := ⟨.start flow, none⟩

def step (F : F64) (A : Aead) (s : TailRun ρ) (c : DrainCall) : Option (TailRun ρ) :=
  (s.service.step F A c.toCall).map fun service => ⟨service, some c.clock⟩

omit [RngCore ρ] in
/-- A flow that is not serviced any more was dropped behind its tail. -/
def TailKept (s : TailRun ρ) : Prop :=
  s.service.kept = false → ∃ clk, s.clock = some clk ∧ s.service.flow.TailMet clk

variable {F : F64} {A : Aead}

/-- A call at a fixed time to a draining peer. -/
def drainAt (t : Instant) (a : Arrival) : DrainCall := ⟨.const t, fun _ => a⟩

/-- The end of a reader that sent nothing. -/
def readerEnds : Arrival := ⟨[], true⟩

/-- Under a fixed floor, a call that ends within 5 s of it keeps the tail. -/
theorem keepsTail_of_fixed {flow : FlowSlot ρ} {c : DrainCall} (floor : Duration)
    (hstate : (flow.policy, flow.readerDone) = (.fixed floor, false))
    (hstop : c.clock.stop < flow.sessionStart + floor + Duration.fromSecs 5) :
    flow.KeepsTail F A c.toCall := by
  obtain ⟨hpolicy, hrun⟩ := Prod.mk.inj hstate
  left
  rw [BeforeBackstop, if_neg (by simp [hrun])]
  intro n realBytes wireSeq _
  rw [hpolicy]
  exact hstop

/-- A session that is ten seconds old when its reader ends, with a floor of 1 ms:
    the backstop has passed, and the volume target is 256 cells. -/
def lateEnd : List DrainCall :=
  [drainAt 0 .none, drainAt (Duration.fromMillis 60) .none,
    drainAt (Duration.fromMillis 10000) readerEnds]

end TailRun

end MixTor
