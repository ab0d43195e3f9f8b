/-
  MixTor.Transport.FlowGrowth

  What a flow holds on to while it runs (transport.rs, composition.rs, self_test.rs).

  `pending` and the queue of the correlator are capped.  The self-tester of the
  composer is not: `ShapedSession::tick` records every frame in it, and no sample is
  ever taken out again.  The length pools are filled by the burst path of the composer
  alone, which `service_flow` does not call.
-/

import MixTor.Transport.QueueDepth

namespace MixTor

open Channel
open Crypto (Aead Blake3 encFrameLen)

namespace SelfTester

/-- The sizes recorded, of real frames and of dummies. -/
def frames (st : SelfTester) : Nat := st.realSizes.length + st.dummySizes.length

theorem recordFrame_frames (st : SelfTester) (frame : MixedFrame) (nowMs : Nat) :
    (st.recordFrame frame nowMs).frames = st.frames + 1 := by
  cases frame <;> cases hlast : st.lastFrameAtMs <;>
    simp only [recordFrame, frames, hlast, List.length_append, List.length_singleton] <;> omega

/-- The first frame has no interval; every other one adds its own. -/
theorem recordFrame_iatSamples (st : SelfTester) (frame : MixedFrame) (nowMs : Nat) :
    (st.recordFrame frame nowMs).iatSamples.length
        = st.iatSamples.length + st.lastFrameAtMs.isSome.toNat ∧
      (st.recordFrame frame nowMs).lastFrameAtMs.isSome = true := by
  cases frame <;> cases hlast : st.lastFrameAtMs <;> simp [recordFrame, hlast]

end SelfTester

namespace ShapedSession

variable {ρ : Type} [RngCore ρ] {F : F64}

/-- Injecting a packet records nothing. -/
theorem injectReal_selfTester (F : F64) (clk : Clock) (s : ShapedSession ρ) (packet : Packet) :
    (s.injectReal F clk packet).2.1.composer.selfTester = s.composer.selfTester := by
  have hpad : (s.composer.padRealPacket packet).2.selfTester = s.composer.selfTester := by
    rw [SeedBComposer.padRealPacket]
    split
    · rfl
    · dsimp only
      split <;> rfl
  rw [injectReal, ← hpad]
  dsimp only
  split <;> rfl

/-- A tick that emits records its frame, one that waits records nothing. -/
theorem tick_composer (F : F64) (clk : Clock) (s : ShapedSession ρ) :
    (s.tick F clk).2.1.composer
      = match (s.tick F clk).1 with
        | none => s.composer
        | some frame => recordFrame s.composer frame := by
  rw [tick]
  split <;> rfl

theorem new_composer {H : Blake3} {clk clk' : Clock} {seed : EphemeralSeed}
    {config : CompositionConfig} {composerRng : ρ} {s : ShapedSession ρ}
    (h : new F H clk seed config composerRng = some (.ok (s, clk'))) :
    s.composer = .withConfig config composerRng := by
  rw [new] at h
  split at h
  · cases h
  · split at h
    · cases h
    · cases h
    · cases h
    · obtain ⟨rfl, -⟩ := Prod.mk.inj (Except.ok.inj (Option.some.inj h))
      rfl

end ShapedSession

namespace FlowSlot

variable {ρ : Type} {f : FlowSlot ρ}

/-- The samples of the composer's self-tester. -/
def selfTester (flow : FlowSlot ρ) : SelfTester := flow.session.composer.selfTester

/-- Every collection of the flow has at most `bound` elements. -/
structure HoldsAtMost (bound : Nat) (flow : FlowSlot ρ) : Prop where
  pending : flow.pending.length ≤ bound
  queue : flow.queue.length ≤ bound
  realSizes : flow.selfTester.realSizes.length ≤ bound
  dummySizes : flow.selfTester.dummySizes.length ≤ bound
  iatSamples : flow.selfTester.iatSamples.length ≤ bound

/-- The self-tester has a sample of every frame emitted. -/
structure Sampled (flow : FlowSlot ρ) : Prop where
  frames : flow.selfTester.frames = flow.emitted.length
  iats : flow.selfTester.iatSamples.length = flow.emitted.length - 1
  last : flow.selfTester.lastFrameAtMs.isSome = decide (0 < flow.emitted.length)

/-- What has the samples of a sampled flow, and its frames, is sampled. -/
theorem Sampled.of_same {f' : FlowSlot ρ} (h : f.Sampled) (hsame : f'.selfTester = f.selfTester)
    (hemit : f'.emitted = f.emitted) : f'.Sampled :=
  ⟨by rw [hsame, hemit, h.frames], by rw [hsame, hemit, h.iats], by rw [hsame, hemit, h.last]⟩

variable [RngCore ρ] {F : F64} {A : Aead}

theorem pull_selfTester (F : F64) (gate : Bool) (clk : Clock) (f : FlowSlot ρ) :
    (f.pull F gate clk).1.selfTester = f.selfTester ∧
      (f.pull F gate clk).1.emitted = f.emitted := by
  rw [pull]
  split
  · split
    · dsimp only
      split
      · exact ⟨rfl, rfl⟩
      · next cell _ _ packet _ =>
        have hsame := ShapedSession.injectReal_selfTester F clk f.session packet
        split
        · next _ session clk' heq =>
          rw [heq] at hsame
          exact ⟨hsame, rfl⟩
        · next _ session clk' heq =>
          rw [heq] at hsame
          exact ⟨hsame, rfl⟩
    · exact ⟨rfl, rfl⟩
    · exact ⟨rfl, rfl⟩
  · exact ⟨rfl, rfl⟩

theorem Sampled.fireSlot (h : f.Sampled) (clk : Clock) : (f.fireSlot F A clk).1.Sampled := by
  have hcomposer := ShapedSession.tick_composer F clk f.session
  rw [FlowSlot.fireSlot]
  split
  · next session clk' htick =>
    rw [htick] at hcomposer
    exact h.of_same (congrArg SeedBComposer.selfTester hcomposer) rfl
  · next frame session clk' htick =>
    rw [htick] at hcomposer
    have htester : session.composer.selfTester
        = f.selfTester.recordFrame frame (f.session.composer.frameClockMs + 1) :=
      congrArg SeedBComposer.selfTester hcomposer
    obtain ⟨hiats, hlast⟩ := SelfTester.recordFrame_iatSamples f.selfTester frame
      (f.session.composer.frameClockMs + 1)
    have hmore : ∀ e : Emission, (f.emitted ++ [e]).length = f.emitted.length + 1 :=
      fun e => List.length_append
    refine ⟨?_, ?_, ?_⟩
    · show session.composer.selfTester.frames = (f.emitted ++ [_]).length
      rw [htester, SelfTester.recordFrame_frames, h.frames, hmore]
    · show session.composer.selfTester.iatSamples.length = (f.emitted ++ [_]).length - 1
      rw [htester, hiats, h.iats, h.last, hmore]
      cases f.emitted <;> rfl
    · show session.composer.selfTester.lastFrameAtMs.isSome = decide (0 < (f.emitted ++ [_]).length)
      rw [htester, hlast, hmore]
      exact (decide_eq_true (Nat.succ_pos _)).symm

/-- A service call keeps the samples in step with the frames. -/
theorem Sampled.service (h : f.Sampled) (call : ServiceCall) :
    (f.serviceFlow F A call).2.Sampled := by
  refine serviceFlow_slots (C := fun _ _ => True) ?_ ?_ ?_ ?_ h fun _ _ => trivial
  · intro g i hg
    obtain ⟨hsession, hemit, -⟩ := g.arrive_depth (call.arrivals i)
    exact hg.of_same (by rw [selfTester, hsession]; rfl) hemit
  · intro g clk hg
    rw [startClock]
    split
    · exact hg
    · exact hg.of_same rfl rfl
  · intro g gate clk i hg _ _ _
    obtain ⟨hsession, hemit, -⟩ := g.arrive_depth (call.arrivals i)
    have harr : (g.arrive (call.arrivals i)).Sampled :=
      hg.of_same (by rw [selfTester, hsession]; rfl) hemit
    obtain ⟨hsame, hemit'⟩ := pull_selfTester F gate clk.later (g.arrive (call.arrivals i))
    exact (harr.of_same hsame hemit').fireSlot _
  · intro g w hg
    obtain ⟨pending, wire, hflush⟩ := flush_eq w g
    rw [hflush]
    exact hg.of_same rfl rfl

/-- The collections with a cap are below it. -/
structure Capped (flow : FlowSlot ρ) : Prop where
  steady : flow.Steady
  depth : flow.session.correlator.config.maxQueueDepth = 128
  pending : flow.pending.length < pendingCap + encFrameLen cellBytes

omit [RngCore ρ] in
theorem Capped.queue (h : f.Capped) : f.queue.length ≤ 128 :=
  f.session.correlator.realQueue_le.trans_eq h.depth

theorem slot_config (hs : f.Steady) {clk : Clock} (hdue : f.nextSlot ≤ clk.now) (gate : Bool)
    (a : Arrival) :
    (f.slot F A gate a clk).1.session.correlator.config = f.session.correlator.config := by
  obtain ⟨p, clkp, -, hpulled, hlate, hfired⟩ := slot_spec (F := F) (A := A) hs hdue gate a
  have hp : p.session.correlator.config = f.session.correlator.config := by
    rw [← (f.arrive_depth a).1]
    cases hpulled with
    | idle => rfl
    | cell c rest session' _ _ _ same _ => exact same.config
    | eof => rfl
  generalize f.slot F A gate a clk = r at hfired
  obtain ⟨f', clk'⟩ := r
  cases hfired with
  | waits => exact hp
  | emits frame session' due fixed size took config => exact config.trans hp

/-- A slot fires below the cap of `pending`, so it overshoots by less than a frame. -/
theorem Capped.service (hA : A.Lawful) (h : f.Capped) (call : ServiceCall) :
    (f.serviceFlow F A call).2.Capped := by
  refine serviceFlow_slots (C := fun _ _ => True) ?_ ?_ ?_ ?_ h fun _ _ => trivial
  · rintro g i ⟨hs, hdepth, hpend⟩
    obtain ⟨harr, hpend', -⟩ := hs.arrive (call.arrivals i)
    refine ⟨harr, ?_, hpend' ▸ hpend⟩
    rw [(g.arrive_depth (call.arrivals i)).1]
    exact hdepth
  · rintro g clk ⟨hs, hdepth, hpend⟩
    have hst := hs.startClock (F := F) clk
    rw [startClock] at hst ⊢
    split
    · exact ⟨hs, hdepth, hpend⟩
    · next hfirst =>
      rw [if_neg hfirst] at hst
      exact ⟨hst, hdepth, hpend⟩
  · rintro g gate clk i ⟨hs, hdepth, -⟩ hdue hroom -
    refine ⟨hs.slot hdue gate _, (congrArg _ (slot_config hs hdue gate _)).trans hdepth, ?_⟩
    rw [slot_pending hA hs hdue]
    omega
  · rintro g w ⟨hs, hdepth, hpend⟩
    refine ⟨hs.flush w, ?_, ?_⟩
    · obtain ⟨pending, wire, hflush⟩ := flush_eq w g
      rw [hflush]
      exact hdepth
    · rw [flush]
      split
      · exact hpend
      · split
        · exact hpend
        · rw [List.length_drop]
          omega
        · exact hpend
        · exact hpend

omit [RngCore ρ] in
/-- A sender of the reader channel lives, and the flow has not seen its end. -/
structure ReaderOpen (flow : FlowSlot ρ) : Prop where
  steady : flow.Steady
  senders : flow.cellRx.senders = true
  running : flow.readerDone = false

omit [RngCore ρ] in
theorem ReaderOpen.pulled {clk clk' : Clock} {f' : FlowSlot ρ} (h : f.ReaderOpen)
    (hp : Pulled f clk f' clk') : f'.ReaderOpen := by
  cases hp with
  | idle => exact h
  | cell c rest session' unread running fixed same queued =>
      exact ⟨⟨fixed, same.config ▸ h.steady.cellBytes⟩,
        (Channel.Chan.tryRecv_senders _).trans h.senders,
        running⟩
  | eof tail n unread closed =>
      rw [h.senders] at closed
      cases closed

omit [RngCore ρ] in
theorem ReaderOpen.flush (h : f.ReaderOpen) (w : Nat → TryWrite) :
    (f.flush w).2.ReaderOpen := by
  obtain ⟨pending, wire, hflush⟩ := flush_eq w f
  rw [hflush]
  exact ⟨⟨h.steady.fixedRate, h.steady.cellBytes⟩, h.senders, h.running⟩

theorem ReaderOpen.startClock (h : f.ReaderOpen) (clk : Clock) :
    (f.startClock F clk).1.ReaderOpen := by
  rw [FlowSlot.startClock]
  split
  · exact h
  · obtain ⟨⟨⟨hrate, hcomp, hsize⟩, hcell⟩, hs, hrun⟩ := h
    exact ⟨⟨⟨hrate, hcomp, hsize⟩, hcell⟩, hs, hrun⟩

theorem ReaderOpen.fired {clk clk' : Clock} {f' : FlowSlot ρ} (h : f.ReaderOpen)
    (hf : Fired F A f clk f' clk') : f'.ReaderOpen := by
  cases hf with
  | waits => exact h
  | emits frame session' due fixed size took hconfig =>
      exact ⟨⟨fixed, hconfig ▸ h.steady.cellBytes⟩, h.senders, h.running⟩

omit [RngCore ρ] in
/-- A flow whose reader goes on, whose next slot is not before `t`, and which has
    emitted at least `n` frames. -/
structure Going (t : Instant) (n : Nat) (flow : FlowSlot ρ) : Prop where
  reader : flow.ReaderOpen
  started : flow.clockStarted = true
  late : t ≤ flow.nextSlot
  count : n ≤ flow.emitted.length

theorem le_nextSlot (prev : Instant) (step : Duration) {now : Instant} (h : prev ≤ now) :
    prev ≤ TimingCorrelator.nextSlot prev step now := by
  rw [TimingCorrelator.nextSlot]
  split
  · exact h.trans (Nat.le_add_right _ _)
  · exact Nat.le_add_right _ _

theorem Going.slot {t : Instant} {n : Nat} (h : f.Going t n) {clk : Clock}
    (hdue : f.nextSlot ≤ clk.now) (gate : Bool) :
    (f.slot F A gate .none clk).1.Going t (n + 1) := by
  obtain ⟨hopen, hstarted, hlate, hcount⟩ := h
  obtain ⟨-, -, hmore⟩ := slot_depth (F := F) (A := A) hopen.steady hdue gate .none
  obtain ⟨p, clkp, -, hpulled, hcome, hfired⟩ :=
    slot_spec (F := F) (A := A) hopen.steady hdue gate .none
  rw [arrive_none] at hpulled
  have hnext := (hopen.steady.pulled hpulled).2.2
  have hp : p.clockStarted = true := by cases hpulled <;> exact hstarted
  have hopen' := (hopen.pulled hpulled).fired hfired
  generalize f.slot F A gate .none clk = r at *
  obtain ⟨f', clk'⟩ := r
  cases hfired with
  | waits early => exact absurd hcome (not_le.mpr early)
  | emits frame session' due fixed size took hconfig hmean hrng hdeparture =>
      refine ⟨hopen', hp, ?_, by omega⟩
      have hstep : p.nextSlot ≤ session'.correlator.nextDeparture := by
        rw [hdeparture]
        exact le_nextSlot _ _ (due.trans (clkp.mono (Nat.zero_le 1)))
      exact (hlate.trans_eq hnext.symm).trans hstep

/-- The first call starts the clock; from then on no slot comes before it. -/
theorem going_startClock (h : f.ReaderOpen) (hfresh : f.clockStarted = false) (t : Instant) :
    (f.startClock F (.const t)).1.Going t 0 := by
  have hopen := h.startClock (F := F) (.const t)
  have hstart : (f.startClock F (.const t)).1
      = { f with session := (f.session.restartClock F (.const t)).1, clockStarted := true } := by
    rw [startClock, hfresh, if_neg Bool.false_ne_true]
  have hnext : (f.session.restartClock F (.const t)).1.correlator
      = (f.session.correlator.restartClock F (.const t)).1 := rfl
  have hlate : t ≤ (f.session.correlator.restartClock F (.const t)).1.nextDeparture := by
    rw [TimingCorrelator.restartClock, TimingCorrelator.advanceClock, Clock.const_later,
      Clock.const_now]
    exact le_nextSlot t _ (Nat.le_refl t)
  rw [hstart] at hopen ⊢
  refine ⟨hopen, rfl, ?_, Nat.zero_le _⟩
  rw [nextSlot, hnext]
  exact hlate

omit [RngCore ρ] in
theorem Going.flush {t : Instant} {n : Nat} (h : f.Going t n) (w : Nat → TryWrite) :
    (f.flush w).2.Going t n := by
  have hopen := h.reader.flush w
  obtain ⟨pending, wire, hflush⟩ := flush_eq w f
  rw [hflush] at hopen ⊢
  exact ⟨hopen, h.started, h.late, h.count⟩

omit [RngCore ρ] in
theorem Going.mono {t t' : Instant} {m n : Nat} (h : f.Going t n) (ht : t' ≤ t) (hm : m ≤ n) :
    f.Going t' m :=
  ⟨h.reader, h.started, ht.trans h.late, hm.trans h.count⟩

/-- A call at which the next slot has come emits one more frame, at least. -/
theorem Going.service {t : Instant} {n : Nat} (h : f.Going t n) (hpend : f.pending = []) :
    (f.serviceFlow F A (Service.callAt f.nextSlot .none)).2.Going f.nextSlot (n + 1) := by
  have hroom : f.pending.length < pendingCap := by
    rw [hpend]
    decide
  have hnow : f.Going f.nextSlot n := ⟨h.reader, h.started, Nat.le_refl _, h.count⟩
  refine serviceFlow_due (P := fun g => g.Going f.nextSlot (n + 1)) h.started hroom
    (Nat.le_refl _) ?_ ?_ fun g w hg => hg.flush w
  · intro clk hdue
    rw [show (Service.callAt f.nextSlot .none).arrivals 0 = .none from rfl, arrive_none]
    exact hnow.slot hdue _
  · intro g clk i hg hdue
    exact (hg.slot hdue _).mono (Nat.le_refl _) (Nat.le_succ _)

/-- The first call of a flow, at `t`. -/
theorem going_first (h : f.ReaderOpen) (hfresh : f.clockStarted = false) (t : Instant) :
    (f.serviceFlow F A (Service.callAt t .none)).2.Going t 0 := by
  refine serviceFlow_started (P := fun g => g.Going t 0) (C := fun _ _ => True) ?_ ?_
    (fun g w hg => hg.flush w) fun _ _ => trivial
  · rw [show (Service.callAt t .none).arrivals 0 = .none from rfl, arrive_none]
    exact going_startClock h hfresh t
  · intro g gate clk i hg hdue _ _
    exact (hg.slot hdue gate).mono (Nat.le_refl _) (Nat.zero_le _)

/-- A flow as `shaped_forward` registers it holds nothing yet. -/
theorem shapedForward_fresh {H : Blake3} {new : NewFlow ρ}
    (h : shapedForward F H new = some f) :
    f.Capped ∧ f.Sampled ∧ f.ReaderOpen ∧ f.clockStarted = false := by
  obtain ⟨session, clock, hnew, rfl⟩ := shapedForward_eq_some h
  obtain ⟨hsteady, -⟩ := registered_steady hnew clock.now new.tail new.thresholds
    (MixTor.realHoldUntil new.tail clock.now) new.cipher
  obtain ⟨cell, -, -, hconfig, -⟩ := ShapedSession.new_eq_ok hnew
  have htester : session.composer.selfTester = .new :=
    congrArg SeedBComposer.selfTester (ShapedSession.new_composer hnew)
  refine ⟨⟨hsteady, congrArg TimingCorrelatorConfig.maxQueueDepth hconfig, ?_⟩,
    ⟨congrArg SelfTester.frames htester, ?_, ?_⟩, ⟨hsteady, rfl, rfl⟩, rfl⟩
  · exact (Nat.succ_pos _ : 0 < encFrameLen cellBytes).trans_le (Nat.le_add_left _ _)
  · exact congrArg (fun st => st.iatSamples.length) htester
  · exact congrArg (fun st => st.lastFrameAtMs.isSome) htester

end FlowSlot

namespace Service

open FlowSlot

variable {ρ : Type} [RngCore ρ] {F : F64} {A : Aead}

/-- The calls come in the order of time, none before the session. -/
def Timely (flow : FlowSlot ρ) (calls : List ServiceCall) : Prop :=
  InOrder calls ∧ ∀ call ∈ calls, flow.sessionStart ≤ call.clock.now

/-- An idle flow with a draining peer emits frame after frame. -/
theorem emits_any_number {H : Blake3} {new : NewFlow ρ} {flow : FlowSlot ρ}
    (hflow : shapedForward F H new = some flow) (n : Nat) :
    ∃ calls s, Machine.run (step F A) (start flow) calls = some s ∧
      Timely flow calls ∧ n ≤ s.flow.emitted.length := by
  obtain ⟨-, -, hopen, hfresh⟩ := shapedForward_fresh hflow
  have hrun := Machine.exists_run (step F A) (s := start flow)
    (J := fun n calls (s : Service ρ) => (s.kept = true ∧ s.flow.pending = []) ∧
      Timely flow calls ∧ (∀ call ∈ calls, call.clock.stop ≤ s.flow.nextSlot) ∧
      s.flow.Going flow.sessionStart n)
    ?_ ?_ n
  · obtain ⟨calls, s, hrun, -, hord, -, hgoing⟩ := hrun
    exact ⟨calls, s, hrun, hord, hgoing.count⟩
  · rintro n calls s ⟨⟨hkept, hpend⟩, ⟨hord, hafter⟩, hbefore, hgoing⟩
    have hnext := hgoing.service (F := F) (A := A) hpend
    have hkeeps := kept_of_running (F := F) (A := A) (f := s.flow)
      (callAt s.flow.nextSlot .none) rfl hnext.reader.running
    refine ⟨_, _, step_of_kept hkept _, hkeeps, ⟨?_, ?_⟩, ?_,
      hnext.mono hgoing.late (Nat.le_refl _)⟩
    · rw [InOrder, List.pairwise_append]
      refine ⟨hord, List.pairwise_singleton _ _, fun earlier hmem later hlater => ?_⟩
      rw [List.mem_singleton.mp hlater]
      exact hbefore earlier hmem
    · intro call hmem
      rcases List.mem_append.mp hmem with hold | hnew
      · exact hafter call hold
      · rw [List.mem_singleton.mp hnew]
        exact hgoing.late
    · intro call hmem
      rcases List.mem_append.mp hmem with hold | hnew
      · exact (hbefore call hold).trans hnext.late
      · rw [List.mem_singleton.mp hnew]
        exact hnext.late
  · have hfirst := going_first (F := F) (A := A) hopen hfresh flow.sessionStart
    have hkeeps := kept_of_running (F := F) (A := A) (f := flow)
      (callAt flow.sessionStart .none) rfl hfirst.reader.running
    refine ⟨[callAt flow.sessionStart .none],
      ⟨(flow.serviceFlow F A (callAt flow.sessionStart .none)).2,
        (flow.serviceFlow F A (callAt flow.sessionStart .none)).1⟩, ?_, hkeeps,
      ⟨List.pairwise_singleton _ _, ?_⟩, ?_, hfirst⟩
    · rw [Machine.run_cons, step_of_kept rfl, Option.bind_some]
      rfl
    · intro call hmem
      rw [List.mem_singleton.mp hmem]
      exact Nat.le_refl _
    · intro call hmem
      rw [List.mem_singleton.mp hmem]
      exact hfirst.late

/-- Whatever the bound, a run of the flow goes past it. -/
theorem exceeds {H : Blake3} {new : NewFlow ρ} {flow : FlowSlot ρ}
    (hflow : shapedForward F H new = some flow) :
    ¬ ∃ bound, ∀ calls, Timely flow calls →
      Machine.Always (step F A) (fun s => s.flow.HoldsAtMost bound) (start flow) calls := by
  rintro ⟨bound, hbound⟩
  obtain ⟨calls, s, hrun, htimely, hcount⟩ :=
    emits_any_number (F := F) (A := A) hflow (2 * bound + 1)
  have hlast := (hbound calls htimely).last hrun
  have hsampled : s.flow.Sampled := by
    refine Machine.run_invariant (I := fun s : Service ρ => s.flow.Sampled) ?_
      (shapedForward_fresh hflow).2.1 hrun
    intro s call t h hstep
    obtain rfl := step_eq_some hstep
    exact h.service call
  have hframes : s.flow.selfTester.realSizes.length + s.flow.selfTester.dummySizes.length
      = s.flow.emitted.length := hsampled.frames
  have hreal := hlast.realSizes
  have hdummy := hlast.dummySizes
  omega

/-- **What a flow holds.**  In every run of every flow of `shaped_forward` the bytes
    pending stay less than a frame above their cap, the queue of the correlator stays
    at its depth, and the self-tester has one size for every frame emitted and one
    interval for every frame but the first.  Therefore no bound holds for the samples,
    whatever the flow: an idle flow with a draining peer goes past it. -/
theorem collections_grow (hA : A.Lawful) (H : Blake3) (new : NewFlow ρ) (flow : FlowSlot ρ)
    (hflow : shapedForward F H new = some flow) :
    (∀ calls, Machine.Always (step F A) (fun s =>
        s.flow.pending.length < pendingCap + encFrameLen cellBytes ∧ s.flow.queue.length ≤ 128 ∧
        s.flow.Sampled) (start flow) calls) ∧
      ¬ ∃ bound, ∀ calls, Timely flow calls →
        Machine.Always (step F A) (fun s => s.flow.HoldsAtMost bound) (start flow) calls := by
  obtain ⟨hcapped, hsampled, -, -⟩ := shapedForward_fresh hflow
  refine ⟨fun calls => ?_, exceeds hflow⟩
  refine (Machine.always_of_invariant (I := fun s : Service ρ => s.flow.Capped ∧ s.flow.Sampled) ?_
    ⟨hcapped, hsampled⟩ calls).mono fun s h => ⟨h.1.pending, h.1.queue, h.2⟩
  rintro s call t ⟨hcap, hsam⟩ hstep
  obtain rfl := step_eq_some hstep
  exact ⟨hcap.service hA call, hsam.service call⟩

/-- The first 1000 frames of an idle flow are all still there. -/
theorem collections_grow_idle :
    (∃ calls s, Machine.run (step .steep .tagOnly) (start epochFlow) calls = some s ∧
      1000 ≤ s.flow.emitted.length) ∧
    ¬ ∃ bound, ∀ calls, Timely epochFlow calls →
      Machine.Always (step .steep .tagOnly) (fun s => s.flow.HoldsAtMost bound) (start epochFlow)
        calls := by
  obtain ⟨calls, s, hrun, -, hcount⟩ :=
    emits_any_number (F := .steep) (A := .tagOnly) shapedForward_epochNew 1000
  exact ⟨⟨calls, s, hrun, hcount⟩, (collections_grow Aead.tagOnly_lawful .sumBytes epochNew
    epochFlow shapedForward_epochNew).2⟩

/-- No constant bounds the samples of a flow without tail cover. -/
theorem samples_unbounded :
    shapedForward .steep .sumBytes reservedNew = some (steepFlow 29 .off) ∧
    ¬ ∃ bound, ∀ calls, Timely (steepFlow 29 .off) calls →
      Machine.Always (step .steep .tagOnly) (fun s => s.flow.HoldsAtMost bound)
        (start (steepFlow 29 .off)) calls :=
  ⟨shapedForward_reservedNew, exceeds shapedForward_reservedNew⟩

end Service

end MixTor
