/-
  MixTor.Transport.CoverSchedule

  What a wire observer sees of a flow, computed without the traffic.

  `Cover` keeps the departure clock and three counters: the slots fired, the
  bytes waiting in `pending` and the bytes written.  Its service call reads the
  time and the answers of the socket and nothing else.  `service_flow` refines
  it: the abstraction of a steady flow after a call is the service of its
  abstraction, whatever arrived on the reader channel.  Two runs that differ
  only in their real traffic therefore look the same.
-/

import MixTor.Transport.ServiceFlow

namespace MixTor

open Channel
open Crypto (Bytes Aead FrameCipher encFrameLen Blake3)

/-- The part of a flow an observer can see, with the clock that drives it. -/
structure Cover (ρ : Type) where
  rng : ρ
  nextDeparture : Instant
  clockStarted : Bool
  /-- The departure slots fired so far. -/
  fired : List Instant
  pendingLen : Nat
  wireLen : Nat

namespace Cover

variable {ρ : Type} [RngCore ρ]

section Step

variable (F : F64) (config : TimingCorrelatorConfig) (meanMs : Double) (t : Instant)

/-- Restart the departure clock on the first service. -/
def start (c : Cover ρ) : Cover ρ :=
  if c.clockStarted then c
  else
    let (step, rng) := TimingCorrelator.slotStep F config c.rng meanMs
    { c with rng, nextDeparture := TimingCorrelator.nextSlot t step t, clockStarted := true }

/-- One slot: the clock moves on and one frame joins `pending`. -/
def fire (c : Cover ρ) : Cover ρ :=
  let step := (TimingCorrelator.slotStep F config c.rng meanMs).1
  { c with
    rng := (TimingCorrelator.slotCoin F config c.rng meanMs).2
    nextDeparture := TimingCorrelator.nextSlot c.nextDeparture step t
    fired := c.fired ++ [c.nextDeparture]
    pendingLen := c.pendingLen + encFrameLen cellBytes }

/-- Fire every slot that has come while `pending` is below its cap. -/
def slots : Nat → Cover ρ → Cover ρ
  | 0, c => c
  | fuel + 1, c =>
      if c.nextDeparture ≤ t ∧ c.pendingLen < pendingCap then slots fuel (c.fire F config meanMs t)
      else c

/-- Write what the socket takes. -/
def flush (tryWrite : Nat → TryWrite) (c : Cover ρ) : Cover ρ :=
  if c.pendingLen = 0 then c
  else match tryWrite c.pendingLen with
    | .ok n => { c with
        pendingLen := c.pendingLen - n
        wireLen := c.wireLen + min n c.pendingLen }
    | _ => c

/-- One service call at time `t`. -/
def service (tryWrite : Nat → TryWrite) (c : Cover ρ) : Cover ρ :=
  let started := c.start F config meanMs t
  (if started.pendingLen < pendingCap then started.slots F config meanMs t pendingCap
    else started).flush tryWrite

end Step

end Cover

namespace FlowSlot

variable {ρ : Type}

/-- What an observer sees of a flow. -/
def cover (flow : FlowSlot ρ) : Cover ρ where
  rng := flow.session.correlator.rng
  nextDeparture := flow.session.correlator.nextDeparture
  clockStarted := flow.clockStarted
  fired := flow.emitted.map Emission.slot
  pendingLen := flow.pending.length
  wireLen := flow.wire.length

/-- A steady flow whose clock has a given configuration and mean. -/
structure Paced (config : TimingCorrelatorConfig) (meanMs : Double) (flow : FlowSlot ρ) : Prop where
  steady : flow.Steady
  config_eq : flow.session.correlator.config = config
  meanIatMs_eq : flow.session.correlator.meanIatMs = meanMs

variable {config : TimingCorrelatorConfig} {meanMs : Double} {flow : FlowSlot ρ}

/-- Arriving cells are invisible. -/
theorem arrive_cover (h : flow.Paced config meanMs) (a : Arrival) :
    (flow.arrive a).Paced config meanMs ∧ (flow.arrive a).cover = flow.cover := by
  obtain ⟨⟨hfix, hcell⟩, hcfg, hmean⟩ := h
  unfold arrive
  split
  · exact ⟨⟨⟨hfix, hcell⟩, hcfg, hmean⟩, rfl⟩
  · exact ⟨⟨⟨hfix, hcell⟩, hcfg, hmean⟩, rfl⟩

/-- A pull is invisible, whatever it finds. -/
theorem pulled_cover {flow' : FlowSlot ρ} {clk clk' : Clock} (h : flow.Paced config meanMs)
    (hp : Pulled flow clk flow' clk') : flow'.Paced config meanMs ∧ flow'.cover = flow.cover := by
  obtain ⟨⟨hfix, hcell⟩, hcfg, hmean⟩ := h
  cases hp with
  | idle => exact ⟨⟨⟨hfix, hcell⟩, hcfg, hmean⟩, rfl⟩
  | eof tail n _ _ _ _ => exact ⟨⟨⟨hfix, hcell⟩, hcfg, hmean⟩, rfl⟩
  | cell c rest session' _ _ fixed same _ =>
      refine ⟨⟨⟨fixed, same.config ▸ hcell⟩, same.config.trans hcfg, same.meanIatMs.trans hmean⟩,
        ?_⟩
      simp only [cover, same.rng, same.nextDeparture]

/-- A clock that stands still does so through a pull. -/
theorem pulled_const {flow' : FlowSlot ρ} {t : Instant} {clk' : Clock}
    (hp : Pulled flow (.const t) flow' clk') : clk' = .const t := by
  cases hp <;> rfl

/-- Writing depends on the length of `pending` only. -/
theorem flush_cover (w : Nat → TryWrite) (h : flow.Paced config meanMs) :
    (flow.flush w).2.Paced config meanMs ∧ (flow.flush w).2.cover = flow.cover.flush w := by
  obtain ⟨⟨hfix, hcell⟩, hcfg, hmean⟩ := h
  unfold flush Cover.flush
  by_cases hemp : flow.pending = []
  · rw [if_pos hemp, if_pos (show flow.cover.pendingLen = 0 from List.length_eq_zero_iff.mpr hemp)]
    exact ⟨⟨⟨hfix, hcell⟩, hcfg, hmean⟩, rfl⟩
  · rw [if_neg hemp, if_neg (show ¬ flow.cover.pendingLen = 0 from
      fun h0 => hemp (List.length_eq_zero_iff.mp h0))]
    have hw : flow.cover.pendingLen = flow.pending.length := rfl
    rw [hw]
    cases w flow.pending.length with
    | wouldBlock => exact ⟨⟨⟨hfix, hcell⟩, hcfg, hmean⟩, rfl⟩
    | err => exact ⟨⟨⟨hfix, hcell⟩, hcfg, hmean⟩, rfl⟩
    | ok n =>
        cases n with
        | zero => exact ⟨⟨⟨hfix, hcell⟩, hcfg, hmean⟩, by simp [cover]⟩
        | succ n =>
            refine ⟨⟨⟨hfix, hcell⟩, hcfg, hmean⟩, ?_⟩
            simp only [cover, List.length_drop, List.length_append, List.length_take]

variable [RngCore ρ] {F : F64} {A : Aead}

/-- A slot that has come looks the same whichever frame it carries. -/
theorem fired_cover (hA : A.Lawful) {flow' : FlowSlot ρ} {t : Instant} {clk' : Clock}
    (h : flow.Paced config meanMs) (hdue : flow.session.correlator.nextDeparture ≤ t)
    (hf : Fired F A flow (.const t) flow' clk') :
    flow'.Paced config meanMs ∧ clk' = .const t ∧
      flow'.cover = flow.cover.fire F config meanMs t := by
  obtain ⟨⟨hfix, hcell⟩, hcfg, hmean⟩ := h
  cases hf with
  | waits early => exact absurd hdue (not_le.mpr early)
  | emits frame session' due fixed size took hcfg' hmean' hrng hnext =>
      refine ⟨⟨⟨fixed, hcfg' ▸ hcell⟩, hcfg'.trans hcfg, hmean'.trans hmean⟩, rfl, ?_⟩
      simp only [cover, Cover.fire, hrng, hnext, hcfg, hmean, List.map_append, List.map_cons,
        List.map_nil, List.length_append, encodeFrame_length hA, size, Clock.const_later,
        Clock.const_now]

/-- The slot loop fires the slots the cover schedule fires.  The induction is on
    the fuel, with the arrivals and the flow general. -/
theorem slotLoop_cover (hA : A.Lawful) (gate : Bool) (t : Instant) (fuel : Nat)
    (arrivals : Nat → Arrival) (h : flow.Paced config meanMs) :
    (slotLoop F A gate fuel arrivals (.const t) flow).1.Paced config meanMs ∧
      (slotLoop F A gate fuel arrivals (.const t) flow).1.cover
        = flow.cover.slots F config meanMs t fuel := by
  induction fuel generalizing arrivals flow with
  | zero => exact ⟨h, rfl⟩
  | succ fuel ih =>
      rw [slotLoop, Cover.slots]
      by_cases hguard : flow.cover.nextDeparture ≤ t ∧ flow.cover.pendingLen < pendingCap
      · rw [if_pos (slotGuard_iff.mpr hguard), if_pos hguard]
        obtain ⟨harr, harrc⟩ := arrive_cover h (arrivals 0)
        have hspec := pull_spec (F := F) harr.steady gate (.const t)
        obtain ⟨hpul, hpulc⟩ := pulled_cover harr hspec
        have hclk := pulled_const hspec
        have hdue : ((flow.arrive (arrivals 0)).pull F gate (.const t)).1.cover.nextDeparture
            ≤ t := by
          rw [hpulc, harrc]
          exact hguard.1
        simp only [Clock.const_later, hclk]
        obtain ⟨hfir, hfclk, hfirc⟩ :=
          fired_cover hA hpul hdue (fireSlot_spec hpul.steady (.const t))
        rw [hfclk]
        obtain ⟨hres, hresc⟩ := ih (fun i => arrivals (i + 1)) hfir
        exact ⟨hres, by rw [hresc, hfirc, hpulc, harrc]⟩
      · rw [if_neg (fun h' => hguard (slotGuard_iff.mp h')), if_neg hguard]
        exact ⟨h, rfl⟩

/-- Restarting the clock is the same for every flow with the same clock. -/
theorem startClock_cover (t : Instant) (h : flow.Paced config meanMs) :
    (flow.startClock F (.const t)).1.Paced config meanMs ∧
      (flow.startClock F (.const t)).2 = .const t ∧
      (flow.startClock F (.const t)).1.cover = flow.cover.start F config meanMs t := by
  unfold startClock Cover.start
  by_cases hst : flow.clockStarted
  · rw [if_pos hst, if_pos (show flow.cover.clockStarted from hst)]
    exact ⟨h, rfl, rfl⟩
  · rw [if_neg hst, if_neg (show ¬ flow.cover.clockStarted from hst)]
    obtain ⟨⟨⟨hfix, hcomp, hsz⟩, hcell⟩, rfl, rfl⟩ := h
    exact ⟨⟨⟨⟨hfix, hcomp, hsz⟩, hcell⟩, rfl, rfl⟩, rfl, rfl⟩

/-- The slots of a call are those of the cover schedule. -/
theorem runSlots_cover (hA : A.Lawful) (t : Instant) (arrivals : Nat → Arrival)
    (h : flow.Paced config meanMs) :
    (flow.runSlots F A arrivals (.const t)).1.Paced config meanMs ∧
      (flow.runSlots F A arrivals (.const t)).1.cover
        = if flow.cover.pendingLen < pendingCap then
            flow.cover.slots F config meanMs t pendingCap
          else flow.cover := by
  unfold runSlots
  by_cases hcap : flow.pending.length < pendingCap
  · rw [if_pos hcap, if_pos (show flow.cover.pendingLen < pendingCap from hcap)]
    exact slotLoop_cover hA _ t pendingCap arrivals h
  · rw [if_neg hcap, if_neg (show ¬ flow.cover.pendingLen < pendingCap from hcap)]
    exact ⟨h, rfl⟩

/-- **Refinement.** A service call at a fixed time does to the cover of a flow
    what the cover schedule does, whatever arrives in it. -/
theorem serviceFlow_cover (hA : A.Lawful) {call : ServiceCall} {t : Instant}
    (hclk : call.clock = .const t) (h : flow.Paced config meanMs) :
    (flow.serviceFlow F A call).2.Paced config meanMs ∧
      (flow.serviceFlow F A call).2.cover
        = flow.cover.service F config meanMs t call.tryWrite := by
  obtain ⟨harr, harrc⟩ := arrive_cover h (call.arrivals 0)
  obtain ⟨hst, hstclk, hstc⟩ := startClock_cover (F := F) t harr
  obtain ⟨hran, hranc⟩ := runSlots_cover (F := F) hA t (fun i => call.arrivals (i + 1)) hst
  obtain ⟨hfl, hflc⟩ := flush_cover call.tryWrite hran
  rw [serviceFlow_snd, emit, hclk, hstclk]
  exact ⟨hfl, by rw [hflc, hranc, hstc, harrc, Cover.service]⟩

end FlowSlot

variable {ρ : Type} [RngCore ρ] {F : F64} {A : Aead} {config : TimingCorrelatorConfig}
  {meanMs : Double}

-- ============================================================================
-- Two runs of one flow
-- ============================================================================

/-- What an observer sees of one service call. -/
structure CallView where
  /-- The slots fired. -/
  fired : List Instant
  /-- Bytes appended to `pending`. -/
  appended : Nat
  /-- Bytes written to the wire. -/
  written : Nat
  deriving DecidableEq, Repr

/-- The view of the call that led from `c` to `c'`. -/
def Cover.view (c c' : Cover ρ) : CallView where
  fired := c'.fired.drop c.fired.length
  appended := (c'.wireLen + c'.pendingLen) - (c.wireLen + c.pendingLen)
  written := c'.wireLen - c.wireLen

namespace FlowSlot

/-- The views of the calls of a run, up to the call that drops the flow. -/
def views (F : F64) (A : Aead) (flow : FlowSlot ρ) : List ServiceCall → List CallView
  | [] => []
  | call :: calls =>
      let r := flow.serviceFlow F A call
      flow.cover.view r.2.cover :: if r.1 then views F A r.2 calls else []

/-- Two calls at the same fixed time with the same socket; what arrives may differ. -/
structure SameSchedule (call₁ call₂ : ServiceCall) : Prop where
  clock : call₁.clock = call₂.clock
  fixed : ∃ t, call₁.clock = .const t
  tryWrite : call₁.tryWrite = call₂.tryWrite

/-- Flows with the same cover show the same calls until one of them is dropped.
    The induction is on the calls; the cover of both flows is the same after
    every one of them. -/
theorem views_prefix_of_cover_eq (hA : A.Lawful) {flow₁ flow₂ : FlowSlot ρ}
    (h₁ : flow₁.Paced config meanMs) (h₂ : flow₂.Paced config meanMs)
    (hcover : flow₁.cover = flow₂.cover) {calls₁ calls₂ : List ServiceCall}
    (hsched : List.Forall₂ SameSchedule calls₁ calls₂) :
    flow₁.views F A calls₁ <+: flow₂.views F A calls₂ ∨
      flow₂.views F A calls₂ <+: flow₁.views F A calls₁ := by
  induction hsched generalizing flow₁ flow₂ with
  | nil => exact .inl (List.prefix_rfl)
  | cons hcall _ ih =>
      obtain ⟨hclk, ⟨t, ht⟩, hwrite⟩ := hcall
      obtain ⟨hp₁, hc₁⟩ := serviceFlow_cover (F := F) hA ht h₁
      obtain ⟨hp₂, hc₂⟩ := serviceFlow_cover (F := F) hA (hclk ▸ ht) h₂
      have hafter := hc₁.trans ((hcover ▸ hwrite ▸ rfl : _ = _).trans hc₂.symm)
      rw [views, views, hcover, hafter]
      split
      · split
        · rcases ih hp₁ hp₂ hafter with hpre | hpre
          · exact .inl ((List.prefix_cons_inj _).mpr hpre)
          · exact .inr ((List.prefix_cons_inj _).mpr hpre)
        · exact .inr ((List.prefix_cons_inj _).mpr List.nil_prefix)
      · exact .inl ((List.prefix_cons_inj _).mpr List.nil_prefix)

/-- A flow registered with a production session is paced by its configuration. -/
theorem registered_paced {H : Blake3} {clk clk' : Clock} {seed : EphemeralSeed}
    {initialIatMs : Double} {composerRng : ρ} {session : ShapedSession ρ}
    (hnew : ShapedSession.new F H clk seed (shapedCompositionConfig F initialIatMs) composerRng
      = some (.ok (session, clk')))
    (sessionStart : Instant) (policy : TailPolicy) (thresholds : FuzzedClassThresholds)
    (realHoldUntil : Instant) (cipher : FrameCipher) :
    (registered session sessionStart policy thresholds realHoldUntil cipher).Paced
      (ShapedSession.correlatorConfig F (shapedCompositionConfig F initialIatMs) cellBytes)
      session.correlator.meanIatMs := by
  obtain ⟨hsteady, -⟩ := registered_steady hnew sessionStart policy thresholds realHoldUntil cipher
  obtain ⟨cell, hcell, -, hcfg, -⟩ := ShapedSession.new_eq_ok hnew
  obtain rfl : cellBytes = cell := Option.some.inj hcell
  exact ⟨hsteady, hcfg, rfl⟩

/-- **The wire does not depend on the traffic.** Two runs of one registered flow
    with the production clock, serviced at the same instants over sockets that
    answer alike, show an observer the same slots and byte counts at every call
    up to the one that drops either of them, whatever cells arrive in either run
    and when. -/
theorem views_independent_of_traffic (hA : A.Lawful) (H : Blake3) (clk clk' : Clock)
    (seed : EphemeralSeed) (initialIatMs : Double) (composerRng : ρ) (session : ShapedSession ρ)
    (hnew : ShapedSession.new F H clk seed (shapedCompositionConfig F initialIatMs) composerRng
      = some (.ok (session, clk')))
    (sessionStart : Instant) (policy : TailPolicy) (thresholds : FuzzedClassThresholds)
    (realHoldUntil : Instant) (cipher : FrameCipher) (calls₁ calls₂ : List ServiceCall)
    (hsched : List.Forall₂ SameSchedule calls₁ calls₂) :
    let flow := registered session sessionStart policy thresholds realHoldUntil cipher
    flow.views F A calls₁ <+: flow.views F A calls₂ ∨
      flow.views F A calls₂ <+: flow.views F A calls₁ :=
  have hpaced := registered_paced hnew sessionStart policy thresholds realHoldUntil cipher
  views_prefix_of_cover_eq hA hpaced hpaced rfl hsched

/-- A busy run and an idle run of one flow, two calls each. -/
theorem views_independent_of_traffic_busy_idle :
    let flow := registered (steepSession 157) 0 .off ⟨1, 2, 3⟩ 0 (.new (Vector.replicate 32 9))
    let busy := fun (_ : Nat) => Arrival.mk [(encodeRealCell 1 [42] (⟨0⟩ : FixedRng)).1] false
    let idle := fun (_ : Nat) => Arrival.none
    let calls := fun arrivals => [ServiceCall.mk (.const 0) arrivals .ok,
      ServiceCall.mk (.const 60000000) arrivals .ok]
    flow.views .steep .tagOnly (calls busy) <+: flow.views .steep .tagOnly (calls idle) ∨
      flow.views .steep .tagOnly (calls idle) <+: flow.views .steep .tagOnly (calls busy) :=
  views_independent_of_traffic Aead.tagOnly_lawful .sumBytes (.const 0) (.const 0)
    ⟨Vector.replicate 32 157⟩ (.finite 5) ⟨0⟩ (steepSession 157) (new_steepSession 157) 0 .off
    ⟨1, 2, 3⟩ 0
    (.new (Vector.replicate 32 9)) _ _
    (.cons ⟨rfl, ⟨0, rfl⟩, rfl⟩ (.cons ⟨rfl, ⟨60000000, rfl⟩, rfl⟩ .nil))

end FlowSlot

end MixTor
