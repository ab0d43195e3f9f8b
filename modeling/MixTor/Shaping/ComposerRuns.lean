/-
  MixTor.Shaping.ComposerRuns

  Runs of calls to a composer.  A call that panics ends the run: the composer is gone.

  A run is safe exactly when every burst finds its budget drawable.  The range of a
  regime is cut at its top only, so a maximum of less than twelve leaves regimes whose
  range is empty; they may be drawn many bursts later.
-/

import MixTor.Lib.Machine
import MixTor.Shaping.ComposerFrames

namespace MixTor

open Crypto (Blake3)

variable {ρ : Type} [Rng ρ] {F : F64}

-- ============================================================================
-- The machine
-- ============================================================================

/-- A call to the composer, with the clock it reads. -/
inductive ComposerCall where
  | compose (clk : Clock) (burst : Burst)
  | keepalive (clk : Clock)

namespace ComposerCall

def run (F : F64) (c : BurstComposer ρ) :
    ComposerCall → Option (MixedBurst × BurstComposer ρ × Clock)
  | compose clk burst => c.compose F clk burst
  | keepalive clk => c.composeKeepalive F clk

/-- What the call builds fits into vectors. -/
def Fits (config : BurstConfig) : ComposerCall → Prop
  | compose _ burst => config.CellFits ∧ BurstComposer.Fits config burst
  | keepalive _ => config.CellFits ∧ config.FramesFit 0

end ComposerCall

/-- A composer in use, and the bursts it has returned.  There is no composer after a
    panic. -/
structure Mixer (ρ : Type) where
  composer : Option (BurstComposer ρ)
  bursts : List MixedBurst

namespace Mixer

def start (c : BurstComposer ρ) : Mixer ρ := ⟨some c, []⟩

def step (F : F64) (s : Mixer ρ) (call : ComposerCall) : Option (Mixer ρ) :=
  s.composer.map fun c =>
    match call.run F c with
    | none => { s with composer := none }
    | some (mixed, c, _) => ⟨some c, s.bursts ++ [mixed]⟩

/-- No call has panicked, and no burst has more dummies than the maximum. -/
def Good (config : BurstConfig) (s : Mixer ρ) : Prop :=
  s.composer.isSome = true ∧ ∀ mixed ∈ s.bursts,
    mixed.dummyPackets ≤ config.maxDummyPacketsPerBurst ∧
      (mixed.frames.filter MixedFrame.isDummy).length ≤ config.maxDummyPacketsPerBurst

/-- A burst finds its budget drawable; a keepalive needs none. -/
def Drawable (s : Mixer ρ) : ComposerCall → Prop
  | .compose _ _ => ∀ c, s.composer = some c → c.BudgetDrawable
  | .keepalive _ => True

end Mixer

-- ============================================================================
-- One call
-- ============================================================================

namespace BurstComposer

variable {config : BurstConfig} {c c' : BurstComposer ρ}

/-- A burst that was returned has no more dummies than the maximum. -/
theorem run_capped {call : ComposerCall} {mixed : MixedBurst} {clk' : Clock}
    (h : call.run F c = some (mixed, c', clk')) :
    mixed.dummyPackets ≤ c.config.maxDummyPacketsPerBurst ∧
      (mixed.frames.filter MixedFrame.isDummy).length ≤ c.config.maxDummyPacketsPerBurst := by
  cases call with
  | compose clk burst =>
      obtain ⟨-, hle, hinter⟩ := compose_interleaved h
      exact ⟨hle, (length_filter_isDummy hinter).trans_le hle⟩
  | keepalive clk =>
      obtain ⟨hle, hinter⟩ := composeKeepalive_interleaved h
      exact ⟨hle, (length_filter_isDummy hinter).trans_le hle⟩

/-- A call that fits and finds its budget drawable returns, and leaves a sound composer. -/
theorem Sound.exists_run (hs : c.Sound config) {call : ComposerCall} (hfit : call.Fits config)
    (hdraw : (⟨some c, []⟩ : Mixer ρ).Drawable call) :
    ∃ mixed c' clk', call.run F c = some (mixed, c', clk') ∧ c'.Sound config := by
  cases call with
  | compose clk burst => exact hs.exists_compose hfit.1 hfit.2 (hdraw c rfl) clk
  | keepalive clk => exact hs.exists_composeKeepalive hfit.1 hfit.2 clk

/-- The regime after the end of a burst is the one before, or a new draw. -/
theorem finishBurst_ranged (hmax : 12 ≤ c.config.maxDummyPacketsPerBurst) (hr : Ranged c.regime)
    {clk clk' : Clock} {burst : Burst} (h : c.finishBurst F clk burst = some (c', clk')) :
    Ranged c'.regime := by
  obtain ⟨⟨c₁, clk₁⟩, hobs, h⟩ := Option.bind_eq_some_iff.mp h
  obtain ⟨g, due, rfl⟩ := resetKeepaliveDeadline_eq_some h
  obtain ⟨⟨c₂, clk₂⟩, hiat, hobs⟩ := Option.bind_eq_some_iff.mp hobs
  obtain ⟨c₃, hswitch, hobs⟩ := Option.bind_eq_some_iff.mp hobs
  obtain ⟨rfl, -⟩ := Prod.mk.inj (Option.some.inj hobs)
  obtain ⟨hcfg, hreg⟩ : c₂.config = c.config ∧ c₂.regime = c.regime := by
    unfold observeIat at hiat
    split at hiat
    · obtain ⟨rfl, -⟩ := Prod.mk.inj (Option.some.inj hiat)
      exact ⟨rfl, rfl⟩
    · obtain ⟨_, -, hiat⟩ := Option.bind_eq_some_iff.mp hiat
      obtain ⟨rfl, -⟩ := Prod.mk.inj (Option.some.inj hiat)
      exact ⟨rfl, rfl⟩
  unfold switchRegime at hswitch
  split at hswitch
  · obtain ⟨⟨regime, rng⟩, hnext, heq⟩ := Option.map_eq_some_iff.mp hswitch
    rw [← heq]
    exact nextRegime_range (by rwa [hcfg]) hnext
  · rw [← Option.some.inj hswitch]
    exact hreg.symm ▸ hr

/-- With a maximum of twelve or more, every regime along the way has a range. -/
theorem run_ranged (hmax : 12 ≤ c.config.maxDummyPacketsPerBurst) (hr : Ranged c.regime)
    {call : ComposerCall} {mixed : MixedBurst} {clk' : Clock}
    (h : call.run F c = some (mixed, c', clk')) : Ranged c'.regime := by
  cases call with
  | compose clk burst =>
      obtain ⟨c₁, c₂, hcount, hframes, hfinish, -⟩ := compose_eq_some h
      obtain ⟨-, _, _, _, rfl, -⟩ := dummyCountForBurst_eq_some hcount
      obtain ⟨⟨_, _, rfl⟩, -⟩ := interleave_interleaved hframes
      rw [ingestPackets_eq] at hfinish
      refine finishBurst_ranged ?_ ?_ hfinish
      · rw [recordFrames_config]
        exact hmax
      · rw [recordFrames_regime]
        exact hr
  | keepalive clk =>
      obtain ⟨c₁, clk₁, hframes, hreset, -, -⟩ := composeKeepalive_eq_some h
      obtain ⟨⟨_, _, rfl⟩, -⟩ := dummyFrames_eq_some hframes
      obtain ⟨_, _, rfl⟩ := resetKeepaliveDeadline_eq_some hreset
      show Ranged (BurstComposer.recordFrames _ mixed.frames).regime
      rw [recordFrames_regime]
      exact hr

end BurstComposer

-- ============================================================================
-- Runs
-- ============================================================================

namespace Mixer

variable {config : BurstConfig}

/-- A sound composer is running, and what it has returned keeps to the maximum. -/
structure Running (config : BurstConfig) (s : Mixer ρ) : Prop where
  composer : ∃ c, s.composer = some c ∧ c.Sound config
  good : s.Good config

theorem step_eq_some {s t : Mixer ρ} {call : ComposerCall} (h : s.step F call = some t) :
    ∃ c, s.composer = some c ∧
      ((call.run F c = none ∧ t = { s with composer := none }) ∨
        ∃ mixed c' clk', call.run F c = some (mixed, c', clk') ∧
          t = ⟨some c', s.bursts ++ [mixed]⟩) := by
  obtain ⟨c, hc, rfl⟩ := Option.map_eq_some_iff.mp h
  refine ⟨c, hc, ?_⟩
  cases hrun : call.run F c with
  | none => exact .inl ⟨rfl, rfl⟩
  | some r => exact .inr ⟨r.1, r.2.1, r.2.2, rfl, rfl⟩

omit [Rng ρ] in
theorem start_running {c : BurstComposer ρ} (hs : c.Sound config) : (start c).Running config :=
  ⟨⟨c, rfl, hs⟩, rfl, List.forall_mem_nil _⟩

/-- A call that fits and finds its budget drawable keeps the composer running. -/
theorem step_running {s t : Mixer ρ} {call : ComposerCall} (hfit : call.Fits config)
    (hs : s.Running config) (hdraw : s.Drawable call) (h : s.step F call = some t) :
    t.Running config := by
  obtain ⟨⟨c, hc, hsound⟩, -, hcap⟩ := hs
  have hdraw' : (⟨some c, []⟩ : Mixer ρ).Drawable call := by
    cases call with
    | compose clk burst => exact fun c' hc' => hdraw c' (hc.trans hc')
    | keepalive clk => exact True.intro
  obtain ⟨mixed, c', clk', hrun, hsound'⟩ := hsound.exists_run (F := F) hfit hdraw'
  obtain ⟨c₁, hc₁, ⟨hnone, -⟩ | ⟨mixed', c'', _, hrun', rfl⟩⟩ := step_eq_some h
  · obtain rfl := Option.some.inj (hc.symm.trans hc₁)
    rw [hrun] at hnone
    cases hnone
  · obtain rfl := Option.some.inj (hc.symm.trans hc₁)
    obtain ⟨rfl, hrest⟩ := Prod.mk.inj (Option.some.inj (hrun.symm.trans hrun'))
    obtain ⟨rfl, -⟩ := Prod.mk.inj hrest
    refine ⟨⟨c', rfl, hsound'⟩, rfl, fun m hm => ?_⟩
    rcases List.mem_append.mp hm with hm | hm
    · exact hcap m hm
    · rw [List.mem_singleton.mp hm, ← hsound.config_eq]
      exact BurstComposer.run_capped hrun

/-- A burst that finds no budget to draw ends the run. -/
theorem step_not_drawable {s t : Mixer ρ} {call : ComposerCall} (hdraw : ¬ s.Drawable call)
    (h : s.step F call = some t) : ¬ t.Good config := by
  cases call with
  | keepalive clk => exact absurd True.intro hdraw
  | compose clk burst =>
      obtain ⟨c, hc, hrun⟩ := step_eq_some h
      have hnone : (ComposerCall.compose clk burst).run F c = none := by
        apply BurstComposer.compose_eq_none
        intro hb
        apply hdraw
        intro c' hc'
        obtain rfl := Option.some.inj (hc.symm.trans hc')
        exact hb
      obtain ⟨-, rfl⟩ | ⟨_, _, _, hsome, -⟩ := hrun
      · exact fun hgood => absurd hgood.1 (by simp)
      · rw [hnone] at hsome
        cases hsome

/-- The regime of the composer has a range. -/
def Ranged (s : Mixer ρ) : Prop := ∀ c, s.composer = some c → BurstComposer.Ranged c.regime

theorem step_ranged {s t : Mixer ρ} {call : ComposerCall}
    (hmax : 12 ≤ config.maxDummyPacketsPerBurst) (hs : s.Running config) (hr : s.Ranged)
    (h : s.step F call = some t) : t.Ranged := by
  obtain ⟨c₀, hc₀, hsound⟩ := hs.composer
  obtain ⟨c, hc, ⟨-, rfl⟩ | ⟨mixed, c', clk', hrun, rfl⟩⟩ := step_eq_some h
  · intro c' hc'
    cases hc'
  · intro c'' hc''
    obtain rfl := Option.some.inj hc''
    obtain rfl := Option.some.inj (hc₀.symm.trans hc)
    exact BurstComposer.run_ranged (by rwa [hsound.config_eq]) (hr _ hc) hrun

/-- A range and an epsilon that is a number make every call drawable. -/
theorem Running.drawable {s : Mixer ρ} (hs : s.Running config) (hr : s.Ranged)
    (heps : ∀ cfg, config.dpShaper = some cfg → Double.le (.finite 0) cfg.epsilon = true)
    (call : ComposerCall) : s.Drawable call := by
  cases call with
  | keepalive clk => exact True.intro
  | compose clk burst =>
      intro c hc
      obtain ⟨c₀, hc₀, hsound⟩ := hs.composer
      obtain rfl := Option.some.inj (hc₀.symm.trans hc)
      exact hsound.budgetDrawable (hr _ hc) heps

end Mixer

open BurstComposer (withConfig) in
/-- **When a composer is safe.**  Take a composer that the constructor has returned, and
    calls that fit into vectors.  No call panics and every burst keeps to the maximum
    exactly when every burst finds its budget drawable; a maximum of twelve or more and
    an epsilon that is not NaN are enough for that. -/
theorem composer_safe_iff {H : Blake3} {clk clk' : Clock} {seed : RoleSeed} {config : BurstConfig}
    {c : BurstComposer ρ} (hnew : withConfig F H clk seed config = some (.ok (c, clk')))
    {calls : List ComposerCall} (hfit : ∀ call ∈ calls, call.Fits config) :
    (Machine.Always (Mixer.step F) (Mixer.Good config) (Mixer.start c) calls ↔
        Machine.Meets (Mixer.step F) Mixer.Drawable (Mixer.start c) calls) ∧
      (12 ≤ config.maxDummyPacketsPerBurst →
        (∀ cfg, config.dpShaper = some cfg → cfg.epsilon ≠ .nan) →
        Machine.Meets (Mixer.step F) Mixer.Drawable (Mixer.start c) calls) := by
  obtain ⟨hv, hs, hregime, hdp⟩ := BurstComposer.withConfig_eq_ok hnew
  constructor
  · exact Machine.always_iff_meets_on (I := Mixer.Running config) (fun s hs => hs.good)
      (fun s call t hfit hs hdraw ht => Mixer.step_running hfit hs hdraw ht)
      (fun s call t _ _ hdraw ht => Mixer.step_not_drawable hdraw ht) hfit
      (Mixer.start_running hs)
  · intro hmax hnan
    have heps : ∀ cfg, config.dpShaper = some cfg → Double.le (.finite 0) cfg.epsilon = true := by
      intro cfg hcfg
      obtain ⟨cfg', hval⟩ := hdp cfg hcfg
      obtain ⟨rfl, -⟩ := DpShaperConfig.validate_eq_ok hval
      exact (DpShaperConfig.le_epsilon_iff hval).mpr (hnan _ hcfg)
    have hfits : Machine.Meets (Mixer.step F) (fun _ call => call.Fits config) (Mixer.start c)
        calls := Machine.meets_of_mem (fun call hcall _ => hfit call hcall) _
    refine (hfits.imp_of_invariant (I := fun s => s.Running config ∧ s.Ranged) ?_ ?_ ?_)
    · rintro s call t ⟨hrun, hranged⟩ hcall ht
      exact ⟨Mixer.step_running hcall hrun (hrun.drawable hranged heps call) ht,
        Mixer.step_ranged hmax hrun hranged ht⟩
    · exact fun s call ⟨hrun, hranged⟩ _ => hrun.drawable hranged heps call
    · refine ⟨Mixer.start_running hs, fun c' hc' => ?_⟩
      obtain rfl := Option.some.inj hc'
      exact nextRegime_range hmax hregime

-- ============================================================================
-- A safe run and two that panic
-- ============================================================================

open BurstComposer (sampleConfig withConfig exists_sample half_pos)

/-- With the default maximum and epsilon a burst and a keepalive are safe. -/
theorem composer_safe_iff_default :
    ∃ (c : BurstComposer FixedRng) (clk' : Clock),
      withConfig F64.steep (.fill 2) (.const 0) sampleSeed (sampleConfig 32 (.finite (1 / 2)))
          = some (.ok (c, clk')) ∧
        Machine.Always (Mixer.step F64.steep) (Mixer.Good (sampleConfig 32 (.finite (1 / 2))))
          (Mixer.start c) [.compose (.const 1) sampleBurst, .keepalive (.const 2)] := by
  have hmax : 0 < 32 := by decide
  obtain ⟨c, clk', h⟩ :=
    exists_sample (ρ := FixedRng) hmax half_pos (.fill 2) sampleSeed.bytes (.const 0)
  have hcell := BurstComposer.sampleConfig_cellFits 32 (.finite (1 / 2))
  have hfit : ∀ call ∈ [ComposerCall.compose (.const 1) sampleBurst, .keepalive (.const 2)],
      call.Fits (sampleConfig 32 (.finite (1 / 2))) := by
    refine List.forall_mem_cons.mpr ⟨⟨hcell, sampleBurst_fits⟩,
      List.forall_mem_singleton.mpr ⟨hcell, ?_⟩⟩
    show (0 + 32) * 32 ≤ isizeMax
    decide
  obtain ⟨hiff, hmeets⟩ := composer_safe_iff h hfit
  refine ⟨c, clk', h, hiff.mpr (hmeets (by decide) fun cfg hcfg => ?_)⟩
  obtain rfl := Option.some.inj hcfg
  nofun

/-- A burst whose budget cannot be drawn makes a run unsafe. -/
theorem not_always_of_not_budgetDrawable {config : BurstConfig} {c : BurstComposer ρ}
    (h : ¬ c.BudgetDrawable) (clk : Clock) (burst : Burst) :
    ¬ Machine.Always (Mixer.step F) (Mixer.Good config) (Mixer.start c)
      [.compose clk burst] := by
  intro halways
  have hdraw : ¬ (Mixer.start c).Drawable (.compose clk burst) := fun hd => h (hd c rfl)
  obtain ⟨t, ht⟩ : ∃ t, (Mixer.start c).step F (.compose clk burst) = some t := ⟨_, rfl⟩
  exact Mixer.step_not_drawable hdraw ht (halways.2 t ht).head

/-- A maximum of five is accepted.  When the first regime is the heavy one, whose range
    starts at ten, the first burst panics.  So does every burst when epsilon is NaN. -/
theorem composer_can_panic :
    (∃ (c : BurstComposer FixedRng) (clk' : Clock),
      withConfig F64.steep (.fill 2) (.const 0) sampleSeed (sampleConfig 5 (.finite (1 / 2)))
          = some (.ok (c, clk')) ∧
        ¬ Machine.Always (Mixer.step F64.steep) (Mixer.Good (sampleConfig 5 (.finite (1 / 2))))
          (Mixer.start c) [.compose (.const 1) sampleBurst]) ∧
      ∃ (c : BurstComposer FixedRng) (clk' : Clock),
        withConfig F64.steep (.fill 2) (.const 0) sampleSeed (sampleConfig 32 .nan)
            = some (.ok (c, clk')) ∧
          ¬ Machine.Always (Mixer.step F64.steep) (Mixer.Good (sampleConfig 32 .nan))
            (Mixer.start c) [.compose (.const 1) sampleBurst] := by
  have hheavy : (nextRegime (sampleConfig 5 (.finite (1 / 2)))
      (⟨(2 : UInt64) <<< 56⟩ : FixedRng)).map
      (fun r => (r.1.dummyLo, r.1.dummyHi, r.1.spiky)) = some (10, 5, false) := by
    decide +kernel
  constructor
  · have hmax : 0 < 5 := by decide
    obtain ⟨c, clk', h⟩ :=
      exists_sample (ρ := FixedRng) hmax half_pos (.fill 2) sampleSeed.bytes (.const 0)
    refine ⟨c, clk', h, not_always_of_not_budgetDrawable (fun hdraw => ?_) _ _⟩
    obtain ⟨-, -, hregime, -⟩ := BurstComposer.withConfig_eq_ok h
    have hfirst : nextRegime (sampleConfig 5 (.finite (1 / 2)))
        (⟨(2 : UInt64) <<< 56⟩ : FixedRng)
        = some (c.regime, c.rng) := hregime
    rw [hfirst] at hheavy
    simp only [Option.map_some, Option.some.injEq, Prod.mk.injEq] at hheavy
    obtain ⟨hlo, hhi, hspiky⟩ := hheavy
    rcases hdraw.1 with hle | ⟨hsp, -⟩
    · omega
    · rw [hspiky] at hsp
      cases hsp
  · have hmax : 0 < 32 := by decide
    obtain ⟨c, clk', h⟩ :=
      exists_sample (ρ := FixedRng) hmax (rfl : Double.nan.le (.finite 0) = false) (.fill 2)
        sampleSeed.bytes (.const 0)
    refine ⟨c, clk', h, not_always_of_not_budgetDrawable (fun hdraw => ?_) _ _⟩
    obtain ⟨-, hs, -, -⟩ := BurstComposer.withConfig_eq_ok h
    obtain ⟨dp, hdp, hcfg⟩ := Option.map_eq_some_iff.mp (hs.dpShaper :
      c.dpShaper.map DpShaper.config = some { DpShaperConfig.default with epsilon := .nan })
    have hle := hdraw.2 dp hdp
    rw [hcfg, Double.le_nan] at hle
    cases hle

end MixTor
