/-
  MixTor.Shaping.Spectral

  The spectrally white generator of keepalive delays (spectral.rs): an exponential
  draw with Laplace noise, clamped to the configured range, and redrawn while it is
  too similar to the delay before it.
-/

import MixTor.Shaping.Double

namespace MixTor

structure SpectralConfig where
  targetIatMs : Double
  laplaceScaleMs : Double
  floorMs : Double
  ceilingMs : Double
  similarityRejectionFraction : Double
  maxRejections : Nat
  deriving DecidableEq, Repr

inductive SpectralError where
  | invalidConfig (msg : String)
  deriving DecidableEq, Repr

namespace SpectralConfig

def validate (c : SpectralConfig) : Except SpectralError SpectralConfig :=
  if c.targetIatMs.le (.finite 0) then .error (.invalidConfig "target_iat_ms must be positive")
  else if c.floorMs.le (.finite 0) then .error (.invalidConfig "floor_ms must be positive")
  else if c.ceilingMs.le c.floorMs then
    .error (.invalidConfig "floor_ms must be less than ceiling_ms")
  else .ok c

theorem validate_of_le {c : SpectralConfig} (htarget : c.targetIatMs.le (.finite 0) = false)
    (hfloor : c.floorMs.le (.finite 0) = false) (hceil : c.ceilingMs.le c.floorMs = false) :
    c.validate = .ok c := by
  simp [validate, htarget, hfloor, hceil]

/-- An accepted range whose ends are numbers is ordered. -/
theorem le_of_validate {c c' : SpectralConfig} (h : c.validate = .ok c') (hfloor : c.floorMs ≠ .nan)
    (hceil : c.ceilingMs ≠ .nan) : c' = c ∧ c.floorMs.le c.ceilingMs = true := by
  simp only [validate, guard_eq_ok, Bool.not_eq_true] at h
  obtain ⟨-, -, hlt, hok⟩ := h
  exact ⟨(Except.ok.inj hok).symm, Double.le_of_not_le hfloor hceil hlt⟩

end SpectralConfig

/-- `lastSampleMs` is the delay before, for the rejection of similar ones. -/
structure SpectralIatGenerator (ρ : Type) where
  config : SpectralConfig
  rng : ρ
  lastSampleMs : Option Double

namespace SpectralIatGenerator

variable {ρ : Type} [RngCore ρ]

def new (config : SpectralConfig) (rng : ρ) : Except SpectralError (SpectralIatGenerator ρ) :=
  config.validate.map fun config => ⟨config, rng, none⟩

/-- Update the target mean. -/
def setTargetIatMs (g : SpectralIatGenerator ρ) (ms : Double) : Option (SpectralIatGenerator ρ) :=
  if Double.lt (.finite 0) ms then
    (ms.clamp g.config.floorMs g.config.ceilingMs).map fun targetIatMs =>
      { g with config := { g.config with targetIatMs } }
  else some g

/-- Sample from Exponential with mean `meanMs` by the inverse CDF. -/
def exponentialSample (F : F64) (rng : ρ) (meanMs : Double) : Double × ρ :=
  Double.exponentialSample F rng meanMs

/-- Sample from Laplace(0, scale), or zero without a scale. -/
def laplaceSample (F : F64) (rng : ρ) (scale : Double) : Double × ρ :=
  if scale.le (.finite 0) then (.finite 0, rng) else Double.laplaceSample F rng scale

def rawSample (F : F64) (config : SpectralConfig) (rng : ρ) : Double × ρ :=
  let (expSample, rng) := exponentialSample F rng config.targetIatMs
  let (lapSample, rng) := laplaceSample F rng config.laplaceScaleMs
  (Double.add F expSample lapSample, rng)

/-- The delay differs enough from the one before. -/
def dissimilar (F : F64) (g : SpectralIatGenerator ρ) (clamped : Double) : Bool :=
  match g.lastSampleMs with
  | none => true
  | some last =>
      last.le (.finite 0) ||
        g.config.similarityRejectionFraction.le
          (Double.div F (Double.sub F clamped last).abs last)

/-- A fresh sample, clamped to the range. -/
def clampedSample (F : F64) (g : SpectralIatGenerator ρ) : Option (Double × ρ) :=
  let (candidate, rng) := rawSample F g.config g.rng
  (candidate.clamp g.config.floorMs g.config.ceilingMs).map (·, rng)

/-- The loop of `next_delay_ms`, with the rejections that are left. -/
def nextDelayFrom (F : F64) (g : SpectralIatGenerator ρ) :
    Nat → Option (Double × SpectralIatGenerator ρ)
  | 0 => do
      let (clamped, rng) ← g.clampedSample F
      return (clamped, { g with rng, lastSampleMs := some clamped })
  | left + 1 => do
      let (clamped, rng) ← g.clampedSample F
      if g.dissimilar F clamped then
        return (clamped, { g with rng, lastSampleMs := some clamped })
      else nextDelayFrom F { g with rng } left

/-- The next delay in milliseconds. -/
def nextDelayMs (F : F64) (g : SpectralIatGenerator ρ) :
    Option (Double × SpectralIatGenerator ρ) :=
  nextDelayFrom F g g.config.maxRejections

/-- The range of delays is ordered, as every clamp asserts. -/
def Ordered (g : SpectralIatGenerator ρ) : Prop := g.config.floorMs.le g.config.ceilingMs = true

variable {F : F64} {g : SpectralIatGenerator ρ}

omit [RngCore ρ] in
/-- A new generator has the given configuration; if the ends of its range are numbers,
    they are ordered. -/
theorem new_ordered {config : SpectralConfig} {rng : ρ} (h : new config rng = .ok g)
    (hfloor : config.floorMs ≠ .nan) (hceil : config.ceilingMs ≠ .nan) : g.Ordered := by
  unfold new at h
  cases hval : config.validate with
  | error e =>
      rw [hval] at h
      cases h
  | ok config' =>
      obtain ⟨rfl, hle⟩ := SpectralConfig.le_of_validate hval hfloor hceil
      rw [hval] at h
      obtain rfl := Except.ok.inj h
      exact hle

omit [RngCore ρ] in
theorem Ordered.exists_setTargetIatMs (h : g.Ordered) (ms : Double) :
    ∃ g', g.setTargetIatMs ms = some g' ∧ g'.Ordered := by
  unfold setTargetIatMs
  split
  · obtain ⟨z, hz⟩ := Double.exists_clamp h ms
    rw [hz]
    exact ⟨_, rfl, h⟩
  · exact ⟨g, rfl, h⟩

theorem Ordered.exists_clampedSample (h : g.Ordered) :
    ∃ ms rng, g.clampedSample F = some (ms, rng) := by
  obtain ⟨z, hz⟩ := Double.exists_clamp h (rawSample F g.config g.rng).1
  exact ⟨z, (rawSample F g.config g.rng).2, congrArg (Option.map (·, _)) hz⟩

/-- A generator with an ordered range returns a delay, however often it redraws.  The
    induction is on the rejections left. -/
theorem Ordered.exists_nextDelayFrom (h : g.Ordered) (left : Nat) :
    ∃ ms g', nextDelayFrom F g left = some (ms, g') ∧ g'.Ordered := by
  induction left generalizing g with
  | zero =>
      obtain ⟨ms, rng, hms⟩ := h.exists_clampedSample (F := F)
      rw [nextDelayFrom, hms]
      exact ⟨ms, _, rfl, h⟩
  | succ left ih =>
      obtain ⟨ms, rng, hms⟩ := h.exists_clampedSample (F := F)
      rw [nextDelayFrom, hms]
      show ∃ _ _, (if g.dissimilar F ms then _ else _) = _ ∧ _
      split
      · exact ⟨ms, _, rfl, h⟩
      · exact ih h

theorem Ordered.exists_nextDelayMs (h : g.Ordered) :
    ∃ ms g', g.nextDelayMs F = some (ms, g') ∧ g'.Ordered :=
  h.exists_nextDelayFrom _

end SpectralIatGenerator

end MixTor
