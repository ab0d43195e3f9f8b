/-
  MixTor.Shaping.CoverBudget

  What decides how much cover goes out: the differentially private shaper
  (dp_shaper.rs), the accountant of its budget (privacy_accountant.rs), and the
  bounder that pads a session to its class (session_bounder.rs).
-/

import MixTor.Shaping.Double
import MixTor.Transport.Tail

namespace MixTor

-- ============================================================================
-- The differentially private shaper
-- ============================================================================

structure DpShaperConfig where
  epsilon : Double
  windowMs : Nat
  maxRealBytesPerWindow : Nat
  deriving DecidableEq, Repr

inductive DpShaperError where
  | invalidConfig (msg : String)
  deriving DecidableEq, Repr

namespace DpShaperConfig

def default : DpShaperConfig := ⟨.finite (1 / 2), 100, 64 * 1024⟩

/-- Laplace noise scale. -/
def noiseScale (F : F64) (c : DpShaperConfig) : Double :=
  .div F (.ofNat F c.maxRealBytesPerWindow) c.epsilon

def validate (c : DpShaperConfig) : Except DpShaperError DpShaperConfig :=
  if c.epsilon.le (.finite 0) then .error (.invalidConfig "epsilon must be positive")
  else if c.windowMs = 0 then .error (.invalidConfig "window_ms must be non-zero")
  else if c.maxRealBytesPerWindow = 0 then
    .error (.invalidConfig "max_real_bytes_per_window must be non-zero")
  else .ok c

/-- An accepted configuration is the given one, and its epsilon is not zero or less.
    It can be NaN. -/
theorem validate_eq_ok {c c' : DpShaperConfig} (h : c.validate = .ok c') :
    c' = c ∧ c.epsilon.le (.finite 0) = false := by
  simp only [validate, guard_eq_ok, Bool.not_eq_true] at h
  obtain ⟨hpos, -, -, hok⟩ := h
  exact ⟨(Except.ok.inj hok).symm, hpos⟩

end DpShaperConfig

/-- The decision for one window. -/
structure WindowDecision where
  realBytes : Nat
  dummyBytes : Nat
  noiseSample : Double
  epsilonSpent : Double
  deriving DecidableEq, Repr

structure DpShaper (ρ : Type) where
  config : DpShaperConfig
  rng : ρ

namespace DpShaper

variable {ρ : Type} [RngCore ρ]

def new (config : DpShaperConfig) (rng : ρ) : Except DpShaperError (DpShaper ρ) :=
  config.validate.map fun config => ⟨config, rng⟩

/-- How many dummy bytes go out beside `realBytes` in this window. -/
def decideWindow (F : F64) (s : DpShaper ρ) (realBytes : Nat) : WindowDecision × DpShaper ρ :=
  let (noise, rng) := Double.laplaceSample F s.rng (s.config.noiseScale F)
  let target := Double.add F (.ofNat F realBytes) noise
  let dummyBytes :=
    if (Double.ofNat F realBytes).lt target then
      (Double.sub F target (.ofNat F realBytes)).roundAsUsize
    else 0
  (⟨realBytes, dummyBytes, noise, s.config.epsilon⟩, { s with rng })

@[simp] theorem decideWindow_config (F : F64) (s : DpShaper ρ) (realBytes : Nat) :
    (s.decideWindow F realBytes).2.config = s.config := rfl

@[simp] theorem decideWindow_epsilonSpent (F : F64) (s : DpShaper ρ) (realBytes : Nat) :
    (s.decideWindow F realBytes).1.epsilonSpent = s.config.epsilon := rfl

end DpShaper

-- ============================================================================
-- The privacy accountant
-- ============================================================================

inductive CompositionMethod where
  | basic
  | advancedRdp
  | zeroConcentrated
  deriving DecidableEq, Repr

structure AccountingResult where
  epsilonSpent : Double
  epsilonRemaining : Double
  deltaSpent : Double
  queryCount : Nat
  budgetFractionUsed : Double
  exceeded : Bool
  deriving DecidableEq, Repr

structure PrivacyAccountant where
  budget : Double
  method : CompositionMethod
  epsilonSpent : Double
  deltaSpent : Double
  queryCount : Nat
  startedAt : Instant
  budgetExceeded : Bool
  deriving DecidableEq, Repr

namespace PrivacyAccountant

/-- The budget is asserted to be positive. -/
def new (clk : Clock) (budget : Double) (method : CompositionMethod) :
    Option (PrivacyAccountant × Clock) :=
  if Double.lt (.finite 0) budget then
    some (⟨budget, method, .finite 0, .finite 0, 0, clk.now, false⟩, clk.later)
  else none

def status (F : F64) (a : PrivacyAccountant) : AccountingResult where
  epsilonSpent := a.epsilonSpent
  epsilonRemaining := (Double.sub F a.budget a.epsilonSpent).max (.finite 0)
  deltaSpent := a.deltaSpent
  queryCount := a.queryCount
  budgetFractionUsed := .div F a.epsilonSpent a.budget
  exceeded := a.budgetExceeded

/-- Record a query.  Its epsilon is asserted not to be negative; every method falls back
    to basic composition. -/
def recordQuery (F : F64) (a : PrivacyAccountant) (epsilon : Double) :
    Option (AccountingResult × PrivacyAccountant) :=
  if Double.le (.finite 0) epsilon then
    let epsilonSpent := Double.add F a.epsilonSpent epsilon
    let a := { a with
      queryCount := a.queryCount + 1
      epsilonSpent
      budgetExceeded := a.budgetExceeded || a.budget.lt epsilonSpent }
    some (a.status F, a)
  else none

theorem recordQuery_eq_none {F : F64} {a : PrivacyAccountant} {epsilon : Double} :
    a.recordQuery F epsilon = none ↔ Double.le (.finite 0) epsilon = false := by
  unfold recordQuery
  split
  · next h => simp [h]
  · next h => simpa using h

end PrivacyAccountant

/-- An epsilon that a shaper accepts is refused by the accountant exactly if it is NaN. -/
theorem DpShaperConfig.le_epsilon_iff {c c' : DpShaperConfig} (h : c.validate = .ok c') :
    Double.le (.finite 0) c'.epsilon = true ↔ c'.epsilon ≠ .nan := by
  obtain ⟨rfl, hle⟩ := validate_eq_ok h
  constructor
  · intro h0 hnan
    rw [hnan, Double.le_nan] at h0
    cases h0
  · exact fun hne => Double.le_of_not_le nofun hne hle

-- ============================================================================
-- The session bounder
-- ============================================================================

structure SessionBounder where
  sessionClass : SessionClass
  realBytesSent : Nat
  sessionStart : Instant
  deriving DecidableEq, Repr

namespace SessionBounder

def new (clk : Clock) (sessionClass : SessionClass) : SessionBounder × Clock :=
  (⟨sessionClass, 0, clk.now⟩, clk.later)

def recordRealBytes (b : SessionBounder) (bytes : Nat) : SessionBounder :=
  { b with realBytesSent := min (b.realBytesSent + bytes) (2 ^ 64 - 1) }

/-- Dummy bytes to emit now to stay on the linear schedule to the volume target. -/
def dummyBytesNeededNow (F : F64) (clk : Clock) (b : SessionBounder) (dummyBytesEmitted : Nat) :
    Nat × Clock :=
  let totalPadding := b.sessionClass.targetVolumeBytes - b.realBytesSent
  if totalPadding = 0 then (0, clk)
  else
    let elapsed := Double.finite (Duration.asSecsF64 F (clk.now - b.sessionStart))
    let target := Double.finite (Duration.asSecsF64 F b.sessionClass.targetDuration)
    let progress := (Double.div F elapsed target).min (.finite 1)
    let expectedSoFar := (Double.mul F (.ofNat F totalPadding) progress).roundAsUsize
    (expectedSoFar - dummyBytesEmitted, clk.later)

end SessionBounder

end MixTor
