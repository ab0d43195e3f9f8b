/-
  MixTor.Shaping.DrainRuns

  Draining the scheduler in every state of its runs (timing_correlator.rs).

  A drain ends in a state exactly if the mean interval is a number there.  At the start
  the mean is `initial_iat_ms`, and `validate` rejects only what is at most 0, so NaN
  passes.  Later only an accepted packet moves the mean, at an adaptive rate and from the
  second arrival on: the average is NaN if `ema_alpha` is, which `validate` lets through
  as well, or if an infinite mean is weighted with zero.  The clamp keeps NaN as it is.
-/

import MixTor.Shaping.DrainReady
import MixTor.Shaping.SlotQueue

namespace MixTor

/-- The time between two instants is not negative. -/
theorem Duration.asSecsF64_nonneg {F : F64} (hF : F.Lawful) (d : Duration) :
    0 ≤ Duration.asSecsF64 F d := by
  have hround : ∀ x : Rat, 0 ≤ x → 0 ≤ F.round x := fun x hx => by
    have hzero := hF.round_natCast 0 (Nat.zero_le _)
    rw [Nat.cast_zero] at hzero
    rw [← hzero]
    exact hF.round_mono hx
  refine hround _ (add_nonneg (hround _ (Nat.cast_nonneg _)) (hround _ ?_))
  positivity

namespace TimingCorrelator

variable {ρ : Type} [RngCore ρ] {F : F64} {tc tc' : TimingCorrelator ρ} {m : Rat}

omit [RngCore ρ] in
/-- The smoothing factor is in `(0, 1]`, or NaN. -/
theorem exists_emaAlpha (tc : TimingCorrelator ρ) (hnumber : tc.config.emaAlpha ≠ .nan) :
    ∃ a : Rat, tc.config.emaAlpha = .finite a ∧ 0 < a ∧ a ≤ 1 := by
  have hpos := tc.config_valid.emaAlpha_pos
  have hle := tc.config_valid.emaAlpha_le
  cases halpha : tc.config.emaAlpha with
  | nan => exact absurd halpha hnumber
  | inf b =>
      rw [halpha] at hpos hle
      cases b with
      | true => cases hpos
      | false => cases hle
  | finite a =>
      rw [halpha] at hpos hle
      exact ⟨a, rfl, not_le.mp (of_decide_eq_false hpos), not_lt.mp (of_decide_eq_false hle)⟩

/-- The next average is a number: the smoothing factor is one, and an infinite mean keeps
    some weight. -/
def AveragesNumber (F : F64) (tc : TimingCorrelator ρ) : Prop :=
  tc.config.emaAlpha ≠ .nan ∧
    (tc.meanIatMs = .inf false → Double.sub F (.finite 1) tc.config.emaAlpha ≠ .finite 0)

instance (F : F64) (tc : TimingCorrelator ρ) : Decidable (tc.AveragesNumber F) :=
  inferInstanceAs (Decidable (_ ∧ _))

/-- The weight of the old mean is a number that is not negative. -/
theorem exists_weight (hF : F.Lawful) {a : Rat} (h0 : 0 < a) (h1 : a ≤ 1) :
    ∃ w : Rat, Double.sub F (.finite 1) (.finite a) = .finite w ∧ 0 ≤ w := by
  have hround : F.round (1 + -a) ≤ 1 := by
    have hone := hF.round_natCast 1 (by decide)
    rw [Nat.cast_one] at hone
    rw [← hone]
    exact hF.round_mono (by linarith)
  have hsub : Double.sub F (.finite 1) (.finite a) = .ofRat F (1 + -a) := rfl
  have hnonneg := Double.ofRat_nonneg hF (show 0 ≤ 1 + -a by linarith)
  rw [hsub]
  unfold Double.ofRat at hnonneg ⊢
  have hover : ¬ Double.overflow ≤ F.round (1 + -a) :=
    not_le.mpr (hround.trans_lt Double.one_lt_overflow)
  rw [if_neg hover] at hnonneg ⊢
  split
  · next hlow =>
    rw [if_pos hlow] at hnonneg
    cases hnonneg
  · next hlow =>
    rw [if_neg hlow] at hnonneg
    exact ⟨_, rfl, of_decide_eq_true hnonneg⟩

omit [RngCore ρ] in
/-- **When an average is a number.** -/
theorem observeArrival_ne_nan (hF : F.Lawful) (hmean : Double.le (.finite 0) tc.meanIatMs = true)
    {last : Instant} (hlast : tc.lastRealArrival = some last) (now : Instant) :
    observeArrival F tc now ≠ .nan ↔ tc.AveragesNumber F := by
  simp only [observeArrival, hlast]
  constructor
  · intro hne
    refine ⟨fun hnan => hne ?_, fun hinf hzero => hne ?_⟩
    · rw [hnan, Double.nan_mul, Double.nan_add, Double.clamped_nan]
    · rw [hinf, hzero, show Double.mul F (.finite 0) (.inf false) = .nan from rfl,
        Double.add_nan, Double.clamped_nan]
  · rintro ⟨hnumber, hweight⟩
    obtain ⟨a, halpha, h0, h1⟩ := tc.exists_emaAlpha hnumber
    rw [halpha] at hweight ⊢
    obtain ⟨w, hw, hw0⟩ := exists_weight hF h0 h1
    rw [hw] at hweight ⊢
    have hiat := Double.finite_mul_nonneg hF (Duration.asSecsF64_nonneg hF (now - last))
      (show Double.le (.finite 0) (.finite 1000) = true by decide) fun h => by cases h
    have hnew := Double.finite_mul_nonneg hF h0.le hiat fun _ => h0.ne'
    have hold := Double.finite_mul_nonneg hF hw0 hmean fun hinf hzero =>
      hweight hinf (congrArg _ hzero)
    have hsum := Double.add_nonneg hF hnew hold
    have hclamp := Double.le_clamped tc.bounds_ordered (Double.ne_nan_of_le hsum).2
    exact (Double.ne_nan_of_le hclamp.1).2

/-- The least interval is `m`, at least 1 ms, and the mean is a number that is not
    negative. -/
structure NumberMean (m : Rat) (tc : TimingCorrelator ρ) : Prop where
  minIatMs : tc.config.minIatMs = .finite m
  one_le : 1 ≤ m
  mean : Double.le (.finite 0) tc.meanIatMs = true

omit [RngCore ρ] in
theorem NumberMean.of_same (h : tc.NumberMean m) (hcfg : tc'.config = tc.config)
    (hmean : tc'.meanIatMs = tc.meanIatMs) : tc'.NumberMean m :=
  ⟨hcfg ▸ h.minIatMs, h.one_le, hmean ▸ h.mean⟩

/-- An injection moves the mean: the packet is accepted, at an adaptive rate, and there is
    an arrival before it. -/
def Adapts (tc : TimingCorrelator ρ) : Prop :=
  tc.hasQueueSpace = true ∧ tc.config.adaptRate = true ∧ tc.lastRealArrival.isSome = true

instance (tc : TimingCorrelator ρ) : Decidable tc.Adapts :=
  inferInstanceAs (Decidable (_ ∧ _))

omit [RngCore ρ] in
/-- What an accepted injection does to the mean. -/
theorem injectReal_mean {clk : Clock} {packet : Packet}
    (h : (injectReal F clk tc packet).1 = .ok tc') :
    tc'.config = tc.config ∧ ((¬ tc.Adapts ∧ tc'.meanIatMs = tc.meanIatMs) ∨
      tc.Adapts ∧ tc'.meanIatMs = observeArrival F tc clk.now) := by
  unfold injectReal at h
  split at h
  · cases h
  · next hroom =>
    have hspace : tc.hasQueueSpace = true := decide_eq_true (not_le.mp hroom)
    dsimp only at h
    split at h
    · next hadapt =>
      cases hlast : tc.lastRealArrival with
      | none =>
          simp only [hlast] at h
          obtain rfl := Except.ok.inj h
          exact ⟨rfl, .inl ⟨fun ha => by simp [Adapts, hlast] at ha, rfl⟩⟩
      | some last =>
          simp only [hlast] at h
          obtain rfl := Except.ok.inj h
          exact ⟨rfl, .inr ⟨⟨hspace, hadapt, by rw [hlast]; rfl⟩, rfl⟩⟩
    · next hadapt =>
      obtain rfl := Except.ok.inj h
      exact ⟨rfl, .inl ⟨fun ha => hadapt ha.2.1, rfl⟩⟩

end TimingCorrelator

-- ============================================================================
-- Runs
-- ============================================================================

namespace SlotQueue

open TimingCorrelator

variable {ρ : Type} [RngCore ρ] {F : F64} {s t : SlotQueue ρ} {m : Rat}

/-- The step leaves a number for the mean: if it is an injection that moves it, the
    average is one. -/
def KeepsNumber (F : F64) (s : SlotQueue ρ) : Event → Prop
  | .injectReal _ _ => s.tc.Adapts → s.tc.AveragesNumber F
  | _ => True

instance (F : F64) (s : SlotQueue ρ) : (e : Event) → Decidable (s.KeepsNumber F e)
  | .injectReal _ _ => inferInstanceAs (Decidable (s.tc.Adapts → s.tc.AveragesNumber F))
  | .tick _ => inferInstanceAs (Decidable True)
  | .restartClock _ => inferInstanceAs (Decidable True)

/-- A step keeps the configuration, and the mean unless it is an injection that moves it. -/
theorem step_mean {e : Event} (hstep : step F s e = some t) :
    t.tc.config = s.tc.config ∧ (t.tc.meanIatMs = s.tc.meanIatMs ∨
      ∃ clk packet, e = .injectReal clk packet ∧ s.tc.Adapts ∧
        t.tc.meanIatMs = observeArrival F s.tc clk.now) := by
  cases e with
  | injectReal clk packet =>
      rw [step] at hstep
      split at hstep
      · next tc clk' hinj =>
        obtain rfl := Option.some.inj hstep
        obtain ⟨hcfg, ⟨-, hmean⟩ | ⟨hadapts, hmean⟩⟩ :=
          injectReal_mean (congrArg Prod.fst hinj)
        · exact ⟨hcfg, .inl hmean⟩
        · exact ⟨hcfg, .inr ⟨clk, packet, rfl, hadapts, hmean⟩⟩
      · obtain rfl := Option.some.inj hstep
        exact ⟨rfl, .inl rfl⟩
  | tick clk =>
      rw [step] at hstep
      rcases tick_slot (F := F) clk s.tc with ⟨clk', htick⟩ | ⟨frame, tc, clk', htick, hslot⟩
      · rw [htick] at hstep
        obtain rfl := Option.some.inj hstep
        exact ⟨rfl, .inl rfl⟩
      · rw [htick] at hstep
        obtain rfl := Option.some.inj hstep
        cases hslot with
        | real _ _ _ same => exact ⟨same.1, .inl same.2⟩
        | dummy _ _ _ same => exact ⟨same.1, .inl same.2⟩
  | restartClock clk =>
      obtain rfl := Option.some.inj hstep
      exact ⟨rfl, .inl rfl⟩

theorem step_numberMean (hF : F.Lawful) {e : Event} (h : s.tc.NumberMean m)
    (hkeeps : s.KeepsNumber F e) (hstep : step F s e = some t) : t.tc.NumberMean m := by
  obtain ⟨hcfg, hmean | ⟨clk, packet, rfl, hadapts, hmean⟩⟩ := step_mean hstep
  · exact h.of_same hcfg hmean
  · obtain ⟨last, hlast⟩ := Option.isSome_iff_exists.mp hadapts.2.2
    have hne := (observeArrival_ne_nan hF h.mean hlast clk.now).mpr (hkeeps hadapts)
    have hbounded := (observeArrival_bounded F s.tc hlast clk.now).resolve_left hne
    rw [h.minIatMs] at hbounded
    refine ⟨hcfg ▸ h.minIatMs, h.one_le, hmean ▸ ?_⟩
    exact Double.le_trans_finite (zero_le_one.trans h.one_le) hbounded.1

/-- A step outside the condition leaves a mean of NaN. -/
theorem step_nan (hF : F.Lawful) {e : Event} (h : s.tc.NumberMean m)
    (hbad : ¬ s.KeepsNumber F e) (hstep : step F s e = some t) : t.tc.meanIatMs = .nan := by
  cases e with
  | injectReal clk packet =>
      obtain ⟨hadapts, hnumber⟩ := Classical.not_imp.mp hbad
      obtain ⟨last, hlast⟩ := Option.isSome_iff_exists.mp hadapts.2.2
      have hnan := not_not.mp ((observeArrival_ne_nan hF h.mean hlast clk.now).not.mpr hnumber)
      rw [step] at hstep
      split at hstep
      · next tc clk' hinj =>
        obtain rfl := Option.some.inj hstep
        obtain ⟨-, ⟨hnot, -⟩ | ⟨-, hmean⟩⟩ := injectReal_mean (congrArg Prod.fst hinj)
        · exact absurd hadapts hnot
        · exact hmean.trans hnan
      · next e clk' hinj =>
        have hroom : ¬ s.tc.config.maxQueueDepth ≤ s.tc.realQueue.length :=
          not_le.mpr (of_decide_eq_true hadapts.1)
        rw [TimingCorrelator.injectReal, dif_neg hroom] at hinj
        dsimp only at hinj
        rw [if_pos hadapts.2.1, hlast] at hinj
        cases hinj
  | tick clk => exact absurd trivial hbad
  | restartClock clk => exact absurd trivial hbad

/-- A scheduler whose mean follows the packets, from 5 ms on. -/
def adaptiveConfig : TimingCorrelatorConfig where
  cellBytes := 514
  initialIatMs := .finite 5
  emaAlpha := .finite (1 / 2)
  minIatMs := .finite 2
  maxIatMs := .finite 60
  maxQueueDepth := 64
  adaptRate := true
  minDummyFraction := .finite 0

theorem adaptiveConfig_valid : adaptiveConfig.Valid := by
  constructor <;> decide +kernel

def adaptiveClock : TimingCorrelator FixedRng :=
  (TimingCorrelator.start .steep (.const 0) adaptiveConfig adaptiveConfig_valid (by decide) ⟨0⟩).1

/-- Two packets 15 ms apart take the mean from 5 ms to 10 ms. -/
def twoArrivals : List Event :=
  [.injectReal (.const (Duration.fromMillis 1)) oneBytePacket,
    .injectReal (.const (Duration.fromMillis 16)) oneBytePacket,
    .tick (.const (Duration.fromMillis 60)), .restartClock (.const (Duration.fromMillis 61))]

end SlotQueue

end MixTor
