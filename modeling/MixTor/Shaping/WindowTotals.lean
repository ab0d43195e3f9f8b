/-
  MixTor.Shaping.WindowTotals

  What one window of the differentially private shaper shows on the wire
  (dp_shaper.rs): the real bytes and the dummies beside them, over every value
  the Laplace noise can take.

  The arithmetic is exact.  The inverse CDF reaches every real number, and a
  negative sample adds no dummies: a total leaves every real volume up to it
  possible and rules out every one above it.
-/

import MixTor.Shaping.CoverBudget
import Mathlib.Analysis.SpecialFunctions.Log.Basic

namespace MixTor

namespace DpShaper

-- ============================================================================
-- The total of a window
-- ============================================================================

section Total

variable {K : Type*} [Field K] [LinearOrder K] [FloorSemiring K]

/-- The dummy bytes `decide_window` adds; a NaN sample (`none`) is above nothing. -/
def dummyBytes (realBytes : Nat) : Option K → Nat
  | none => 0
  | some noise =>
      let target := (realBytes : K) + noise
      if (realBytes : K) < target then
        min ⌊target - (realBytes : K) + 1 / 2⌋₊ (2 ^ 64 - 1)
      else 0

/-- What goes out in the window. -/
def windowTotal (realBytes : Nat) (noise : Option K) : Nat :=
  realBytes + dummyBytes realBytes noise

theorem le_windowTotal (realBytes : Nat) (noise : Option K) :
    realBytes ≤ windowTotal realBytes noise :=
  Nat.le_add_right realBytes _

theorem dummyBytes_lt (realBytes : Nat) (noise : Option K) :
    dummyBytes realBytes noise < 2 ^ 64 := by
  cases noise with
  | none => exact Nat.two_pow_pos 64
  | some noise =>
      simp only [dummyBytes]
      split <;> omega

theorem dummyBytes_zero (realBytes : Nat) : dummyBytes realBytes (some (0 : K)) = 0 := by
  rw [dummyBytes, add_zero, if_neg (lt_irrefl _)]

/-- A sample that is a number of bytes adds this many. -/
theorem dummyBytes_natCast [IsStrictOrderedRing K] (realBytes : Nat) {d : Nat}
    (hd : d < 2 ^ 64) : dummyBytes realBytes (some (d : K)) = d := by
  obtain rfl | hpos := Nat.eq_zero_or_pos d
  · rw [Nat.cast_zero, dummyBytes_zero]
  · have hlt : (realBytes : K) < realBytes + d :=
      lt_add_of_pos_right _ (Nat.cast_pos.mpr hpos)
    have hfloor : ⌊(d : K) + 1 / 2⌋₊ = d := by
      rw [add_comm, Nat.floor_add_natCast (by positivity), Nat.floor_eq_zero.mpr (by norm_num),
        zero_add]
    rw [dummyBytes, if_pos hlt, add_sub_cancel_left, hfloor]
    omega

end Total

/-- A comparison and a difference of the shaper's own arithmetic, where nothing rounds. -/
theorem roundAsUsize_eq_dummyBytes (realBytes : Nat) (x : Rat) :
    (if Double.lt (.finite realBytes) (.finite (realBytes + x)) then
      Double.roundAsUsize (.finite (realBytes + x - realBytes)) else 0)
      = dummyBytes realBytes (some x) := by
  simp only [Double.lt, decide_eq_true_eq, Double.roundAsUsize, F64.roundAsU64, dummyBytes]
  rfl

theorem ofRat_of_abs_lt {F : F64} (hexact : F.round = id) {x : Rat}
    (hx : |x| < Double.overflow) : Double.ofRat F x = .finite x := by
  obtain ⟨hneg, hpos⟩ := abs_lt.mp hx
  rw [Double.ofRat, hexact, id, if_neg (not_le.mpr hpos), if_neg (not_le.mpr hneg)]

/-- A sample that is a number adds these dummies, where nothing rounds. -/
theorem decideWindow_dummyBytes {ρ : Type} [RngCore ρ] {F : F64} (hexact : F.round = id)
    (s : DpShaper ρ) {realBytes : Nat} {x : Rat}
    (hnoise : (s.decideWindow F realBytes).1.noiseSample = .finite x)
    (hsum : realBytes + |x| < Double.overflow) :
    (s.decideWindow F realBytes).1.dummyBytes = dummyBytes realBytes (some x) := by
  have hnoise' : (Double.laplaceSample F s.rng (s.config.noiseScale F)).1 = .finite x := hnoise
  have hr : |(realBytes : Rat)| = realBytes := Nat.abs_cast realBytes
  have hofNat : Double.ofNat F realBytes = .finite realBytes :=
    ofRat_of_abs_lt hexact (by linarith [abs_nonneg x])
  have hadd : Double.add F (.finite realBytes) (.finite x) = .finite (realBytes + x) :=
    ofRat_of_abs_lt hexact (by linarith [abs_add_le (realBytes : Rat) x])
  have hsub : Double.sub F (.finite (realBytes + x)) (.finite realBytes)
      = .finite (realBytes + x - realBytes) := by
    rw [sub_eq_add_neg]
    refine ofRat_of_abs_lt hexact ?_
    rw [← sub_eq_add_neg, add_sub_cancel_left]
    have hnonneg : (0 : Rat) ≤ realBytes := Nat.cast_nonneg realBytes
    linarith
  rw [← roundAsUsize_eq_dummyBytes, ← hsub, ← hadd, ← hofNat, ← hnoise']
  rfl

/-- A NaN sample adds none, whatever rounds. -/
theorem decideWindow_dummyBytes_nan {ρ : Type} [RngCore ρ] {F : F64} (s : DpShaper ρ)
    {realBytes : Nat} (hnoise : (s.decideWindow F realBytes).1.noiseSample = .nan) :
    (s.decideWindow F realBytes).1.dummyBytes = 0 := by
  have hnoise' : (Double.laplaceSample F s.rng (s.config.noiseScale F)).1 = .nan := hnoise
  have hlt : (Double.ofNat F realBytes).lt .nan = false := by
    cases Double.ofNat F realBytes <;> rfl
  simp only [decideWindow, hnoise', Double.add_nan, hlt, Bool.false_eq_true, if_false]

/-- A sample in the shaper's own arithmetic. -/
def asDouble : Option Rat → Double
  | none => .nan
  | some x => .finite x

/-- Without rounding, the shaper's own decision has this total. -/
theorem decideWindow_total {ρ : Type} [RngCore ρ] {F : F64} (hexact : F.round = id)
    (s : DpShaper ρ) {realBytes : Nat} {noise : Option Rat}
    (hnoise : (s.decideWindow F realBytes).1.noiseSample = asDouble noise)
    (hsum : ∀ x ∈ noise, realBytes + |x| < Double.overflow) :
    (s.decideWindow F realBytes).1.realBytes + (s.decideWindow F realBytes).1.dummyBytes
      = windowTotal realBytes noise := by
  cases noise with
  | none =>
      rw [decideWindow_dummyBytes_nan s hnoise]
      rfl
  | some x =>
      rw [decideWindow_dummyBytes hexact s hnoise (hsum x rfl)]
      rfl

-- ============================================================================
-- The noise
-- ============================================================================

/-- `laplace_sample` where the generator returned `u`. -/
noncomputable def laplaceValue (scale u : ℝ) : ℝ :=
  let v := u - 1 / 2;
  -scale * (if v < 0 then -1 else 1) * Real.log (1 - 2 * |v|)

theorem laplaceValue_zero (u : ℝ) : laplaceValue 0 u = 0 := by
  rw [laplaceValue, neg_zero, zero_mul, zero_mul]

/-- The inverse CDF reaches every real number: below the median through `exp (x / b) / 2`,
    above it through one minus this. -/
theorem exists_laplaceValue {b : ℝ} (hb : 0 < b) (x : ℝ) :
    ∃ u, 0 < u ∧ u < 1 ∧ laplaceValue b u = x := by
  obtain hx | hx := lt_or_ge x 0
  · have hpos := Real.exp_pos (x / b)
    have hlt : Real.exp (x / b) < 1 := Real.exp_lt_one_iff.mpr (div_neg_of_neg_of_pos hx hb)
    refine ⟨Real.exp (x / b) / 2, by linarith, by linarith, ?_⟩
    have hv : Real.exp (x / b) / 2 - 1 / 2 < 0 := by linarith
    have harg : 1 - 2 * |Real.exp (x / b) / 2 - 1 / 2| = Real.exp (x / b) := by
      rw [abs_of_neg hv]
      ring
    rw [laplaceValue, if_pos hv, harg, Real.log_exp]
    field_simp
  · have hpos := Real.exp_pos (-(x / b))
    have hle : Real.exp (-(x / b)) ≤ 1 :=
      Real.exp_le_one_iff.mpr (neg_nonpos.mpr (div_nonneg hx hb.le))
    refine ⟨1 - Real.exp (-(x / b)) / 2, by linarith, by linarith, ?_⟩
    have hv : 0 ≤ 1 - Real.exp (-(x / b)) / 2 - 1 / 2 := by linarith
    have harg : 1 - 2 * |1 - Real.exp (-(x / b)) / 2 - 1 / 2| = Real.exp (-(x / b)) := by
      rw [abs_of_nonneg hv]
      ring
    rw [laplaceValue, if_neg (not_lt.mpr hv), harg, Real.log_exp]
    field_simp

/-- The scale `max_real_bytes_per_window / epsilon`; NaN has none. -/
noncomputable def scale (c : DpShaperConfig) : Option ℝ :=
  match c.epsilon with
  | .finite e => some (c.maxRealBytesPerWindow / e)
  | .inf _ => some 0
  | .nan => none

/-- The samples of the noise under `c`, the generator being uniform on (0, 1). -/
def NoiseValues (c : DpShaperConfig) : Set (Option ℝ) :=
  {noise | ∃ u, 0 < u ∧ u < 1 ∧ noise = (scale c).map fun b => laplaceValue b u}

/-- Some noise makes a window of `realBytes` show `total` bytes. -/
def CanShow (c : DpShaperConfig) (realBytes total : Nat) : Prop :=
  ∃ noise ∈ NoiseValues c, windowTotal realBytes noise = total

-- ============================================================================
-- What a total says about the real volume
-- ============================================================================

variable {c : DpShaperConfig} {realBytes total : Nat}

/-- An accepted epsilon that is a number lets the noise be any real number. -/
theorem mem_noiseValues_of_finite (hok : c.validate = .ok c) {e : Rat}
    (he : c.epsilon = .finite e) (x : ℝ) : some x ∈ NoiseValues c := by
  have hpos : 0 < e := by
    have hle := (DpShaperConfig.validate_eq_ok hok).2
    rw [he] at hle
    simpa [Double.le] using hle
  have hmax : 0 < c.maxRealBytesPerWindow := by
    simp only [DpShaperConfig.validate, guard_eq_ok] at hok
    exact Nat.pos_of_ne_zero hok.2.2.1
  have hscale : scale c = some (c.maxRealBytesPerWindow / e : ℝ) := by
    rw [scale, he]
  have hb : (0 : ℝ) < c.maxRealBytesPerWindow / e :=
    div_pos (Nat.cast_pos.mpr hmax) (Rat.cast_pos.mpr hpos)
  obtain ⟨u, hu0, hu1, hx⟩ := exists_laplaceValue hb x
  exact ⟨u, hu0, hu1, by rw [hscale, Option.map_some, hx]⟩

/-- With such an epsilon a window of `realBytes` can show every total from `realBytes` on,
    up to the most dummies a cast gives. -/
theorem canShow_iff_of_finite (hok : c.validate = .ok c) {e : Rat} (he : c.epsilon = .finite e) :
    CanShow c realBytes total ↔ realBytes ≤ total ∧ total < realBytes + 2 ^ 64 := by
  constructor
  · rintro ⟨noise, -, rfl⟩
    exact ⟨le_windowTotal realBytes noise,
      Nat.add_lt_add_left (dummyBytes_lt realBytes noise) realBytes⟩
  · rintro ⟨hle, hlt⟩
    refine ⟨some ((total - realBytes : Nat) : ℝ), mem_noiseValues_of_finite hok he _, ?_⟩
    rw [windowTotal, dummyBytes_natCast realBytes (by omega)]
    exact Nat.add_sub_cancel' hle

/-- With an infinite epsilon the noise is zero, with NaN it is NaN: nothing is added. -/
theorem dummyBytes_of_not_finite (hne : ∀ e, c.epsilon ≠ .finite e) {noise : Option ℝ}
    (hmem : noise ∈ NoiseValues c) : dummyBytes realBytes noise = 0 := by
  obtain ⟨u, -, -, rfl⟩ := hmem
  cases he : c.epsilon with
  | nan =>
      rw [scale, he]
      rfl
  | inf negative =>
      rw [scale, he, Option.map_some, laplaceValue_zero, dummyBytes_zero]
  | finite e => exact absurd he (hne e)

theorem canShow_iff_of_not_finite (hne : ∀ e, c.epsilon ≠ .finite e) :
    CanShow c realBytes total ↔ realBytes = total := by
  constructor
  · rintro ⟨noise, hmem, rfl⟩
    rw [windowTotal, dummyBytes_of_not_finite hne hmem, Nat.add_zero]
  · rintro rfl
    have hmem : (scale c).map (fun b => laplaceValue b (1 / 2)) ∈ NoiseValues c :=
      ⟨1 / 2, by norm_num, by norm_num, rfl⟩
    exact ⟨_, hmem, by rw [windowTotal, dummyBytes_of_not_finite hne hmem, Nat.add_zero]⟩

/-- What a window of `realBytes` that showed `total` leaves possible as the real volume. -/
def LeavesPossible (c : DpShaperConfig) (realBytes total realBytes' : Nat) : Prop :=
  match c.epsilon with
  | .finite _ => realBytes' ≤ total ∧ total < realBytes' + 2 ^ 64
  | _ => realBytes' = realBytes

/-- What a window of one volume showed, a window of another can show exactly if that volume
    is not above it.  Without noise the total is the volume. -/
theorem canShow_shared_iff {c c' : DpShaperConfig} (hok : c.validate = .ok c')
    {realBytes realBytes' total : Nat} (hshow : CanShow c' realBytes total) :
    CanShow c' realBytes' total ↔ LeavesPossible c' realBytes total realBytes' := by
  obtain ⟨rfl, -⟩ := DpShaperConfig.validate_eq_ok hok
  unfold LeavesPossible
  split
  · next e he => exact canShow_iff_of_finite hok he
  · next hne =>
    have hneq : ∀ e, c'.epsilon ≠ .finite e := fun e he => hne e he
    rw [canShow_iff_of_not_finite hneq, (canShow_iff_of_not_finite hneq).mp hshow]

/-- The default passes its own check. -/
theorem validate_default :
    DpShaperConfig.default.validate = .ok DpShaperConfig.default := by
  simp [DpShaperConfig.validate, DpShaperConfig.default, Double.le]

/-- Three bytes shown by an idle window can come from a window of two. -/
theorem canShow_shared_iff_sample :
    CanShow .default 2 3 ↔ LeavesPossible .default 0 3 2 :=
  canShow_shared_iff validate_default
    ((canShow_iff_of_finite validate_default rfl).mpr ⟨Nat.zero_le 3, by decide⟩)

/-- An empty window says that there was no real byte. -/
theorem canShow_empty :
    DpShaperConfig.default.validate = .ok .default ∧
      0 ≤ DpShaperConfig.default.maxRealBytesPerWindow ∧
      1 ≤ DpShaperConfig.default.maxRealBytesPerWindow ∧
      CanShow .default 0 0 ∧ ¬ CanShow .default 1 0 := by
  refine ⟨validate_default, by decide, by decide, ?_, ?_⟩
  · exact (canShow_iff_of_finite validate_default rfl).mpr ⟨le_rfl, by decide⟩
  · rintro ⟨noise, -, hnoise⟩
    have hle : 1 ≤ windowTotal 1 noise := le_windowTotal 1 noise
    omega

end DpShaper

end MixTor
