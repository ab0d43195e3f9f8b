/-
  MixTor.Shaping.Double

  f64 values with what a comparison or a cast can meet: NaN, the infinities, and
  the finite numbers.  The departure clock and the burst path compute with values a
  configuration supplies, and NaN passes every check that is written as "reject if
  below".

  The two zeros are one value; no code modelled here divides by a zero.
-/

import MixTor.Shaping.Basic
import Mathlib.Tactic.Linarith
import Mathlib.Tactic.Positivity

namespace MixTor

/-- An f64. -/
inductive Double where
  | nan
  | inf (negative : Bool)
  | finite (x : Rat)
  deriving DecidableEq, Repr

namespace Double

/-- The least magnitude that overflows. -/
def overflow : Rat := ((2 ^ 1024 : Nat) : Rat)

/-- Round an exact result, to an infinity if it is out of range. -/
def ofRat (F : F64) (x : Rat) : Double :=
  if overflow ≤ F.round x then inf false
  else if F.round x ≤ -overflow then inf true
  else finite (F.round x)

/-- `n as f64`. -/
def ofNat (F : F64) (n : Nat) : Double := ofRat F n

def neg : Double → Double
  | nan => nan
  | inf b => inf !b
  | finite x => finite (-x)

def add (F : F64) : Double → Double → Double
  | finite x, finite y => ofRat F (x + y)
  | finite _, inf b => inf b
  | inf a, finite _ => inf a
  | inf a, inf b => if a = b then inf a else nan
  | _, _ => nan

def sub (F : F64) (x y : Double) : Double := add F x y.neg

def mul (F : F64) : Double → Double → Double
  | finite x, finite y => ofRat F (x * y)
  | finite x, inf b => if x = 0 then nan else inf (xor (decide (x < 0)) b)
  | inf a, finite y => if y = 0 then nan else inf (xor a (decide (y < 0)))
  | inf a, inf b => inf (xor a b)
  | _, _ => nan

def div (F : F64) : Double → Double → Double
  | finite x, finite y =>
      if y = 0 then (if x = 0 then nan else inf (decide (x < 0))) else ofRat F (x / y)
  | finite _, inf _ => finite 0
  | inf a, finite y => inf (xor a (decide (y < 0)))
  | _, _ => nan

def abs : Double → Double
  | nan => nan
  | inf _ => inf false
  | finite x => finite |x|

/-- The natural logarithm. -/
def ln (F : F64) : Double → Double
  | nan => nan
  | inf b => if b then nan else inf false
  | finite x => if x < 0 then nan else if x = 0 then inf true else finite (F.ln x)

/-- `x < y`, false if either is NaN. -/
def lt : Double → Double → Bool
  | finite x, finite y => decide (x < y)
  | finite _, inf b => !b
  | inf a, finite _ => a
  | inf a, inf b => a && !b
  | _, _ => false

/-- `x <= y`, false if either is NaN. -/
def le : Double → Double → Bool
  | finite x, finite y => decide (x ≤ y)
  | finite _, inf b => !b
  | inf a, finite _ => a
  | inf a, inf b => a || !b
  | _, _ => false

/-- `f64::min`: NaN gives way to the other value. -/
def min : Double → Double → Double
  | nan, y => y
  | x, nan => x
  | x, y => if lt y x then y else x

/-- `f64::max`: NaN gives way to the other value. -/
def max : Double → Double → Double
  | nan, y => y
  | x, nan => x
  | x, y => if lt x y then y else x

/-- `f64::clamp` between ordered bounds.  NaN stays NaN. -/
def clamped (x lo hi : Double) : Double := if lt x lo then lo else if lt hi x then hi else x

/-- `f64::clamp`, which asserts that the bounds are ordered; `none` is a panic. -/
def clamp (x lo hi : Double) : Option Double :=
  if le lo hi then some (clamped x lo hi) else none

/-- `f64::signum` of a finite number. -/
def signum (x : Rat) : Double := finite (if x < 0 then -1 else 1)

/-- Sample from Exponential(mean) by the inverse CDF. -/
def exponentialSample {ρ : Type} [RngCore ρ] (F : F64) (rng : ρ) (mean : Double) : Double × ρ :=
  let (u, rng) := genF64 rng
  (mul F mean.neg (ln F (finite (Max.max u F64.epsilon))), rng)

/-- Sample from Laplace(0, scale) by the inverse CDF. -/
def laplaceSample {ρ : Type} [RngCore ρ] (F : F64) (rng : ρ) (scale : Double) : Double × ρ :=
  let (u, rng) := genF64 rng
  let v := u - 1 / 2
  (mul F (mul F scale.neg (signum v)) (ln F (finite (1 - 2 * |v|))), rng)

/-- `x.round() as usize` and `as u64`: half away from zero, then a saturating cast. -/
def roundAsUsize : Double → Nat
  | nan => 0
  | inf b => if b then 0 else 2 ^ 64 - 1
  | finite x => F64.roundAsU64 x

-- ============================================================================
-- Where NaN does not come from, and what a failed comparison says without it
-- ============================================================================

variable {F : F64} {x y lo hi : Double}

@[simp] theorem ofRat_ne_nan (F : F64) (x : Rat) : ofRat F x ≠ nan := by
  unfold ofRat
  split
  · nofun
  · split <;> nofun

@[simp] theorem ofNat_ne_nan (F : F64) (n : Nat) : ofNat F n ≠ nan := ofRat_ne_nan F n

@[simp] theorem nan_mul (F : F64) (y : Double) : mul F nan y = nan := by
  cases y <;> rfl

@[simp] theorem nan_add (F : F64) (y : Double) : add F nan y = nan := by
  cases y <;> rfl

@[simp] theorem add_nan (F : F64) (x : Double) : add F x nan = nan := by
  cases x <;> rfl

/-- A product with a non-zero number is NaN only if the other factor is. -/
theorem mul_finite_ne_nan {r : Rat} (hx : x ≠ nan) (hr : r ≠ 0) : mul F x (finite r) ≠ nan := by
  cases x with
  | nan => exact absurd rfl hx
  | inf a =>
      rw [mul, if_neg hr]
      nofun
  | finite x => exact ofRat_ne_nan F (x * r)

/-- Without NaN the order is total. -/
theorem le_of_not_le (hx : x ≠ nan) (hy : y ≠ nan) (h : le y x = false) : le x y = true := by
  cases x with
  | nan => exact absurd rfl hx
  | inf a =>
      cases y with
      | nan => exact absurd rfl hy
      | inf b =>
          simp only [le, Bool.or_eq_false_iff, Bool.not_eq_false'] at h ⊢
          rw [h.2, Bool.true_or]
      | finite y => simpa [le] using h
  | finite x =>
      cases y with
      | nan => exact absurd rfl hy
      | inf b => simpa [le] using h
      | finite y =>
          simp only [le, decide_eq_false_iff_not, decide_eq_true_eq, not_le] at h ⊢
          exact h.le

/-- NaN is below nothing, not even itself. -/
@[simp] theorem le_nan (x : Double) : le x nan = false := by
  cases x <;> rfl

theorem exists_clamp (h : le lo hi = true) (x : Double) : ∃ z, clamp x lo hi = some z := by
  rw [clamp, if_pos h]
  exact ⟨_, rfl⟩

@[simp] theorem nan_le (x : Double) : le nan x = false := by
  cases x <;> rfl

theorem le_refl_of_ne_nan (hx : x ≠ nan) : le x x = true := by
  cases x with
  | nan => exact absurd rfl hx
  | inf b => cases b <;> rfl
  | finite x => exact decide_eq_true le_rfl

theorem ne_nan_of_le (h : le x y = true) : x ≠ nan ∧ y ≠ nan := by
  refine ⟨?_, ?_⟩ <;> rintro rfl
  · rw [nan_le] at h
    cases h
  · rw [le_nan] at h
    cases h

theorem le_of_not_lt (hx : x ≠ nan) (hy : y ≠ nan) (h : lt y x = false) : le x y = true := by
  cases x with
  | nan => exact absurd rfl hx
  | inf a =>
      cases y with
      | nan => exact absurd rfl hy
      | inf b => cases a <;> cases b <;> simp_all [lt, le]
      | finite y => simpa [lt, le] using h
  | finite x =>
      cases y with
      | nan => exact absurd rfl hy
      | inf b => simpa [lt, le] using h
      | finite y => simpa [lt, le] using h

-- ============================================================================
-- Clamping
-- ============================================================================

@[simp] theorem clamped_nan (lo hi : Double) : clamped nan lo hi = nan := by
  cases lo <;> cases hi <;> rfl

/-- A number is clamped into the bounds. -/
theorem le_clamped (h : le lo hi = true) (hx : x ≠ nan) :
    le lo (clamped x lo hi) = true ∧ le (clamped x lo hi) hi = true := by
  obtain ⟨hlo, hhi⟩ := ne_nan_of_le h
  unfold clamped
  by_cases hlow : lt x lo = true
  · rw [if_pos hlow]
    exact ⟨le_refl_of_ne_nan hlo, h⟩
  · rw [if_neg hlow]
    by_cases hhigh : lt hi x = true
    · rw [if_pos hhigh]
      exact ⟨h, le_refl_of_ne_nan hhi⟩
    · rw [if_neg hhigh]
      rw [Bool.not_eq_true] at hlow hhigh
      exact ⟨le_of_not_lt hlo hx hlow, le_of_not_lt hx hhi hhigh⟩

-- ============================================================================
-- Products and casts of numbers above a whole number
-- ============================================================================

theorem one_lt_overflow : 1 < overflow := by
  have hpow : ∀ n : Nat, n ≠ 0 → (1 : Rat) < ((2 ^ n : Nat) : Rat) := fun n hn =>
    Nat.one_lt_cast.mpr (Nat.one_lt_two_pow hn)
  exact hpow 1024 (Nat.succ_ne_zero 1023)

/-- What is above a representable whole number is not below `-overflow`. -/
theorem le_ofRat (hF : F.Lawful) {n : Nat} (hn : n ≤ 2 ^ 53) {r : Rat} (h : (n : Rat) ≤ r) :
    le (finite n) (ofRat F r) = true := by
  have hround : (n : Rat) ≤ F.round r := by
    rw [← hF.round_natCast n hn]
    exact hF.round_mono h
  unfold ofRat
  split
  · rfl
  · split
    · next hlow =>
      have hneg : -overflow < 0 := neg_lt_zero.mpr (zero_lt_one.trans one_lt_overflow)
      have hpos : (0 : Rat) ≤ n := Nat.cast_nonneg n
      linarith
    · exact decide_eq_true hround

/-- A product with a positive number is above what the product with the bound is. -/
theorem le_mul_finite (hF : F.Lawful) {n : Nat} (hn : n ≤ 2 ^ 53) {m r : Rat} (hr : 0 < r)
    (h : (n : Rat) ≤ m * r) (hx : le (finite m) x = true) :
    le (finite n) (mul F x (finite r)) = true := by
  cases x with
  | nan =>
      rw [le_nan] at hx
      cases hx
  | inf b =>
      cases b with
      | true => cases hx
      | false =>
          rw [mul, if_neg hr.ne', decide_eq_false (not_lt.mpr hr.le)]
          rfl
  | finite x =>
      have hmx : m ≤ x := of_decide_eq_true hx
      exact le_ofRat hF hn (h.trans (mul_le_mul_of_nonneg_right hmx hr.le))

/-- A whole number below `x` is below its cast. -/
theorem le_roundAsUsize {n : Nat} (hn : n ≤ 2 ^ 53) (h : le (finite n) x = true) :
    n ≤ x.roundAsUsize := by
  cases x with
  | nan =>
      rw [le_nan] at h
      cases h
  | inf b =>
      cases b with
      | true => cases h
      | false => exact hn.trans (by decide)
  | finite x => exact F64.le_roundAsU64 hn (of_decide_eq_true h)

-- ============================================================================
-- Numbers that are not negative
-- ============================================================================

theorem le_trans_finite {a b : Rat} (hab : a ≤ b) (h : le (finite b) x = true) :
    le (finite a) x = true := by
  cases x with
  | nan =>
      rw [le_nan] at h
      cases h
  | inf b => exact h
  | finite x => exact decide_eq_true (hab.trans (of_decide_eq_true h))

theorem ofRat_nonneg (hF : F.Lawful) {r : Rat} (h : 0 ≤ r) :
    le (finite 0) (ofRat F r) = true := by
  have hle := le_ofRat hF (Nat.zero_le _) (Nat.cast_zero.trans_le h)
  rwa [Nat.cast_zero] at hle

theorem add_nonneg (hF : F.Lawful) (hx : le (finite 0) x = true) (hy : le (finite 0) y = true) :
    le (finite 0) (add F x y) = true := by
  cases x with
  | nan =>
      rw [le_nan] at hx
      cases hx
  | inf a =>
      cases y with
      | nan =>
          rw [le_nan] at hy
          cases hy
      | inf b =>
          obtain rfl : a = false := by simpa [le] using hx
          obtain rfl : b = false := by simpa [le] using hy
          rfl
      | finite y => exact hx
  | finite x =>
      cases y with
      | nan =>
          rw [le_nan] at hy
          cases hy
      | inf b => exact hy
      | finite y =>
          exact ofRat_nonneg hF (Rat.add_nonneg (of_decide_eq_true hx) (of_decide_eq_true hy))

/-- A number times a finite one is NaN only as an infinity times zero. -/
theorem finite_mul_nonneg (hF : F.Lawful) {r : Rat} (hr : 0 ≤ r) (hx : le (finite 0) x = true)
    (hne : x = inf false → r ≠ 0) : le (finite 0) (mul F (finite r) x) = true := by
  cases x with
  | nan =>
      rw [le_nan] at hx
      cases hx
  | inf b =>
      cases b with
      | true => cases hx
      | false =>
          rw [mul, if_neg (hne rfl), decide_eq_false (not_lt.mpr hr)]
          rfl
  | finite x => exact ofRat_nonneg hF (mul_nonneg hr (of_decide_eq_true hx))

-- ============================================================================
-- Exponential samples
-- ============================================================================

/-- A mean that is NaN draws NaN. -/
theorem exponentialSample_nan {ρ : Type} [RngCore ρ] (F : F64) (rng : ρ) :
    (exponentialSample F rng nan).1 = nan := by
  unfold exponentialSample
  dsimp only
  cases ln F _ <;> rfl

/-- The logarithm of a draw is a number other than zero, so a sample is NaN only if
    its mean is. -/
theorem exponentialSample_ne_nan {ρ : Type} [RngCore ρ] (hln : F.LnNegative) (rng : ρ)
    {mean : Double} (hmean : mean ≠ nan) : (exponentialSample F rng mean).1 ≠ nan := by
  have hneg : mean.neg ≠ nan := by
    cases mean with
    | nan => exact absurd rfl hmean
    | inf b => nofun
    | finite x => nofun
  have heps : (0 : Rat) < F64.epsilon := by norm_num [F64.epsilon]
  have hpos : 0 < Max.max (genF64 rng).1 F64.epsilon := heps.trans_le (le_max_right _ _)
  have hlt : Max.max (genF64 rng).1 F64.epsilon < 1 :=
    max_lt (genF64_lt_one rng) (by norm_num [F64.epsilon])
  show mul F mean.neg (ln F (finite (Max.max (genF64 rng).1 F64.epsilon))) ≠ nan
  rw [ln, if_neg (not_lt.mpr hpos.le), if_neg hpos.ne']
  exact mul_finite_ne_nan hneg (hln.ln_neg _ hpos hlt).ne

end Double

end MixTor
