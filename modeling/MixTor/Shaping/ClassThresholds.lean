/-
  MixTor.Shaping.ClassThresholds

  The class boundaries a session draws for itself (session_bounder.rs):
  `FuzzedClassThresholds::sample`, and what the two ends of a connection, which
  draw independently, make of one volume.

  Each boundary is the nominal one times a factor drawn from `0.7..=1.3`, in f64.
  The factor's ends and the product are rounded, so the bounds are found on the
  grid of the dyadic rationals, which rounding leaves alone.
-/

import MixTor.Shaping.TimingScheduler
import MixTor.Transport.Tail
import Mathlib.Tactic.Linarith

namespace MixTor

-- ============================================================================
-- Model
-- ============================================================================

/-- The smallest class whose volume fits. -/
def SessionClass.forVolume (realBytes : Nat) : SessionClass :=
  if realBytes ≤ short.targetVolumeBytes then .short
  else if realBytes ≤ medium.targetVolumeBytes then .medium
  else if realBytes ≤ long.targetVolumeBytes then .long
  else .veryLong

/-- The targets by the nominal boundaries. -/
def classTargets (realBytes : Nat) : Duration × Nat :=
  let cls := SessionClass.forVolume realBytes
  (cls.targetDuration, cls.targetVolumeBytes / cellBytes)

namespace FuzzedClassThresholds

variable {ρ : Type} [DistrRng ρ]

/-- `BOUNDARY_JITTER`. -/
def boundaryJitter (F : F64) : Rat := F.round (30 / 100)

def fuzz (F : F64) (rng : ρ) (base : Nat) : Option (Nat × ρ) := do
  let lo := F.sub 1 (boundaryJitter F)
  let hi := F.add 1 (boundaryJitter F)
  let (factor, rng) ← genRangeF64 lo hi rng
  return (F64.asU64 (F.mul (F.round base) factor), rng)

/-- Sample fresh thresholds. -/
def sample (F : F64) (rng : ρ) : Option (FuzzedClassThresholds × ρ) := do
  let (shortMax, rng) ← fuzz F rng SessionClass.short.targetVolumeBytes
  let (mediumMax, rng) ← fuzz F rng SessionClass.medium.targetVolumeBytes
  let (longMax, rng) ← fuzz F rng SessionClass.long.targetVolumeBytes
  return (⟨shortMax, mediumMax, longMax⟩, rng)

end FuzzedClassThresholds

-- ============================================================================
-- Specification
-- ============================================================================

namespace SessionClass

/-- The classes in ascending order. -/
def level : SessionClass → Nat
  | short => 0
  | medium => 1
  | long => 2
  | veryLong => 3

/-- The volumes whose class a boundary within 30 % of the nominal one does not change. -/
def Clear (cls : SessionClass) (realBytes : Nat) : Prop :=
  realBytes ≤ 7 * cls.targetVolumeBytes / 10 ∨ 13 * cls.targetVolumeBytes / 10 < realBytes

end SessionClass

/-- A boundary is within 30 % of the nominal one. -/
def WithinJitter (cls : SessionClass) (boundary : Nat) : Prop :=
  7 * cls.targetVolumeBytes / 10 ≤ boundary ∧ boundary ≤ 13 * cls.targetVolumeBytes / 10

/-- Thresholds whose boundaries are all within 30 % of the nominal ones. -/
structure FuzzedClassThresholds.Near (th : FuzzedClassThresholds) : Prop where
  short : WithinJitter .short th.shortMax
  medium : WithinJitter .medium th.mediumMax
  long : WithinJitter .long th.longMax

-- ============================================================================
-- Rounding
-- ============================================================================

/-- What the bounds need of the rounding of IEEE 754: it is monotone, and the dyadic
    rationals of 53 bits are representable. -/
structure F64.Dyadic (F : F64) : Prop extends F.Lawful where
  round_dyadic : ∀ n k : Nat, n ≤ 2 ^ 53 → k ≤ 53 → F.round (n / 2 ^ k) = n / 2 ^ k

theorem F64.steep_dyadic : F64.steep.Dyadic := ⟨F64.steep_lawful, fun _ _ _ _ => rfl⟩

namespace F64.Dyadic

variable {F : F64} {n k : Nat} {x : Rat}

theorem le_round (hF : F.Dyadic) (hn : n ≤ 2 ^ 53) (hk : k ≤ 53) (h : (n : Rat) / 2 ^ k ≤ x) :
    (n : Rat) / 2 ^ k ≤ F.round x := by
  rw [← hF.round_dyadic n k hn hk]
  exact hF.round_mono h

theorem round_le (hF : F.Dyadic) (hn : n ≤ 2 ^ 53) (hk : k ≤ 53) (h : x ≤ (n : Rat) / 2 ^ k) :
    F.round x ≤ (n : Rat) / 2 ^ k := by
  rw [← hF.round_dyadic n k hn hk]
  exact hF.round_mono h

end F64.Dyadic

namespace FuzzedClassThresholds

variable {F : F64}

/-- 0.3 lies between two neighbours on the grid of 2^-40. -/
theorem boundaryJitter_bounds (hF : F.Dyadic) :
    (329853488332 : Rat) / 2 ^ 40 ≤ boundaryJitter F ∧
      boundaryJitter F ≤ (329853488333 : Rat) / 2 ^ 40 := by
  constructor
  · exact_mod_cast hF.le_round (n := 329853488332) (k := 40) (by norm_num) (by norm_num)
      (by norm_num)
  · exact_mod_cast hF.round_le (n := 329853488333) (k := 40) (by norm_num) (by norm_num)
      (by norm_num)

/-- The least factor is 0.7, up to 2^-40. -/
theorem le_least_factor (hF : F.Dyadic) :
    (769658139443 : Rat) / 2 ^ 40 ≤ F.sub 1 (boundaryJitter F) := by
  have hjitter := (boundaryJitter_bounds hF).2
  exact_mod_cast hF.le_round (n := 769658139443) (k := 40) (by norm_num) (by norm_num)
    (by push_cast; linarith)

/-- The greatest factor is 1.3, up to 2^-40. -/
theorem greatest_factor_le (hF : F.Dyadic) :
    F.add 1 (boundaryJitter F) ≤ (1429365116109 : Rat) / 2 ^ 40 := by
  have hjitter := (boundaryJitter_bounds hF).2
  exact_mod_cast hF.round_le (n := 1429365116109) (k := 40) (by norm_num) (by norm_num)
    (by push_cast; linarith)

variable {ρ : Type} [DistrRng ρ]

/-- A boundary stays within the whole numbers around its share of the base. -/
theorem exists_fuzz (hF : F.Dyadic) (rng : ρ) (base lo hi : Nat) (hbase : base ≤ 2 ^ 53)
    (hlo : lo ≤ 2 ^ 53) (hhi : 8 * hi + 7 ≤ 2 ^ 53)
    (hbelow : (lo : Rat) ≤ base * (769658139443 / 2 ^ 40))
    (habove : base * (1429365116109 / 2 ^ 40) ≤ (hi : Rat) + 7 / 8) :
    ∃ n rng', fuzz F rng base = some (n, rng') ∧ lo ≤ n ∧ n ≤ hi := by
  have hpos : 0 ≤ boundaryJitter F := le_trans (by norm_num) (boundaryJitter_bounds hF).1
  have hle : F.sub 1 (boundaryJitter F) ≤ F.add 1 (boundaryJitter F) :=
    hF.round_mono (by linarith)
  obtain ⟨⟨x, hxlo, hxhi⟩, rng', hdraw⟩ :
      ∃ x rng', DistrRng.uniform (F.sub 1 (boundaryJitter F)) (F.add 1 (boundaryJitter F)) hle rng
        = (x, rng') := ⟨_, _, rfl⟩
  have hnonneg : (0 : Rat) ≤ base := Nat.cast_nonneg base
  have hproduct : F.mul (F.round base) x = F.round (base * x) := by
    rw [F64.mul, hF.round_natCast base hbase]
  have hlower : (lo : Rat) ≤ F.round (base * x) := by
    refine hF.natCast_le_round hlo (hbelow.trans ?_)
    exact mul_le_mul_of_nonneg_left ((le_least_factor hF).trans hxlo) hnonneg
  have hupper : F.round (base * x) ≤ (hi : Rat) + 7 / 8 := by
    have hround := hF.round_le (x := base * x) (k := 3) hhi (by norm_num) ?_
    · push_cast at hround
      linarith
    · have := mul_le_mul_of_nonneg_left (hxhi.trans (greatest_factor_le hF)) hnonneg
      push_cast
      linarith
  refine ⟨F64.asU64 (F.round (base * x)), rng', ?_, ?_, ?_⟩
  · rw [fuzz, genRangeF64, dif_pos hle, hdraw, ← hproduct]
    rfl
  · have hfloor : (lo : Int) ≤ (F.round (base * x)).floor :=
      Rat.le_floor_iff.mpr (by exact_mod_cast hlower)
    rw [F64.asU64]
    omega
  · have hfloor : (F.round (base * x)).floor < (hi : Int) + 1 := by
      rw [Rat.floor_lt_iff]
      push_cast
      linarith
    rw [F64.asU64]
    omega

/-- **Every sample is near the nominal boundaries**, whatever the generator draws, and no
    draw panics. -/
theorem exists_sample (hF : F.Dyadic) (rng : ρ) :
    ∃ th rng', sample F rng = some (th, rng') ∧ th.Near := by
  obtain ⟨s, rng₁, hs, hslo, hshi⟩ := exists_fuzz hF rng SessionClass.short.targetVolumeBytes
    45875 85196 (by decide) (by decide) (by decide) (by norm_num [SessionClass.targetVolumeBytes])
    (by norm_num [SessionClass.targetVolumeBytes])
  obtain ⟨m, rng₂, hm, hmlo, hmhi⟩ := exists_fuzz hF rng₁ SessionClass.medium.targetVolumeBytes
    734003 1363148 (by decide) (by decide) (by decide)
    (by norm_num [SessionClass.targetVolumeBytes]) (by norm_num [SessionClass.targetVolumeBytes])
  obtain ⟨l, rng₃, hl, hllo, hlhi⟩ := exists_fuzz hF rng₂ SessionClass.long.targetVolumeBytes
    11744051 21810380 (by decide) (by decide) (by decide)
    (by norm_num [SessionClass.targetVolumeBytes]) (by norm_num [SessionClass.targetVolumeBytes])
  refine ⟨⟨s, m, l⟩, rng₃, ?_, ⟨hslo, hshi⟩, ⟨hmlo, hmhi⟩, ⟨hllo, hlhi⟩⟩
  rw [sample, hs, Option.bind_eq_bind, Option.bind_some]
  simp only [hm, hl, Option.bind_some]
  rfl

-- ============================================================================
-- Classes
-- ============================================================================

variable {th th' : FuzzedClassThresholds}

/-- What `sample` asserts in debug builds. -/
theorem Near.ordered (h : th.Near) : th.shortMax < th.mediumMax ∧ th.mediumMax < th.longMax := by
  obtain ⟨⟨-, hs⟩, ⟨hm, hm'⟩, ⟨hl, -⟩⟩ := h
  simp only [SessionClass.targetVolumeBytes] at hs hm hm' hl
  omega

/-- Two near samples never put a volume two classes apart. -/
theorem Near.level_le (h : th.Near) (h' : th'.Near) (realBytes : Nat) :
    (th.classify realBytes).level ≤ (th'.classify realBytes).level + 1 := by
  obtain ⟨hsm, hml⟩ := h'.ordered
  obtain ⟨-, ⟨hm, -⟩, ⟨hl, -⟩⟩ := h
  obtain ⟨⟨-, hs'⟩, ⟨-, hm'⟩, -⟩ := h'
  simp only [SessionClass.targetVolumeBytes] at hm hl hs' hm'
  simp only [classify]
  split_ifs <;> simp only [SessionClass.level] <;> omega

/-- A boundary near the nominal one does not tell a clear volume apart from it. -/
theorem le_iff_of_clear {cls : SessionClass} {boundary realBytes : Nat}
    (h : WithinJitter cls boundary) (hclear : cls.Clear realBytes) :
    realBytes ≤ boundary ↔ realBytes ≤ cls.targetVolumeBytes := by
  obtain ⟨hlo, hhi⟩ := h
  rcases hclear with hbelow | habove <;> omega

/-- Where no boundary within 30 % matters, the targets are the nominal ones. -/
theorem Near.classTargets_eq (h : th.Near) {realBytes : Nat}
    (hclear : ∀ cls, cls ≠ .veryLong → SessionClass.Clear cls realBytes) :
    classTargetsFuzzy realBytes th = classTargets realBytes := by
  have hclass : th.classify realBytes = .forVolume realBytes := by
    simp only [classify, SessionClass.forVolume,
      le_iff_of_clear h.short (hclear .short (by decide)),
      le_iff_of_clear h.medium (hclear .medium (by decide)),
      le_iff_of_clear h.long (hclear .long (by decide))]
  rw [classTargetsFuzzy, classTargets, hclass]

/-- **Fuzzed classes are one class away at most.**  Whatever the two ends of a connection
    draw, and however the draws are rounded: no draw panics, the boundaries are in order,
    the ends never put a volume two classes apart, and a volume further than 30 % from
    every boundary gets the nominal targets. -/
theorem sample_targets (hF : F.Dyadic) (rng rng' : ρ) :
    ∃ th th' s s', sample F rng = some (th, s) ∧ sample F rng' = some (th', s') ∧
      (th.shortMax < th.mediumMax ∧ th.mediumMax < th.longMax) ∧
      ∀ realBytes, (th.classify realBytes).level ≤ (th'.classify realBytes).level + 1 ∧
        ((∀ cls, cls ≠ .veryLong → SessionClass.Clear cls realBytes) →
          classTargetsFuzzy realBytes th = classTargets realBytes) := by
  obtain ⟨th, s, hs, hnear⟩ := exists_sample hF rng
  obtain ⟨th', s', hs', hnear'⟩ := exists_sample hF rng'
  exact ⟨th, th', s, s', hs, hs', hnear.ordered, fun realBytes =>
    ⟨hnear.level_le hnear' realBytes, hnear.classTargets_eq⟩⟩

/-- The least and the greatest boundaries put 60000 bytes in different classes. -/
theorem sample_targets_ends : ∃ th th' : FuzzedClassThresholds,
    th.classify 60000 = .medium ∧ th'.classify 60000 = .short ∧
      ∀ realBytes, (th.classify realBytes).level ≤ (th'.classify realBytes).level + 1 := by
  obtain ⟨th, th', s, s', hs, hs', -, hall⟩ := sample_targets F64.steep_dyadic
    (⟨false, 0⟩ : EndRng) ⟨true, 0⟩
  have hleast : (sample .steep (⟨false, 0⟩ : EndRng)).map Prod.fst
      = some ⟨45875, 734003, 11744051⟩ := by decide +kernel
  have hgreatest : (sample .steep (⟨true, 0⟩ : EndRng)).map Prod.fst
      = some ⟨85196, 1363148, 21810380⟩ := by decide +kernel
  rw [hs] at hleast
  rw [hs'] at hgreatest
  obtain rfl := Option.some.inj hleast
  obtain rfl := Option.some.inj hgreatest
  exact ⟨_, _, by decide, by decide, fun realBytes => (hall realBytes).1⟩

end FuzzedClassThresholds

end MixTor
