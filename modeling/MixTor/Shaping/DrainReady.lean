/-
  MixTor.Shaping.DrainReady

  Draining the scheduler: `drain_ready` (timing_correlator.rs) ticks until `tick`
  returns `None`.

  The loop ends because every slot is at least the minimum interval after the one
  before: the schedule overtakes the clock.  How many frames come out is bounded by
  the debt that `advance_clock` catches up with, since a larger one is dropped at
  the first slot.
-/

import MixTor.Shaping.TimingCorrelator
import Mathlib.Tactic.Linarith
import Mathlib.Tactic.Positivity

namespace MixTor

open Crypto (Bytes)

namespace TimingCorrelator

variable {ρ : Type} [RngCore ρ]

/-- Tick until `None`: the frames, each with the slot it was due at, and the reading
    at which no slot was due.  `none` when `fuel` ticks are not enough. -/
def drainReady (F : F64) : Nat → Clock → TimingCorrelator ρ →
    Option (List (Instant × MixedFrame) × TimingCorrelator ρ × Instant)
  | 0, _, _ => none
  | fuel + 1, clk, tc =>
      match tick F clk tc with
      | (none, tc, _) => some ([], tc, clk.now)
      | (some frame, tc', clk') =>
          (drainReady F fuel clk' tc').map fun (out, tc', stop) =>
            ((tc.nextDeparture, frame) :: out, tc', stop)

/-- Fuel for every slot up to the end of the clock. -/
def fullDrain (F : F64) (clk : Clock) (tc : TimingCorrelator ρ) :
    Option (List (Instant × MixedFrame) × TimingCorrelator ρ × Instant) :=
  drainReady F (clk.stop - tc.nextDeparture + 2) clk tc

variable {F : F64}

-- ============================================================================
-- The length of a slot
-- ============================================================================

/-- `m` milliseconds in whole microseconds. -/
def minStepMicros (m : Rat) : Nat := min (m * 1000).floor.toNat (2 ^ 53)

theorem minStepMicros_le {m : Rat} (hm : 0 < m) : (minStepMicros m : Rat) ≤ m * 1000 := by
  have hpos : 0 ≤ m * 1000 := by positivity
  have hfloor : 0 ≤ (m * 1000).floor := Rat.le_floor_iff.mpr (by simpa using hpos)
  have hcast : ((m * 1000).floor.toNat : Rat) = ((m * 1000).floor : Rat) := by
    exact_mod_cast congrArg (Int.cast (R := Rat)) (Int.toNat_of_nonneg hfloor)
  calc (minStepMicros m : Rat)
    _ ≤ ((m * 1000).floor.toNat : Rat) := by exact_mod_cast Nat.min_le_left _ _
    _ ≤ m * 1000 := hcast.trans_le (Rat.le_floor_iff.mp le_rfl)

/-- No slot is shorter than the minimum interval, rounded down to microseconds, as long
    as the mean is a number. -/
theorem minStep_le_slotStep (hF : F.Lawful) (hln : F.LnNegative) {config : TimingCorrelatorConfig}
    (hord : config.minIatMs.le config.maxIatMs = true) {m : Rat}
    (hm : config.minIatMs = .finite m) (hpos : 0 < m) (rng : ρ) {meanMs : Double}
    (hmean : meanMs ≠ .nan) :
    Duration.fromMicros (minStepMicros m) ≤ (slotStep F config rng meanMs).1 := by
  have hmicros : minStepMicros m ≤ 2 ^ 53 := Nat.min_le_right _ _
  have hclamp := (Double.le_clamped hord
    (Double.exponentialSample_ne_nan hln rng hmean)).1
  rw [hm] at hclamp
  have hmul := Double.le_mul_finite hF hmicros (by norm_num) (minStepMicros_le hpos) hclamp
  rw [← hm] at hmul
  exact Nat.mul_le_mul_right 1000 (Double.le_roundAsUsize hmicros hmul)

/-- At a mean of NaN a slot has no length. -/
theorem slotStep_nan (F : F64) (config : TimingCorrelatorConfig) (rng : ρ) :
    (slotStep F config rng .nan).1 = 0 := by
  have hsample := Double.exponentialSample_nan F rng
  show Duration.fromMicros (Double.mul F ((Double.exponentialSample F rng .nan).1.clamped
    config.minIatMs config.maxIatMs) (.finite 1000)).roundAsUsize = 0
  rw [hsample, Double.clamped_nan, Double.nan_mul, Double.roundAsUsize]
  rfl

/-- At a minimum interval of 1 ms a slot is at least 1 ms long. -/
theorem thousand_le_minStepMicros {m : Rat} (hmin : 1 ≤ m) : 1000 ≤ minStepMicros m := by
  have hfloor : (1000 : Int) ≤ (m * 1000).floor :=
    Rat.le_floor_iff.mpr (by push_cast; linarith)
  rw [minStepMicros]
  omega

-- ============================================================================
-- One tick, whatever waits in the queue
-- ============================================================================

/-- The frame of a slot leaves the schedule alone, whatever its packet's size. -/
theorem emitSlot_schedule (tc : TimingCorrelator ρ) (forced : Bool) :
    (emitSlot tc forced).2.config = tc.config ∧
      (emitSlot tc forced).2.meanIatMs = tc.meanIatMs ∧
      (emitSlot tc forced).2.nextDeparture = tc.nextDeparture := by
  unfold emitSlot
  cases hpop : if forced then none else popFront tc with
  | none => exact ⟨rfl, rfl, rfl⟩
  | some r =>
      obtain ⟨packet, tc'⟩ := r
      have hpop' : popFront tc = some (packet, tc') := by
        cases forced with
        | true => cases hpop
        | false => exact hpop
      obtain ⟨-, hcfg, -, hmean, hnext⟩ := popFront_eq_some hpop'
      have hmake : (makeRealFrame tc' packet).2.config = tc'.config ∧
          (makeRealFrame tc' packet).2.meanIatMs = tc'.meanIatMs ∧
          (makeRealFrame tc' packet).2.nextDeparture = tc'.nextDeparture := by
        unfold makeRealFrame
        dsimp only
        split <;> exact ⟨rfl, rfl, rfl⟩
      exact ⟨hmake.1.trans hcfg, hmake.2.1.trans hmean, hmake.2.2.trans hnext⟩

/-- A slot that has come emits a frame and moves the schedule on by its step. -/
theorem tick_due {clk : Clock} {tc : TimingCorrelator ρ} (h : tc.nextDeparture ≤ clk.now) :
    ∃ frame tc', tick F clk tc = (some frame, tc', clk.later.later) ∧ tc'.config = tc.config ∧
      tc'.meanIatMs = tc.meanIatMs ∧ tc'.nextDeparture = nextSlot tc.nextDeparture
        (slotStep F tc.config tc.rng tc.meanIatMs).1 clk.later.now := by
  rw [tick, if_neg (not_lt.mpr h)]
  obtain ⟨hcfg, hmean, hnext⟩ := emitSlot_schedule
    { (advanceClock F clk.later tc).1 with
      rng := (slotCoin F tc.config tc.rng tc.meanIatMs).2 }
    (slotCoin F tc.config tc.rng tc.meanIatMs).1
  exact ⟨_, _, rfl, hcfg, hmean, hnext⟩

/-- The next slot is a step after this one, or a step from now. -/
theorem add_le_nextSlot (prev : Instant) (step : Duration) (now : Instant) :
    prev + step ≤ nextSlot prev step now := by
  rw [nextSlot]
  split
  · next hlag =>
    have hle : prev + step ≤ now := (Nat.le_add_right _ _).trans (Nat.le_of_lt hlag)
    exact hle.trans (Nat.le_add_right _ _)
  · exact le_rfl

/-- A tick either finds no slot due, or emits one and moves the schedule on. -/
theorem tick_cases (F : F64) (clk : Clock) (tc : TimingCorrelator ρ) :
    (clk.now < tc.nextDeparture ∧ tick F clk tc = (none, tc, clk.later)) ∨
      ∃ frame tc', tc.nextDeparture ≤ clk.now ∧
        tick F clk tc = (some frame, tc', clk.later.later) ∧ tc'.config = tc.config ∧
        tc'.meanIatMs = tc.meanIatMs ∧ tc'.nextDeparture = nextSlot tc.nextDeparture
          (slotStep F tc.config tc.rng tc.meanIatMs).1 clk.later.now := by
  rcases Nat.lt_or_ge clk.now tc.nextDeparture with hlt | hle
  · exact .inl ⟨hlt, tick_of_lt hlt⟩
  · obtain ⟨frame, tc', htick, hrest⟩ := tick_due (F := F) hle
    exact .inr ⟨frame, tc', hle, htick, hrest⟩

/-- The mean is a number, and the least interval is `m`, at least 1 ms. -/
structure MovesOn (m : Rat) (tc : TimingCorrelator ρ) : Prop where
  minIatMs : tc.config.minIatMs = .finite m
  one_le : 1 ≤ m
  mean : tc.meanIatMs ≠ .nan

omit [RngCore ρ] in
/-- What keeps the configuration and the mean keeps the schedule moving on. -/
theorem MovesOn.of_same {m : Rat} {tc tc' : TimingCorrelator ρ} (h : tc.MovesOn m)
    (hcfg : tc'.config = tc.config) (hmean : tc'.meanIatMs = tc.meanIatMs) : tc'.MovesOn m :=
  ⟨hcfg ▸ h.minIatMs, h.one_le, hmean ▸ h.mean⟩

theorem MovesOn.le_slotStep (hF : F.Lawful) (hln : F.LnNegative) {m : Rat}
    {tc : TimingCorrelator ρ} (h : tc.MovesOn m) (rng : ρ) :
    Duration.fromMicros (minStepMicros m) ≤ (slotStep F tc.config rng tc.meanIatMs).1 :=
  minStep_le_slotStep hF hln tc.bounds_ordered h.minIatMs (zero_lt_one.trans_le h.one_le) rng h.mean

/-- The schedule advances by at least the shortest slot. -/
theorem MovesOn.le_nextDeparture (hF : F.Lawful) (hln : F.LnNegative) {m : Rat}
    {tc tc' : TimingCorrelator ρ} (h : tc.MovesOn m) {now : Instant}
    (hnext : tc'.nextDeparture = nextSlot tc.nextDeparture
      (slotStep F tc.config tc.rng tc.meanIatMs).1 now) :
    tc.nextDeparture + Duration.fromMicros (minStepMicros m) ≤ tc'.nextDeparture := by
  rw [hnext]
  exact (Nat.add_le_add_left (h.le_slotStep hF hln tc.rng) _).trans (add_le_nextSlot _ _ _)

-- ============================================================================
-- The loop
-- ============================================================================

/-- A round of the loop that emits. -/
theorem drainReady_of_due {fuel : Nat} {clk clk' : Clock} {tc tc' : TimingCorrelator ρ}
    {frame : MixedFrame} (h : tick F clk tc = (some frame, tc', clk')) :
    drainReady F (fuel + 1) clk tc = (drainReady F fuel clk' tc').map fun (out, tc', stop) =>
      ((tc.nextDeparture, frame) :: out, tc', stop) := by
  rw [drainReady, h]

/-- The round that ends the loop. -/
theorem drainReady_of_early {fuel : Nat} {clk : Clock} {tc : TimingCorrelator ρ}
    (h : clk.now < tc.nextDeparture) :
    drainReady F (fuel + 1) clk tc = some ([], tc, clk.now) := by
  rw [drainReady, tick_of_lt h]

/-- **The loop ends**, with fuel for every slot up to the end of the clock. -/
theorem drainReady_isSome (hF : F.Lawful) (hln : F.LnNegative) {fuel : Nat} {clk : Clock}
    {tc : TimingCorrelator ρ} {m : Rat} (hmoves : tc.MovesOn m) (hpos : 0 < fuel)
    (hfuel : clk.stop + 2 ≤ tc.nextDeparture + fuel) : (drainReady F fuel clk tc).isSome := by
  induction fuel generalizing clk tc with
  | zero => exact absurd hpos (Nat.lt_irrefl 0)
  | succ fuel ih =>
      rcases tick_cases F clk tc with ⟨hlt, -⟩ | ⟨frame, tc', hle, htick, hcfg, hmean, hnext⟩
      · rw [drainReady_of_early hlt]
        rfl
      · have hstep := hmoves.le_nextDeparture hF hln hnext
        have hmicros := thousand_le_minStepMicros hmoves.one_le
        have hstop := hle.trans clk.now_le_stop
        rw [drainReady_of_due htick, Option.isSome_map]
        have hlater : clk.later.later.stop = clk.stop := rfl
        refine ih (hmoves.of_same hcfg hmean) ?_ ?_
        · unfold Instant at *
          omega
        · rw [hlater]
          unfold Instant Duration.fromMicros Duration at *
          omega

/-- More fuel changes nothing. -/
theorem drainReady_add_fuel {fuel : Nat} {clk : Clock} {tc : TimingCorrelator ρ}
    {r : List (Instant × MixedFrame) × TimingCorrelator ρ × Instant}
    (h : drainReady F fuel clk tc = some r) (k : Nat) :
    drainReady F (fuel + k) clk tc = some r := by
  induction fuel generalizing clk tc r with
  | zero => cases h
  | succ fuel ih =>
      rw [Nat.add_right_comm]
      rcases tick_cases F clk tc with ⟨hlt, -⟩ | ⟨frame, tc', -, htick, -⟩
      · rw [drainReady_of_early hlt] at h ⊢
        exact h
      · rw [drainReady_of_due htick] at h ⊢
        obtain ⟨r', hr', rfl⟩ := Option.map_eq_some_iff.mp h
        rw [ih hr']
        rfl

/-- After the loop the next slot is later than the reading that ended it. -/
theorem drainReady_stop {fuel : Nat} {clk : Clock} {tc tc' : TimingCorrelator ρ}
    {out : List (Instant × MixedFrame)} {stop : Instant}
    (h : drainReady F fuel clk tc = some (out, tc', stop)) :
    stop < tc'.nextDeparture ∧ clk.now ≤ stop ∧ stop ≤ clk.stop ∧ tc'.config = tc.config := by
  induction fuel generalizing clk tc out with
  | zero => cases h
  | succ fuel ih =>
      rcases tick_cases F clk tc with ⟨hlt, -⟩ | ⟨frame, tc₁, -, htick, hcfg, -⟩
      · rw [drainReady_of_early hlt] at h
        cases h
        exact ⟨hlt, le_rfl, clk.now_le_stop, rfl⟩
      · rw [drainReady_of_due htick] at h
        obtain ⟨⟨out', tc'', stop'⟩, hr', hout⟩ := Option.map_eq_some_iff.mp h
        cases hout
        obtain ⟨hnext, hnow, hstop, hcfg'⟩ := ih hr'
        exact ⟨hnext, (clk.mono (Nat.zero_le 2)).trans hnow, hstop, hcfg'.trans hcfg⟩

-- ============================================================================
-- How many frames a drain emits
-- ============================================================================

/-- A schedule within the catch-up limit stays within it, and each frame takes it one
    shortest slot further.  The induction is on the fuel. -/
theorem drainReady_length_of_caughtUp (hF : F.Lawful) (hln : F.LnNegative) {fuel : Nat}
    {now : Instant} {tc tc' : TimingCorrelator ρ} {m : Rat} (hmoves : tc.MovesOn m)
    {out : List (Instant × MixedFrame)} {stop : Instant}
    (hlag : now ≤ tc.nextDeparture + maxCatchupLag)
    (h : drainReady F fuel (.const now) tc = some (out, tc', stop)) :
    out.length * Duration.fromMicros (minStepMicros m)
      ≤ now + Duration.fromMicros (minStepMicros m) - tc.nextDeparture := by
  induction fuel generalizing tc out with
  | zero => cases h
  | succ fuel ih =>
      rcases tick_cases F (.const now) tc with ⟨hlt, -⟩ |
        ⟨frame, tc₁, hle, htick, hcfg, hmean, hnext⟩
      · rw [drainReady_of_early hlt] at h
        cases h
        exact (Nat.zero_mul _).le.trans (Nat.zero_le _)
      · rw [drainReady_of_due htick] at h
        obtain ⟨⟨out', tc'', stop'⟩, hr', hout⟩ := Option.map_eq_some_iff.mp h
        cases hout
        have hstep := hmoves.le_nextDeparture hF hln hnext
        have hlag' : now ≤ tc₁.nextDeparture + maxCatchupLag :=
          hlag.trans (Nat.add_le_add_right ((Nat.le_add_right _ _).trans hstep) _)
        have hrest := ih (hmoves.of_same hcfg hmean) hlag' hr'
        rw [List.length_cons, Nat.succ_mul]
        simp only [Clock.const_now] at hle
        unfold Instant at *
        omega

/-- After any slot the schedule is within the catch-up limit. -/
theorem le_nextSlot_add_lag (prev : Instant) (step : Duration) (now : Instant) :
    now ≤ nextSlot prev step now + maxCatchupLag := by
  rw [nextSlot]
  split
  · exact (Nat.le_add_right _ _).trans (Nat.le_add_right _ _)
  · next hlag => exact not_lt.mp hlag

/-- The frames of a drain fill the catch-up limit, with one slot before and one behind. -/
theorem drainReady_length (hF : F.Lawful) (hln : F.LnNegative) {fuel : Nat} {now : Instant}
    {tc tc' : TimingCorrelator ρ} {m : Rat} (hmoves : tc.MovesOn m)
    {out : List (Instant × MixedFrame)} {stop : Instant}
    (h : drainReady F fuel (.const now) tc = some (out, tc', stop)) :
    out.length * Duration.fromMicros (minStepMicros m)
      ≤ maxCatchupLag + 2 * Duration.fromMicros (minStepMicros m) := by
  cases fuel with
  | zero => cases h
  | succ fuel =>
      rcases tick_cases F (.const now) tc with ⟨hlt, -⟩ |
        ⟨frame, tc₁, -, htick, hcfg, hmean, hnext⟩
      · rw [drainReady_of_early hlt] at h
        cases h
        exact (Nat.zero_mul _).le.trans (Nat.zero_le _)
      · rw [drainReady_of_due htick] at h
        obtain ⟨⟨out', tc'', stop'⟩, hr', hout⟩ := Option.map_eq_some_iff.mp h
        cases hout
        have hlag : now ≤ tc₁.nextDeparture + maxCatchupLag := by
          rw [hnext]
          exact le_nextSlot_add_lag _ _ _
        have hrest :=
          drainReady_length_of_caughtUp hF hln (hmoves.of_same hcfg hmean) hlag hr'
        rw [List.length_cons, Nat.succ_mul]
        unfold Instant Duration at *
        omega

/-- The same bound in milliseconds. -/
theorem length_le_of_minStep {m : Rat} (hmin : 1 ≤ m)
    {n : Nat} (h : n * Duration.fromMicros (minStepMicros m)
      ≤ maxCatchupLag + 2 * Duration.fromMicros (minStepMicros m)) :
    (n : Rat) ≤ 200 / m + 3 := by
  have hmicros := thousand_le_minStepMicros hmin
  have hn : n * minStepMicros m ≤ 200000 + 2 * minStepMicros m := by
    unfold Duration.fromMicros maxCatchupLag Duration.fromMillis at h
    rw [← Nat.mul_assoc, ← Nat.mul_assoc] at h
    omega
  have hpos : (0 : Rat) < m := zero_lt_one.trans_le hmin
  by_cases hsmall : n ≤ 3
  · have hn3 : (n : Rat) ≤ 3 := by exact_mod_cast hsmall
    have : 0 ≤ 200 / m := by positivity
    linarith
  · -- the interval is below 2^53 μs, or there were at most two slots
    have hfloor : minStepMicros m = (m * 1000).floor.toNat := by
      rw [minStepMicros] at hn ⊢
      refine Nat.min_eq_left (not_lt.mp fun hbig => ?_)
      rw [Nat.min_eq_right (Nat.le_of_lt hbig)] at hn
      have : 4 * 2 ^ 53 ≤ n * 2 ^ 53 := Nat.mul_le_mul_right _ (by omega)
      omega
    have hlt : m * 1000 < (minStepMicros m : Rat) + 1 := by
      have h0 : 0 ≤ (m * 1000).floor :=
        Rat.le_floor_iff.mpr (by push_cast; positivity)
      have hcast : ((m * 1000).floor.toNat : Rat)
          = ((m * 1000).floor : Rat) := by
        exact_mod_cast congrArg (Int.cast (R := Rat)) (Int.toNat_of_nonneg h0)
      rw [hfloor, hcast]
      exact_mod_cast Rat.lt_floor_add_one (m * 1000)
    have hfew : n ≤ 202 := by
      by_contra hmany
      have : 203 * minStepMicros m ≤ n * minStepMicros m :=
        Nat.mul_le_mul_right _ (by omega)
      omega
    have hnq : (n : Rat) * minStepMicros m ≤ 200000 + 2 * minStepMicros m := by
      exact_mod_cast hn
    have hmicrosq : (1000 : Rat) ≤ minStepMicros m := by exact_mod_cast hmicros
    have hfewq : (n : Rat) ≤ 202 := by exact_mod_cast hfew
    have hmanyq : (4 : Rat) ≤ n := by exact_mod_cast (by omega : 4 ≤ n)
    rw [← sub_le_iff_le_add, le_div_iff₀ hpos]
    have hprod : ((n : Rat) - 3) * (m * 1000)
        ≤ (n - 3) * (minStepMicros m + 1) :=
      mul_le_mul_of_nonneg_left (le_of_lt hlt) (by linarith)
    linarith

/-- Draining at the time `now` comes to an end, emits at most `200 / m + 3` frames and
    leaves the next slot later than `now`. -/
def DrainEnds (F : F64) (m : Rat) (now : Instant) (tc : TimingCorrelator ρ) : Prop :=
  ∃ enough out tc', (∀ fuel, enough ≤ fuel →
      drainReady F fuel (.const now) tc = some (out, tc', now)) ∧
    (out.length : Rat) ≤ 200 / m + 3 ∧ now < tc'.nextDeparture

/-- **Draining ends while the mean is a number**, however long the stall before it. -/
theorem MovesOn.drainEnds (hF : F.Lawful) (hln : F.LnNegative) {m : Rat}
    {tc : TimingCorrelator ρ} (h : tc.MovesOn m) (now : Instant) : tc.DrainEnds F m now := by
  have hfuel : now + 2 ≤ tc.nextDeparture + (now - tc.nextDeparture + 2) := by
    unfold Instant at *
    omega
  have hends : (drainReady F (now - tc.nextDeparture + 2) (.const now) tc).isSome :=
    drainReady_isSome hF hln h (Nat.succ_pos _) hfuel
  obtain ⟨⟨out, tc', stop⟩, hdrain⟩ := Option.isSome_iff_exists.mp hends
  obtain ⟨hnext, hnow, hstop, -⟩ := drainReady_stop hdrain
  obtain rfl : now = stop := Nat.le_antisymm hnow hstop
  refine ⟨now - tc.nextDeparture + 2, out, tc', fun fuel hfuel => ?_,
    length_le_of_minStep h.one_le (drainReady_length hF hln h hdrain), hnext⟩
  obtain ⟨k, rfl⟩ := Nat.exists_eq_add_of_le hfuel
  exact drainReady_add_fuel hdrain k

/-- A slot of no length does not overtake the clock. -/
theorem nextSlot_zero_le {prev now : Instant} (h : prev ≤ now) : nextSlot prev 0 now ≤ now := by
  rw [nextSlot]
  split
  · exact (Nat.add_zero now).le
  · exact (Nat.add_zero prev).le.trans h

/-- **Draining never ends at a mean of NaN**: every slot is due at once.  The induction
    is on the fuel. -/
theorem drainReady_nan (fuel : Nat) {now : Instant} {tc : TimingCorrelator ρ}
    (hmean : tc.meanIatMs = .nan) (hdue : tc.nextDeparture ≤ now) :
    drainReady F fuel (.const now) tc = none := by
  induction fuel generalizing tc with
  | zero => rfl
  | succ fuel ih =>
      have hready : tc.nextDeparture ≤ (Clock.const now).now := hdue
      obtain ⟨frame, tc', htick, -, hmean', hnext⟩ := tick_due (F := F) hready
      rw [hmean, slotStep_nan] at hnext
      rw [drainReady_of_due htick]
      simp only [Clock.const_later, Clock.const_now] at hnext ⊢
      rw [ih (hmean'.trans hmean) (hnext.trans_le (nextSlot_zero_le hdue))]
      rfl

/-- Draining ends at every time exactly while the mean is a number. -/
theorem forall_drainEnds_iff (hF : F.Lawful) (hln : F.LnNegative) {m : Rat} (hmin : 1 ≤ m)
    {tc : TimingCorrelator ρ} (hm : tc.config.minIatMs = .finite m) :
    (∀ now, tc.DrainEnds F m now) ↔ tc.meanIatMs ≠ .nan := by
  refine ⟨fun hall hnan => ?_, fun hmean now => MovesOn.drainEnds hF hln ⟨hm, hmin, hmean⟩ now⟩
  obtain ⟨enough, out, tc', hends, -⟩ := hall tc.nextDeparture
  have hend := hends enough le_rfl
  rw [drainReady_nan enough hnan le_rfl] at hend
  cases hend

-- ============================================================================
-- A clock of one to two milliseconds, and one without a mean
-- ============================================================================

def fastConfig : TimingCorrelatorConfig where
  cellBytes := 514
  initialIatMs := .finite 1
  emaAlpha := .finite (1 / 5)
  minIatMs := .finite 1
  maxIatMs := .finite 2
  maxQueueDepth := 64
  adaptRate := false
  minDummyFraction := .finite 0

theorem fastConfig_valid : fastConfig.Valid := by
  constructor <;> decide +kernel

/-- The scheduler of `fastConfig`, its clock started at 0. -/
def fastClock : TimingCorrelator FixedRng :=
  (start .steep (.const 0) fastConfig fastConfig_valid (by decide) ⟨0⟩).1

/-- The same configuration without a mean, which `validate` lets through. -/
def nanConfig : TimingCorrelatorConfig := { fastConfig with initialIatMs := .nan }

theorem nanConfig_valid : nanConfig.Valid := by
  constructor <;> decide +kernel

def nanClock : TimingCorrelator FixedRng :=
  (start .steep (.const 0) nanConfig nanConfig_valid (by decide) ⟨0⟩).1

end TimingCorrelator

end MixTor
