/-
  MixTor.Transport.TailEnv

  The tail policy an operator sets (`TailPolicy::from_env`, transport.rs).

  `MIXTOR_TAIL_FLOOR_MS` is any Unicode string.  The guard that looks for `epoch:`
  slices its first six bytes, and the number behind it may be any u64, zero included;
  the boundaries of the clock that is built are kept in 64 bits of nanoseconds.
-/

import MixTor.Lib.Text
import MixTor.Transport.TailAlignment

namespace MixTor

open Text

/-- Epoch length of the production policy. -/
def defaultEpochDuration : Duration := .fromSecs 5

/-- `v.parse::<u64>()`. -/
def parseU64 (v : Str) : Option Nat := fromStrRadix 10 (2 ^ 64 - 1) v

namespace TailPolicy

/-- The guard `v.len() > 6 && v[..6].eq_ignore_ascii_case("epoch:")`. -/
def isEpochWithPeriod (v : Str) : Option Bool :=
  if 6 < byteLen v then (sliceTo v 6).map (eqIgnoreAsciiCase · "epoch:".toList) else some false

/-- Parse `MIXTOR_TAIL_FLOOR_MS`, at the instant at which a clock would be built.  `none` is
    a panic, `some none` that the caller picks the default. -/
def fromEnv (var : Option Str) (now : Instant) : Option (Option TailPolicy) :=
  match var with
  | none => some none
  | some v =>
      if eqIgnoreAsciiCase v "epoch".toList then some (some (.epoch ⟨now, defaultEpochDuration⟩))
      else match isEpochWithPeriod v with
        | none => none
        | some true =>
            (sliceFrom v 6).map fun digits =>
              (parseU64 digits).map fun ms => .epoch ⟨now, .fromMillis ms⟩
        | some false =>
            some <|
              if eqIgnoreAsciiCase v "class".toList then some .byClass
              else if eqIgnoreAsciiCase v "off".toList || eqIgnoreAsciiCase v "none".toList then
                some .off
              else match parseU64 v with
                | some 0 => some .off
                | some ms => some (.fixed (.fromMillis ms))
                | none => none

-- ============================================================================
-- Which values build a clock
-- ============================================================================

/-- The value asks for an epoch clock of this period. -/
inductive NamesEpoch (v : Str) : Duration → Prop
  | default (h : eqIgnoreAsciiCase v "epoch".toList = true) : NamesEpoch v defaultEpochDuration
  | period (pre digits : Str) (ms : Nat) (hv : v = pre ++ digits)
      (hpre : eqIgnoreAsciiCase pre "epoch:".toList = true) (hms : parseU64 digits = some ms) :
      NamesEpoch v (.fromMillis ms)

/-- The first six bytes are whole characters, or there are no more than six. -/
def Cuttable (v : Str) : Prop := byteLen v ≤ 6 ∨ isCharBoundary v 6

instance (v : Str) : Decidable (Cuttable v) := inferInstanceAs (Decidable (_ ∨ _))

/-- Lower case, where it differs, is a letter of ASCII as well. -/
theorem utf8Size_toLower (c : Char) : c.toLower.utf8Size = c.utf8Size := by
  by_cases hup : c.val ≥ 'A'.val ∧ c.val ≤ 'Z'.val
  · have hall : ∀ n < 128, (Char.ofNat n).toLower.utf8Size = (Char.ofNat n).utf8Size := by
      decide +kernel
    have hascii : c.toNat < 128 := by
      exact lt_of_le_of_lt (UInt32.le_iff_toNat_le.mp hup.2) (by decide)
    have := hall c.toNat hascii
    rwa [Char.ofNat_toNat] at this
  · exact congrArg Char.utf8Size (dif_neg hup)

/-- Letter case does not change the length. -/
theorem byteLen_of_eqIgnoreAsciiCase {s t : Str} (h : eqIgnoreAsciiCase s t = true) :
    byteLen s = byteLen t := by
  have hlower : ∀ s : Str, byteLen (s.map Char.toLower) = byteLen s := by
    intro s
    induction s with
    | nil => rfl
    | cons c s ih => rw [List.map_cons, byteLen_cons, byteLen_cons, utf8Size_toLower, ih]
  rw [← hlower s, ← hlower t, beq_iff_eq.mp h]

/-- `epoch` has five bytes. -/
theorem byteLen_of_eq_epoch {v : Str} (h : eqIgnoreAsciiCase v "epoch".toList = true) :
    byteLen v = 5 :=
  byteLen_of_eqIgnoreAsciiCase h

/-- `epoch:` has six. -/
theorem byteLen_of_eq_epoch_colon {v : Str} (h : eqIgnoreAsciiCase v "epoch:".toList = true) :
    byteLen v = 6 :=
  byteLen_of_eqIgnoreAsciiCase h

/-- A value that can be cut at all is cut there by the guard. -/
theorem exists_split {v : Str} (hcut : Cuttable v) (hlong : 6 < byteLen v) :
    ∃ pre digits, splitAt v 6 = some (pre, digits) ∧ v = pre ++ digits ∧ byteLen pre = 6 := by
  obtain ⟨⟨pre, digits⟩, hsplit⟩ :=
    Option.isSome_iff_exists.mp (hcut.resolve_left (not_le.mpr hlong))
  exact ⟨pre, digits, hsplit, splitAt_eq_some.mp hsplit⟩

/-- The guard panics exactly at the values that cannot be cut. -/
theorem isEpochWithPeriod_eq_none {v : Str} : isEpochWithPeriod v = none ↔ ¬ Cuttable v := by
  constructor
  · intro h hcut
    unfold isEpochWithPeriod at h
    split at h
    · next hlong =>
        obtain ⟨pre, digits, hsplit, -⟩ := exists_split hcut hlong
        rw [sliceTo, hsplit] at h
        cases h
    · cases h
  · intro hcut
    obtain ⟨hlong, hbound⟩ := not_or.mp hcut
    rw [isEpochWithPeriod, if_pos (not_le.mp hlong), sliceTo,
      Option.not_isSome_iff_eq_none.mp hbound]
    rfl

/-- The guard matches exactly the values that start with `epoch:` and go on. -/
theorem isEpochWithPeriod_eq_true {v : Str} :
    isEpochWithPeriod v = some true ↔
      ∃ pre digits, v = pre ++ digits ∧ eqIgnoreAsciiCase pre "epoch:".toList = true ∧
        digits ≠ [] := by
  constructor
  · intro h
    unfold isEpochWithPeriod at h
    split at h
    · next hlong =>
        obtain ⟨pre, hpre, hmatch⟩ := Option.map_eq_some_iff.mp h
        obtain ⟨⟨pre', digits⟩, hsplit, rfl⟩ := Option.map_eq_some_iff.mp hpre
        obtain ⟨rfl, hlen⟩ := splitAt_eq_some.mp hsplit
        refine ⟨pre', digits, rfl, hmatch, ?_⟩
        rintro rfl
        rw [byteLen_append, hlen] at hlong
        exact Nat.lt_irrefl _ hlong
    · cases h
  · rintro ⟨pre, digits, rfl, hmatch, hne⟩
    have hlen := byteLen_of_eq_epoch_colon hmatch
    obtain ⟨c, rest, rfl⟩ := List.exists_cons_of_ne_nil hne
    have hlong : 6 < byteLen (pre ++ c :: rest) := by
      rw [byteLen_append, byteLen_cons, hlen]
      have := c.utf8Size_pos
      omega
    rw [isEpochWithPeriod, if_pos hlong, sliceTo, splitAt_eq_some.mpr ⟨rfl, hlen⟩]
    exact congrArg some hmatch

/-- What the guard matches is not `epoch` itself. -/
theorem not_epoch_of_isEpochWithPeriod {v : Str} (h : isEpochWithPeriod v = some true) :
    ¬ eqIgnoreAsciiCase v "epoch".toList = true := by
  intro hepoch
  rw [isEpochWithPeriod, if_neg (by rw [byteLen_of_eq_epoch hepoch]; decide)] at h
  cases h

/-- The value panics the parser exactly when its sixth byte ends no character. -/
theorem fromEnv_eq_none {v : Str} {now : Instant} : fromEnv (some v) now = none ↔ ¬ Cuttable v := by
  constructor
  · intro h hcut
    simp only [fromEnv] at h
    split at h
    · cases h
    · split at h
      · next hguard => exact isEpochWithPeriod_eq_none.mp hguard hcut
      · next hguard =>
          obtain ⟨pre, digits, rfl, hmatch, -⟩ := isEpochWithPeriod_eq_true.mp hguard
          rw [sliceFrom, splitAt_eq_some.mpr ⟨rfl, byteLen_of_eq_epoch_colon hmatch⟩] at h
          cases h
      · cases h
  · intro hcut
    have hepoch : ¬ eqIgnoreAsciiCase v "epoch".toList = true := fun h =>
      hcut (.inl (by rw [byteLen_of_eq_epoch h]; decide))
    simp only [fromEnv]
    rw [if_neg hepoch, isEpochWithPeriod_eq_none.mpr hcut]

/-- Behind `epoch:` the number decides. -/
theorem fromEnv_period {pre digits : Str} {now : Instant}
    (hmatch : eqIgnoreAsciiCase pre "epoch:".toList = true) (hne : digits ≠ []) :
    fromEnv (some (pre ++ digits)) now
      = some ((parseU64 digits).map fun ms => .epoch ⟨now, .fromMillis ms⟩) := by
  have hguard := isEpochWithPeriod_eq_true.mpr ⟨pre, digits, rfl, hmatch, hne⟩
  simp only [fromEnv]
  rw [if_neg (not_epoch_of_isEpochWithPeriod hguard), hguard, sliceFrom,
    splitAt_eq_some.mpr ⟨rfl, byteLen_of_eq_epoch_colon hmatch⟩]
  rfl

/-- The parser builds the clocks that the value names, and no other. -/
theorem fromEnv_epoch {v : Str} {now : Instant} {clock : EpochClock} :
    fromEnv (some v) now = some (some (.epoch clock)) ↔
      clock.origin = now ∧ NamesEpoch v clock.period := by
  constructor
  · intro h
    simp only [fromEnv] at h
    split at h
    · next hepoch =>
        obtain rfl := TailPolicy.epoch.inj (Option.some.inj (Option.some.inj h))
        exact ⟨rfl, .default hepoch⟩
    · split at h
      · cases h
      · next hguard =>
          obtain ⟨pre, digits, rfl, hmatch, -⟩ := isEpochWithPeriod_eq_true.mp hguard
          rw [sliceFrom, splitAt_eq_some.mpr ⟨rfl, byteLen_of_eq_epoch_colon hmatch⟩] at h
          obtain ⟨ms, hms, hclock⟩ := Option.map_eq_some_iff.mp (Option.some.inj h)
          obtain rfl := TailPolicy.epoch.inj hclock
          exact ⟨rfl, .period pre digits ms rfl hmatch hms⟩
      · -- the other values build no clock
        have h := Option.some.inj h
        split at h
        · cases h
        · split at h
          · cases h
          · split at h <;> cases h
  · obtain ⟨origin, period⟩ := clock
    rintro ⟨rfl, hnamed⟩
    cases hnamed with
    | default hepoch =>
        simp only [fromEnv]
        rw [if_pos hepoch]
        rfl
    | period pre digits ms hv hmatch hms =>
        have hne : digits ≠ [] := by
          rintro rfl
          cases hms
        rw [hv, fromEnv_period hmatch hne, hms]
        rfl

-- ============================================================================
-- The values for which the clocks run
-- ============================================================================

/-- The value does not panic the parser, and what is built at `origin` names a later
    instant as the boundary of every instant from there on. -/
def Sound (v : Str) (origin : Instant) : Prop :=
  ∃ policy, fromEnv (some v) origin = some policy ∧
    ∀ clock, policy = some (.epoch clock) → ∀ now, clock.origin ≤ now →
      now < clock.nextBoundary now

/-- The same for the instants up to `horizon` after the clock was built. -/
def SoundUpTo (v : Str) (origin : Instant) (horizon : Duration) : Prop :=
  ∃ policy, fromEnv (some v) origin = some policy ∧
    ∀ clock, policy = some (.epoch clock) → ∀ now, clock.origin ≤ now →
      now - clock.origin ≤ horizon → now < clock.nextBoundary now

/-- Boundaries of this period lie ahead for so long: the next one fits into 64 bits, or,
    where not even the period does, what is left of it is ahead. -/
def Outlasts (period horizon : Duration) : Prop :=
  0 < period ∧ (period < 2 ^ 64 → Grid.next period horizon < 2 ^ 64) ∧
    (2 ^ 64 ≤ period → horizon < period % 2 ^ 64)

end TailPolicy

namespace EpochClock

variable {clock : EpochClock}

/-- Counted from the origin, the boundary is the truncated point of the grid. -/
theorem lt_nextBoundary_iff (hp : 0 < clock.period) (x : Duration) :
    clock.origin + x < clock.nextBoundary (clock.origin + x)
      ↔ x < Grid.next clock.period x % 2 ^ 64 := by
  rw [nextBoundary, if_neg (Nat.ne_of_gt hp), Nat.add_sub_cancel_left]
  exact Nat.add_lt_add_iff_left

/-- The boundaries lie ahead up to a horizon exactly when the period outlasts it. -/
theorem ahead_upTo_iff {horizon : Duration} :
    (∀ now, clock.origin ≤ now → now - clock.origin ≤ horizon → now < clock.nextBoundary now) ↔
      TailPolicy.Outlasts clock.period horizon := by
  rcases Nat.eq_zero_or_pos clock.period with h0 | hp
  · -- without a period the boundary is the instant itself
    refine ⟨fun h => ?_, fun h => absurd h.1 (by rw [h0]; decide)⟩
    have := h clock.origin le_rfl (by rw [Nat.sub_self]; exact Nat.zero_le _)
    rw [nextBoundary, if_pos h0] at this
    exact absurd this (Nat.lt_irrefl _)
  · have hgrid : (∀ now, clock.origin ≤ now → now - clock.origin ≤ horizon →
        now < clock.nextBoundary now) ↔
          ∀ x ≤ horizon, x < Grid.next clock.period x % 2 ^ 64 := by
      constructor
      · intro h x hx
        exact (lt_nextBoundary_iff hp x).mp
          (h _ (Nat.le_add_right _ _) (by rwa [Nat.add_sub_cancel_left]))
      · intro h now horigin hnow
        have := (lt_nextBoundary_iff hp _).mpr (h _ hnow)
        rwa [Nat.add_sub_of_le horigin] at this
    rw [hgrid, Grid.lt_next_mod_iff hp (by decide), TailPolicy.Outlasts, and_iff_right hp]

/-- 2^64 nanoseconds after its origin no clock has a boundary ahead. -/
theorem not_always_ahead (clock : EpochClock) :
    ¬ ∀ now, clock.origin ≤ now → now < clock.nextBoundary now := by
  intro h
  have hp : 0 < clock.period := (ahead_upTo_iff.mp fun now hnow _ => h now hnow :
    TailPolicy.Outlasts clock.period 0).1
  have := (lt_nextBoundary_iff hp (2 ^ 64)).mp (h _ (Nat.le_add_right _ _))
  exact absurd this (not_lt.mpr (Grid.next_mod_le (by decide) _))

end EpochClock

namespace TailPolicy

/-- **The values of the tail variable.** A value is parsed without a panic exactly when it
    can be cut behind its sixth byte; the clocks it builds name a later boundary for every
    instant up to a horizon exactly when the period it names outlasts the horizon, and for
    every instant there is exactly when it names none. -/
theorem fromEnv_sound_iff (v : Str) (origin : Instant) :
    (Sound v origin ↔ Cuttable v ∧ ∀ period, ¬ NamesEpoch v period) ∧
      ∀ horizon, SoundUpTo v origin horizon ↔
        Cuttable v ∧ ∀ period, NamesEpoch v period → Outlasts period horizon := by
  have hparsed : ∀ P : Option TailPolicy → Prop,
      (∃ policy, fromEnv (some v) origin = some policy ∧ P policy) ↔
        Cuttable v ∧ ∀ policy, fromEnv (some v) origin = some policy → P policy := by
    intro P
    constructor
    · rintro ⟨policy, hpolicy, hP⟩
      refine ⟨?_, fun policy' h => Option.some.inj (hpolicy.symm.trans h) ▸ hP⟩
      by_contra hcut
      rw [fromEnv_eq_none.mpr hcut] at hpolicy
      cases hpolicy
    · rintro ⟨hcut, hP⟩
      obtain ⟨policy, hpolicy⟩ := Option.ne_none_iff_exists'.mp fun h => fromEnv_eq_none.mp h hcut
      exact ⟨policy, hpolicy, hP policy hpolicy⟩
  constructor
  · rw [Sound, hparsed]
    refine and_congr_right fun _ => ⟨fun h period hnamed => ?_, ?_⟩
    · exact EpochClock.not_always_ahead ⟨origin, period⟩
        (h _ (fromEnv_epoch.mpr ⟨rfl, hnamed⟩) _ rfl)
    · rintro h policy hpolicy clock rfl
      exact absurd (fromEnv_epoch.mp hpolicy).2 (h _)
  · intro horizon
    rw [SoundUpTo, hparsed]
    refine and_congr_right fun _ => ⟨fun h period hnamed => ?_, ?_⟩
    · exact EpochClock.ahead_upTo_iff.mp
        (h _ (fromEnv_epoch.mpr ⟨rfl, hnamed⟩) ⟨origin, period⟩ rfl)
    · rintro h policy hpolicy clock rfl
      exact EpochClock.ahead_upTo_iff.mpr (h _ (fromEnv_epoch.mp hpolicy).2)

/-- A euro sign across the sixth byte panics the guard; `epoch:0` builds a clock without a
    period, whose boundary is the instant itself. -/
theorem fromEnv_panics_or_stands_still :
    fromEnv (some "aaaaa€".toList) 0 = none ∧
      fromEnv (some "epoch:0".toList) 0 = some (some (.epoch ⟨0, 0⟩)) ∧
      ¬ 3 < (EpochClock.mk 0 0).nextBoundary 3 ∧
      ¬ (∀ v origin, Sound v origin) := by
  have hpanic : fromEnv (some "aaaaa€".toList) 0 = none := by decide +kernel
  refine ⟨hpanic, by decide +kernel, by decide, fun h => ?_⟩
  obtain ⟨policy, hpolicy, -⟩ := h "aaaaa€".toList 0
  rw [hpanic] at hpolicy
  cases hpolicy

end TailPolicy

end MixTor
