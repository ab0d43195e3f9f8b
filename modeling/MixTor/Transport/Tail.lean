/-
  MixTor.Transport.Tail

  Tail cover (transport.rs, session_bounder.rs): how long and how far a flow is
  padded after its reader has ended.

  Under `epoch` the deadline is the first epoch boundary after both the end of
  the reader and the class floor; the other policies count the floor from the
  start of the session alone.
-/

import MixTor.Transport.Cell

namespace MixTor

/-- Coarse session size/duration buckets. -/
inductive SessionClass where
  | short
  | medium
  | long
  | veryLong
  deriving DecidableEq, Repr

namespace SessionClass

/-- Total wire bytes to emit for this session class. -/
def targetVolumeBytes : SessionClass → Nat
  | short => 64 * 1024
  | medium => 1 * 1024 * 1024
  | long => 16 * 1024 * 1024
  | veryLong => 256 * 1024 * 1024

/-- Total wall-clock duration this session should appear to last. -/
def targetDuration : SessionClass → Duration
  | short => .fromSecs 30
  | medium => .fromSecs (5 * 60)
  | long => .fromSecs (30 * 60)
  | veryLong => .fromSecs (2 * 60 * 60)

end SessionClass

/-- Per-session class boundaries. -/
structure FuzzedClassThresholds where
  shortMax : Nat
  mediumMax : Nat
  longMax : Nat
  deriving DecidableEq, Repr

/-- Assign a class to a session that sent `realBytes`. -/
def FuzzedClassThresholds.classify (th : FuzzedClassThresholds) (realBytes : Nat) :
    SessionClass :=
  if realBytes ≤ th.shortMax then .short
  else if realBytes ≤ th.mediumMax then .medium
  else if realBytes ≤ th.longMax then .long
  else .veryLong

/-- Lifetime floor and wire-volume target in cells. -/
def classTargetsFuzzy (realBytes : Nat) (th : FuzzedClassThresholds) : Duration × Nat :=
  let cls := th.classify realBytes
  (cls.targetDuration, cls.targetVolumeBytes / cellBytes)

/-- A shared wall-clock epoch timer. -/
structure EpochClock where
  origin : Instant
  period : Duration
  deriving DecidableEq, Repr

/-- The nearest epoch boundary after `now`.  `duration_since` saturates, and the
    boundary is cast from u128 to u64 nanoseconds. -/
def EpochClock.nextBoundary (c : EpochClock) (now : Instant) : Instant :=
  if c.period = 0 then now
  else c.origin + ((now - c.origin) / c.period + 1) * c.period % 2 ^ 64

/-- Tail-cover policy of a flow. -/
inductive TailPolicy where
  | off
  | fixed (floor : Duration)
  | byClass
  | epoch (clock : EpochClock)
  deriving DecidableEq, Repr

/-- Cells per volume quantum under a fixed floor. -/
def tailVolumeQuantumCells : Nat := 256

/-- Absolute deadline and wire-volume target in cells the tail must reach, or
    `none` when tail cover is disabled.  Only `epoch` reads the clock. -/
def tailTargets (realBytes wireSeq : Nat) (policy : TailPolicy) (th : FuzzedClassThresholds)
    (sessionStart : Instant) (clk : Clock) : Option (Instant × Nat) × Clock :=
  match policy with
  | .off => (none, clk)
  | .fixed floor =>
      let q := tailVolumeQuantumCells
      (some (sessionStart + floor, min (wireSeq + (q - 1)) (2 ^ 64 - 1) / q * q), clk)
  | .byClass =>
      let (floor, vol) := classTargetsFuzzy realBytes th
      (some (sessionStart + floor, vol), clk)
  | .epoch clock =>
      let (floor, _) := classTargetsFuzzy realBytes th
      let minDeadline := sessionStart + floor
      let anchor := if clk.now < minDeadline then minDeadline else clk.now
      (some (clock.nextBoundary anchor, 0), clk.later)

end MixTor
