/-
  MixTor.Shaping.Burst

  Bursts of packets (clumping.rs), and what the layers that build and mix them
  take from outside: draws from ranges, and seeds with a role (seeds.rs).

  A draw from an empty range panics.  Operations that draw return an `Option`;
  `none` is a panic.
-/

import MixTor.Shaping.ShapedSession

namespace MixTor

-- ============================================================================
-- Draws from ranges
-- ============================================================================

/-- The draws of the `rand` crate from a range and from a coin.  A draw from a range
    that is not empty lies in the range. -/
class Rng (ρ : Type) extends RngCore ρ where
  sample : (lo hi : Nat) → lo ≤ hi → ρ → {n : Nat // lo ≤ n ∧ n ≤ hi} × ρ
  genBool : Rat → ρ → Bool × ρ

/-- `rng.gen_range(lo..=hi)`. -/
def genRange {ρ : Type} [Rng ρ] (lo hi : Nat) (rng : ρ) : Option (Nat × ρ) :=
  if h : lo ≤ hi then
    let (n, rng) := Rng.sample lo hi h rng
    some (n.1, rng)
  else none

section GenRange

variable {ρ : Type} [Rng ρ] {lo hi n : Nat} {rng rng' : ρ}

theorem genRange_mem (h : genRange lo hi rng = some (n, rng')) : lo ≤ n ∧ n ≤ hi := by
  unfold genRange at h
  split at h
  · obtain ⟨rfl, -⟩ := Prod.mk.inj (Option.some.inj h)
    exact (Rng.sample lo hi _ rng).1.2
  · cases h

/-- A draw panics exactly when its range is empty. -/
theorem genRange_eq_none : genRange lo hi rng = none ↔ hi < lo := by
  unfold genRange
  split
  · next h => exact ⟨nofun, fun hlt => absurd h (not_le.mpr hlt)⟩
  · next h => exact ⟨fun _ => not_le.mp h, fun _ => rfl⟩

theorem exists_genRange (h : lo ≤ hi) (rng : ρ) : ∃ n rng', genRange lo hi rng = some (n, rng') := by
  rw [genRange, dif_pos h]
  exact ⟨_, _, rfl⟩

end GenRange

/-- For evaluating the model: the word of the generator modulo the size of the range. -/
instance : Rng FixedRng where
  sample lo hi h rng := (⟨lo + rng.word.toNat % (hi - lo + 1), by
    have : rng.word.toNat % (hi - lo + 1) < hi - lo + 1 := Nat.mod_lt _ (Nat.succ_pos _)
    omega⟩, rng)
  genBool p rng := (decide ((rng.word.toNat : Rat) < p * 2 ^ 64), rng)

-- ============================================================================
-- Seeds
-- ============================================================================

/-- The two independent seed roles. -/
inductive SeedRole where
  | timingAndPool
  | burstComposition
  deriving DecidableEq, Repr

/-- A seed with its role. -/
structure RoleSeed extends EphemeralSeed where
  role : SeedRole
  deriving DecidableEq

-- ============================================================================
-- Bursts
-- ============================================================================

structure CycleThresholds where
  maxPackets : Nat
  timeout : Duration
  deriving DecidableEq, Repr

inductive FlushReason where
  | sizeThreshold
  | timeout
  | manual
  deriving DecidableEq, Repr

structure Burst where
  packets : List Packet
  threshold : CycleThresholds
  reason : FlushReason
  deriving DecidableEq, Repr

namespace Burst

def packetCount (b : Burst) : Nat := b.packets.length

def totalBytes (b : Burst) : Nat := (b.packets.map Packet.len).sum

end Burst

end MixTor
