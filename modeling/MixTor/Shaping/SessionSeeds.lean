/-
  MixTor.Shaping.SessionSeeds

  The seed pair of a session (seeds.rs): two seeds read from the operating system, with
  their roles and a maximum age.

  A pair carries what its generation has checked, so no component sees a seed of zeros,
  two equal seeds or a seed in the other role.
-/

import MixTor.Shaping.Burst

namespace MixTor

open Crypto (Key)

/-- Errors of generating seeds. -/
inductive SeedError where
  /-- The system's generator fails. -/
  | random
  | allZeroSeed (role : SeedRole)
  | duplicateSeeds
  | invalidRotationInterval
  deriving DecidableEq, Repr

/-- Read a seed from the system, which answers `draw`. -/
def RoleSeed.generate (role : SeedRole) (draw : Option Key) : Except SeedError RoleSeed :=
  match draw with
  | none => .error .random
  | some bytes =>
      if bytes.toList.all (· == 0) then .error (.allZeroSeed role) else .ok ⟨⟨bytes⟩, role⟩

/-- The two independent seeds of a session. -/
structure SessionSeeds where
  timingAndPool : RoleSeed
  burstComposition : RoleSeed
  generatedAt : Instant
  rotationInterval : Duration
  timing_role : timingAndPool.role = .timingAndPool
  burst_role : burstComposition.role = .burstComposition
  timing_ne : timingAndPool.bytes.toList.all (· == 0) = false
  burst_ne : burstComposition.bytes.toList.all (· == 0) = false
  distinct : timingAndPool.bytes ≠ burstComposition.bytes
  interval_pos : 0 < rotationInterval

theorem RoleSeed.generate_eq_ok {role : SeedRole} {draw : Option Key} {seed : RoleSeed}
    (h : generate role draw = .ok seed) :
    draw = some seed.bytes ∧ seed.role = role ∧ seed.bytes.toList.all (· == 0) = false := by
  unfold generate at h
  split at h
  · cases h
  · next bytes =>
    split at h
    · cases h
    · next hne =>
      obtain rfl := Except.ok.inj h
      exact ⟨rfl, rfl, Bool.eq_false_iff.mpr hne⟩

namespace SessionSeeds

/-- A day. -/
def defaultRotationInterval : Duration := .fromMillis (24 * 60 * 60 * 1000)

def generateWithRotationInterval (rotationInterval : Duration) (drawA drawB : Option Key)
    (now : Instant) : Except SeedError SessionSeeds :=
  if hpos : rotationInterval = 0 then .error .invalidRotationInterval
  else
    match hA : RoleSeed.generate .timingAndPool drawA,
      hB : RoleSeed.generate .burstComposition drawB with
    | .error e, _ => .error e
    | .ok _, .error e => .error e
    | .ok a, .ok b =>
        if hne : a.bytes = b.bytes then .error .duplicateSeeds
        else .ok
          { timingAndPool := a
            burstComposition := b
            generatedAt := now
            rotationInterval
            timing_role := (RoleSeed.generate_eq_ok hA).2.1
            burst_role := (RoleSeed.generate_eq_ok hB).2.1
            timing_ne := (RoleSeed.generate_eq_ok hA).2.2
            burst_ne := (RoleSeed.generate_eq_ok hB).2.2
            distinct := hne
            interval_pos := Nat.pos_of_ne_zero hpos }

def generate (drawA drawB : Option Key) (now : Instant) : Except SeedError SessionSeeds :=
  generateWithRotationInterval defaultRotationInterval drawA drawB now

/-- The pair has reached its maximum age. -/
def shouldRotate (s : SessionSeeds) (now : Instant) : Bool :=
  decide (s.rotationInterval ≤ now - s.generatedAt)

/-- Replace both seeds, or keep them if the generation fails. -/
def rotate (s : SessionSeeds) (drawA drawB : Option Key) (now : Instant) :
    Except SeedError Unit × SessionSeeds :=
  match generateWithRotationInterval s.rotationInterval drawA drawB now with
  | .error e => (.error e, s)
  | .ok next => (.ok (), next)

/-- Two different seeds that are not zeros are a pair. -/
theorem generate_ok {a b : Key} (ha : a.toList.all (· == 0) = false)
    (hb : b.toList.all (· == 0) = false) (hne : a ≠ b) (now : Instant) :
    ∃ seeds, generate (some a) (some b) now = .ok seeds ∧ seeds.timingAndPool.bytes = a ∧
      seeds.burstComposition.bytes = b := by
  have hA : RoleSeed.generate .timingAndPool (some a) = .ok ⟨⟨a⟩, .timingAndPool⟩ := by
    simp only [RoleSeed.generate, ha, Bool.false_eq_true, if_false]
  have hB : RoleSeed.generate .burstComposition (some b) = .ok ⟨⟨b⟩, .burstComposition⟩ := by
    simp only [RoleSeed.generate, hb, Bool.false_eq_true, if_false]
  unfold generate generateWithRotationInterval
  rw [dif_neg (by decide)]
  split
  · next herr =>
    cases hA.symm.trans herr
  · next herr =>
    cases hB.symm.trans herr
  · next a' b' ha' hb' =>
    obtain rfl := Except.ok.inj (hA.symm.trans ha')
    obtain rfl := Except.ok.inj (hB.symm.trans hb')
    rw [dif_neg hne]
    exact ⟨_, rfl, rfl, rfl⟩

end SessionSeeds

end MixTor
