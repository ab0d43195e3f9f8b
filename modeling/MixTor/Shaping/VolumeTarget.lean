/-
  MixTor.Shaping.VolumeTarget

  Whole sessions of a `SessionBounder` (session_bounder.rs): real bytes that are
  recorded, dummy bytes that are emitted as the schedule asks for them, and the final
  padding.

  The schedule distributes the padding that the real bytes recorded so far leave.  Real
  bytes that come later can no longer take back what was emitted.
-/

import MixTor.Lib.Machine
import MixTor.Shaping.CoverBudget

namespace MixTor

namespace SessionBounder

/-- Dummy bytes to emit at session teardown. -/
def finalPaddingBytes (b : SessionBounder) (dummyBytesEmitted : Nat) : Nat :=
  b.sessionClass.targetVolumeBytes - b.realBytesSent - dummyBytesEmitted

/-- The padding that `recorded` real bytes leave, in proportion to the time elapsed. -/
def linearSchedule (F : F64) (cls : SessionClass) (recorded : Nat) (elapsed : Duration) : Nat :=
  if cls.targetVolumeBytes - recorded = 0 then 0
  else (Double.mul F (.ofNat F (cls.targetVolumeBytes - recorded))
    ((Double.div F (.finite (Duration.asSecsF64 F elapsed))
      (.finite (Duration.asSecsF64 F cls.targetDuration))).min (.finite 1))).roundAsUsize

/-- What is needed now is what is missing on the schedule. -/
theorem dummyBytesNeededNow_eq (F : F64) (clk : Clock) (b : SessionBounder) (emitted : Nat) :
    (b.dummyBytesNeededNow F clk emitted).1 =
      linearSchedule F b.sessionClass b.realBytesSent (clk.now - b.sessionStart) - emitted := by
  simp only [dummyBytesNeededNow, linearSchedule]
  split
  · rw [Nat.zero_sub]
  · rfl

end SessionBounder

/-- A session on the wire: its bounder, and the bytes that went out. -/
structure BoundedSession where
  bounder : SessionBounder
  realBytes : Nat
  dummyBytes : Nat

namespace BoundedSession

inductive Event where
  | real (bytes : Nat)
  /-- The owner asks for the dummy bytes needed now and emits them. -/
  | emit (clk : Clock)

/-- The real bytes of an event. -/
def Event.realBytes : Event → Nat
  | .real bytes => bytes
  | .emit _ => 0

def start (clk : Clock) (sessionClass : SessionClass) : BoundedSession :=
  ⟨(SessionBounder.new clk sessionClass).1, 0, 0⟩

def sendReal (s : BoundedSession) (bytes : Nat) : BoundedSession :=
  { s with bounder := s.bounder.recordRealBytes bytes, realBytes := s.realBytes + bytes }

def emitNeeded (F : F64) (clk : Clock) (s : BoundedSession) : BoundedSession :=
  { s with dummyBytes := s.dummyBytes + (s.bounder.dummyBytesNeededNow F clk s.dummyBytes).1 }

def step (F : F64) (s : BoundedSession) : Event → Option BoundedSession
  | .real bytes => some (s.sendReal bytes)
  | .emit clk => some (s.emitNeeded F clk)

/-- The bytes on the wire after the final padding. -/
def totalVolume (s : BoundedSession) : Nat :=
  s.realBytes + s.dummyBytes + s.bounder.finalPaddingBytes s.dummyBytes

/-- An emission leaves room for all `total` real bytes of the session. -/
def LeavesRoom (F : F64) (total : Nat) (s : BoundedSession) : Event → Prop
  | .real _ => True
  | .emit clk =>
      SessionBounder.linearSchedule F s.bounder.sessionClass s.bounder.realBytesSent
          (clk.now - s.bounder.sessionStart)
        ≤ s.bounder.sessionClass.targetVolumeBytes - total

/-- The real bytes of a run. -/
def realTotal (events : List Event) : Nat := (events.map Event.realBytes).sum

variable {F : F64} {s : BoundedSession} {events : List Event}

/-- The bounder has counted the real bytes, and they fit the class. -/
structure Counted (s : BoundedSession) (cls : SessionClass) : Prop where
  sessionClass : s.bounder.sessionClass = cls
  real : s.bounder.realBytesSent = s.realBytes

theorem targetVolumeBytes_lt (cls : SessionClass) : cls.targetVolumeBytes < 2 ^ 64 := by
  cases cls <;> decide

theorem Counted.sendReal {cls : SessionClass} (h : s.Counted cls) {bytes : Nat}
    (hfits : s.realBytes + bytes ≤ cls.targetVolumeBytes) : (s.sendReal bytes).Counted cls where
  sessionClass := h.sessionClass
  real := by
    have hsmall := targetVolumeBytes_lt cls
    show min (s.bounder.realBytesSent + bytes) (2 ^ 64 - 1) = s.realBytes + bytes
    rw [h.real]
    exact min_eq_left (by omega)

/-- Emissions bring the dummy bytes up to the schedule, and they stay within the room that
    the real bytes leave exactly if each of them does.  The induction is on the events. -/
theorem exists_run {cls : SessionClass} {total : Nat} (hcounted : s.Counted cls)
    (hfits : s.realBytes + realTotal events = total) (hle : total ≤ cls.targetVolumeBytes) :
    ∃ t, Machine.run (step F) s events = some t ∧ t.Counted cls ∧ t.realBytes = total ∧
      (t.dummyBytes ≤ cls.targetVolumeBytes - total ↔
        s.dummyBytes ≤ cls.targetVolumeBytes - total ∧
          Machine.Meets (step F) (LeavesRoom F total) s events) := by
  induction events generalizing s with
  | nil =>
      refine ⟨s, rfl, hcounted, hfits, ?_⟩
      exact ⟨fun h => ⟨h, trivial⟩, fun h => h.1⟩
  | cons e events ih =>
      rw [realTotal, List.map_cons, List.sum_cons] at hfits
      cases e with
      | real bytes =>
          have hsum : (s.sendReal bytes).realBytes + realTotal events = total :=
            (Nat.add_assoc _ _ _).trans hfits
          obtain ⟨t, hrun, htcounted, htreal, hiff⟩ :=
            ih (hcounted.sendReal ((Nat.le_add_right _ _).trans (hsum.trans_le hle))) hsum
          have hstep : step F s (.real bytes) = some (s.sendReal bytes) := rfl
          refine ⟨t, hrun, htcounted, htreal, hiff.trans ?_⟩
          rw [Machine.meets_cons_of_step hstep]
          exact ⟨fun h => ⟨h.1, trivial, h.2⟩, fun h => ⟨h.1, h.2.2⟩⟩
      | emit clk =>
          have hsum : (s.emitNeeded F clk).realBytes + realTotal events = total :=
            (congrArg (s.realBytes + ·) (Nat.zero_add _)).symm.trans hfits
          obtain ⟨t, hrun, htcounted, htreal, hiff⟩ :=
            ih (s := s.emitNeeded F clk) ⟨hcounted.sessionClass, hcounted.real⟩ hsum
          have hstep : step F s (.emit clk) = some (s.emitNeeded F clk) := rfl
          have hemitted : (s.emitNeeded F clk).dummyBytes = s.dummyBytes
              + (SessionBounder.linearSchedule F s.bounder.sessionClass s.bounder.realBytesSent
                (clk.now - s.bounder.sessionStart) - s.dummyBytes) :=
            congrArg (s.dummyBytes + ·) (SessionBounder.dummyBytesNeededNow_eq F clk _ _)
          refine ⟨t, hrun, htcounted, htreal, hiff.trans ?_⟩
          rw [Machine.meets_cons_of_step hstep, hemitted, LeavesRoom, hcounted.sessionClass]
          constructor
          · rintro ⟨hroom, hmeets⟩
            exact ⟨by omega, by omega, hmeets⟩
          · rintro ⟨hroom, hleaves, hmeets⟩
            exact ⟨by omega, hmeets⟩

/-- **One volume for every session of a class.**  A session whose real bytes fit its class
    ends at the target volume if and only if every emission left room for all of
    them. -/
theorem totalVolume_eq_iff (F : F64) (clk : Clock) (cls : SessionClass) (events : List Event)
    (hfits : realTotal events ≤ cls.targetVolumeBytes) :
    ∃ s, Machine.run (step F) (start clk cls) events = some s ∧
      (s.totalVolume = cls.targetVolumeBytes ↔
        Machine.Meets (step F) (LeavesRoom F (realTotal events)) (start clk cls) events) := by
  have hstart : (start clk cls).Counted cls := ⟨rfl, rfl⟩
  obtain ⟨s, hrun, hcounted, hreal, hiff⟩ :=
    exists_run (F := F) hstart (Nat.zero_add (realTotal events)) hfits
  refine ⟨s, hrun, ?_⟩
  have hmeets : s.dummyBytes ≤ cls.targetVolumeBytes - realTotal events ↔
      Machine.Meets (step F) (LeavesRoom F (realTotal events)) (start clk cls) events :=
    hiff.trans ⟨fun h => h.2, fun h => ⟨Nat.zero_le _, h⟩⟩
  rw [← hmeets, totalVolume, SessionBounder.finalPaddingBytes, hcounted.sessionClass,
    hcounted.real, hreal]
  omega

/-- Real bytes first, then the schedule. -/
theorem totalVolume_eq_iff_sample :
    ∃ s, Machine.run (step .steep) (start (.const 0) .short)
        [.real 1000, .emit (.const 30000000000)] = some s ∧
      (s.totalVolume = SessionClass.short.targetVolumeBytes ↔
        Machine.Meets (step .steep) (LeavesRoom .steep 1000) (start (.const 0) .short)
          [.real 1000, .emit (.const 30000000000)]) :=
  totalVolume_eq_iff .steep (.const 0) .short [.real 1000, .emit (.const 30000000000)]
    (by decide)

/-- When the time is over all the padding has been emitted; a real byte that comes then is
    one too many. -/
theorem totalVolume_exceeds :
    realTotal [.emit (.const 30000000000), .real 1] ≤ SessionClass.short.targetVolumeBytes ∧
    (Machine.run (step .steep) (start (.const 0) .short)
        [.emit (.const 30000000000), .real 1]).map totalVolume
      = some (SessionClass.short.targetVolumeBytes + 1) := by
  decide +kernel

end BoundedSession

end MixTor
