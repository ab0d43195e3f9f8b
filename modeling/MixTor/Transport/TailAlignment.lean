/-
  MixTor.Transport.TailAlignment

  Epoch boundaries, and the tail deadlines that lie on them.

  Under `TailPolicy::Epoch` a flow that ends is padded to the first boundary after
  its anchor: the end of its reader, or the class floor counted from the start of
  its session, whichever is later.  Flows whose anchors fall in one epoch therefore
  stop together, however far apart they started and ended.
-/

import MixTor.Lib.Grid
import MixTor.Transport.Tail

namespace MixTor

namespace EpochClock

variable {clock : EpochClock} {now a b : Instant}

/-- The boundary after `now` is less than 2^64 ns away from the origin. -/
def InRange (clock : EpochClock) (now : Instant) : Prop :=
  Grid.next clock.period (now - clock.origin) < 2 ^ 64

/-- In range, the boundary is the next point of the grid of epochs. -/
theorem nextBoundary_eq (hp : 0 < clock.period) (hrange : clock.InRange now) :
    clock.nextBoundary now = clock.origin + Grid.next clock.period (now - clock.origin) := by
  rw [nextBoundary, if_neg (Nat.ne_of_gt hp)]
  exact congrArg (clock.origin + ·) (Nat.mod_eq_of_lt hrange)

/-- The boundary lies strictly after the instant it was asked for. -/
theorem lt_nextBoundary (hp : 0 < clock.period) (hrange : clock.InRange now) :
    now < clock.nextBoundary now := by
  rw [nextBoundary_eq hp hrange]
  calc now
    _ ≤ clock.origin + (now - clock.origin) := Nat.sub_le_iff_le_add'.mp le_rfl
    _ < clock.origin + Grid.next clock.period (now - clock.origin) :=
        Nat.add_lt_add_left (Grid.lt_next hp _) _

theorem nextBoundary_le (hp : 0 < clock.period) (horigin : clock.origin ≤ now)
    (hrange : clock.InRange now) : clock.nextBoundary now ≤ now + clock.period := by
  rw [nextBoundary_eq hp hrange]
  calc clock.origin + Grid.next clock.period (now - clock.origin)
    _ ≤ clock.origin + (now - clock.origin + clock.period) :=
        Nat.add_le_add_left (Grid.next_le_add _ _) _
    _ = now + clock.period := by rw [← Nat.add_assoc, Nat.add_sub_of_le horigin]

/-- What comes before an instant in range is in range. -/
theorem InRange.of_le (hp : 0 < clock.period) (hrange : clock.InRange b) (hle : a ≤ b) :
    clock.InRange a :=
  (Grid.next_mono hp (Nat.sub_le_sub_right hle _)).trans_lt hrange

theorem nextBoundary_mono (hp : 0 < clock.period) (hrange : clock.InRange b) (hle : a ≤ b) :
    clock.nextBoundary a ≤ clock.nextBoundary b := by
  rw [nextBoundary_eq hp hrange, nextBoundary_eq hp (hrange.of_le hp hle)]
  exact Nat.add_le_add_left (Grid.next_mono hp (Nat.sub_le_sub_right hle _)) _

/-- Two instants of one epoch `[origin + k * period, origin + (k + 1) * period)`. -/
def SameEpoch (clock : EpochClock) (a b : Instant) : Prop :=
  ∃ k, (clock.origin + k * clock.period ≤ a ∧ a < clock.origin + (k + 1) * clock.period) ∧
    clock.origin + k * clock.period ≤ b ∧ b < clock.origin + (k + 1) * clock.period

/-- The instants of one epoch share their boundary, in range or not. -/
theorem nextBoundary_eq_of_sameEpoch (h : clock.SameEpoch a b) :
    clock.nextBoundary a = clock.nextBoundary b := by
  obtain ⟨k, ⟨halo, hahi⟩, hblo, hbhi⟩ := h
  have hnext : Grid.next clock.period (a - clock.origin)
      = Grid.next clock.period (b - clock.origin) :=
    Grid.next_eq_of_mem_cell (Nat.le_sub_of_add_le' halo)
      (Nat.sub_lt_left_of_lt_add ((Nat.le_add_right _ _).trans halo) hahi)
      (Nat.le_sub_of_add_le' hblo)
      (Nat.sub_lt_left_of_lt_add ((Nat.le_add_right _ _).trans hblo) hbhi)
  have hp : clock.period ≠ 0 := by
    intro h0
    rw [h0, Nat.mul_zero] at halo hahi
    exact absurd halo (Nat.not_le_of_lt hahi)
  rw [nextBoundary, nextBoundary, if_neg hp, if_neg hp]
  exact congrArg (fun n => clock.origin + n % 2 ^ 64) hnext

end EpochClock

/-- When the class floor of a session has passed. -/
def floorEnd (realBytes : Nat) (th : FuzzedClassThresholds) (sessionStart : Instant) : Instant :=
  sessionStart + (classTargetsFuzzy realBytes th).1

/-- What the tail of a flow is anchored at, if its reader ends at `eof`. -/
def tailAnchor (realBytes : Nat) (th : FuzzedClassThresholds) (sessionStart eof : Instant) :
    Instant :=
  max eof (floorEnd realBytes th sessionStart)

/-- Under `epoch` the deadline is the boundary after the anchor. -/
theorem tailTargets_epoch (realBytes wireSeq : Nat) (clock : EpochClock)
    (th : FuzzedClassThresholds) (sessionStart : Instant) (clk : Clock) :
    (tailTargets realBytes wireSeq (.epoch clock) th sessionStart clk).1
      = some (clock.nextBoundary (tailAnchor realBytes th sessionStart clk.now), 0) := by
  have hanchor : (if clk.now < floorEnd realBytes th sessionStart
      then floorEnd realBytes th sessionStart else clk.now)
        = tailAnchor realBytes th sessionStart clk.now := by
    rw [tailAnchor]
    split
    · next hlt => exact (Nat.max_eq_right (Nat.le_of_lt hlt)).symm
    · next hge => exact (Nat.max_eq_left (Nat.le_of_not_lt hge)).symm
  rw [← hanchor]
  rfl

/-- Where a deadline may lie. -/
structure AlignedDeadline (clock : EpochClock) (eof floorEnd deadline : Instant) : Prop where
  on_grid : ∃ k, 0 < k ∧ deadline = clock.origin + k * clock.period
  after_eof : eof < deadline
  after_floor : floorEnd ≤ deadline
  within_period : deadline ≤ max eof floorEnd + clock.period

/-- The boundary after the anchor is an aligned deadline. -/
theorem alignedDeadline_nextBoundary {clock : EpochClock} (hp : 0 < clock.period)
    {eof floorEnd : Instant} (horigin : clock.origin ≤ max eof floorEnd)
    (hrange : clock.InRange (max eof floorEnd)) :
    AlignedDeadline clock eof floorEnd (clock.nextBoundary (max eof floorEnd)) := by
  have hlt := EpochClock.lt_nextBoundary hp hrange
  refine ⟨⟨_, Nat.succ_pos _, EpochClock.nextBoundary_eq hp hrange⟩, ?_, ?_,
    EpochClock.nextBoundary_le hp horigin hrange⟩
  · exact (Nat.le_max_left _ _).trans_lt hlt
  · exact (Nat.le_max_right _ _).trans (Nat.le_of_lt hlt)

/-- **Tails end on epoch boundaries.** For every clock with a period and every
    volume, thresholds, start and end of a session, the deadline of its tail is a
    boundary after the end of the reader, not before the class floor and at most one
    period after the later of the two; flows whose anchors fall in one epoch get one
    deadline; and boundaries are monotone and strictly later than what they were
    asked for. -/
theorem epochTail_aligned (clock : EpochClock) (hp : 0 < clock.period) :
    (∀ realBytes wireSeq th sessionStart clk, clock.origin ≤ sessionStart →
      clock.origin ≤ clk.now → clock.InRange (tailAnchor realBytes th sessionStart clk.now) →
      ∃ deadline,
        (tailTargets realBytes wireSeq (.epoch clock) th sessionStart clk).1 = some (deadline, 0) ∧
        AlignedDeadline clock clk.now (floorEnd realBytes th sessionStart) deadline) ∧
    (∀ realBytes₁ wireSeq₁ th₁ sessionStart₁ clk₁ realBytes₂ wireSeq₂ th₂ sessionStart₂ clk₂,
      clock.SameEpoch (tailAnchor realBytes₁ th₁ sessionStart₁ clk₁.now)
        (tailAnchor realBytes₂ th₂ sessionStart₂ clk₂.now) →
      (tailTargets realBytes₁ wireSeq₁ (.epoch clock) th₁ sessionStart₁ clk₁).1
        = (tailTargets realBytes₂ wireSeq₂ (.epoch clock) th₂ sessionStart₂ clk₂).1) ∧
    (∀ a b, a ≤ b → clock.InRange b → clock.nextBoundary a ≤ clock.nextBoundary b) ∧
    ∀ now, clock.InRange now → now < clock.nextBoundary now := by
  refine ⟨?_, ?_, ?_, ?_⟩
  · intro realBytes wireSeq th sessionStart clk _ hnow hrange
    exact ⟨_, tailTargets_epoch .., alignedDeadline_nextBoundary hp
      (hnow.trans (Nat.le_max_left _ _)) hrange⟩
  · intro _ _ _ _ _ _ _ _ _ _ hsame
    rw [tailTargets_epoch, tailTargets_epoch, EpochClock.nextBoundary_eq_of_sameEpoch hsame]
  · exact fun a b hle hrange => EpochClock.nextBoundary_mono hp hrange hle
  · exact fun now hrange => EpochClock.lt_nextBoundary hp hrange

/-- Two sessions under a clock of five seconds, one short and one long: the first
    ends in its floor of 30 s, the second after it, in the same epoch. -/
theorem epochTail_aligned_two_flows :
    let clock : EpochClock := ⟨7, .fromSecs 5⟩
    let th : FuzzedClassThresholds := ⟨65536, 1048576, 16777216⟩
    0 < clock.period ∧ clock.SameEpoch (tailAnchor 1000 th 8 (Duration.fromSecs 1))
      (tailAnchor 500 th 9 (Duration.fromSecs 31)) ∧
    AlignedDeadline clock (Duration.fromSecs 1) (floorEnd 1000 th 8) (7 + Duration.fromSecs 35) ∧
    (tailTargets 1000 0 (.epoch clock) th 8 (.const (Duration.fromSecs 1))).1
      = (tailTargets 500 3 (.epoch clock) th 9 (.const (Duration.fromSecs 31))).1 := by
  intro clock th
  have hp : 0 < clock.period := by decide
  obtain ⟨haligned, hsame, -, -⟩ := epochTail_aligned clock hp
  have hcell : clock.SameEpoch (tailAnchor 1000 th 8 (Duration.fromSecs 1))
      (tailAnchor 500 th 9 (Duration.fromSecs 31)) := ⟨6, by decide, by decide⟩
  refine ⟨hp, hcell, ?_, hsame 1000 0 th 8 (.const (Duration.fromSecs 1)) 500 3 th 9
    (.const (Duration.fromSecs 31)) hcell⟩
  obtain ⟨deadline, hdeadline, hal⟩ := haligned 1000 0 th 8 (.const (Duration.fromSecs 1))
    (by decide) (by decide) (show Grid.next _ _ < 2 ^ 64 by decide)
  have heval : (tailTargets 1000 0 (.epoch clock) th 8 (.const (Duration.fromSecs 1))).1
      = some (7 + Duration.fromSecs 35, 0) := by
    decide
  obtain ⟨rfl, -⟩ := Prod.mk.inj (Option.some.inj (heval.symm.trans hdeadline))
  exact hal

end MixTor
