/-
  MixTor.Lib.Pipe

  A pipe: what a writer puts in at one end a reader takes out at the other, in
  order, and the reader is told of the end when it has everything.

  The state keeps both histories.  A run of the pipe from its start can reach
  only states that are `Sound`: the output is a first part of the input, and a
  closed pipe has ended and has delivered it all.
-/

import MixTor.Lib.Machine

/-- A pipe with what went in and what came out. -/
structure Pipe (α : Type*) where
  input : List α
  output : List α
  /-- The writer has ended. -/
  ended : Bool
  /-- The reader has been told so. -/
  closed : Bool
  deriving DecidableEq, Repr

namespace Pipe

variable {α : Type*}

def new : Pipe α := ⟨[], [], false, false⟩

inductive Event (α : Type*) where
  /-- The writer puts items in. -/
  | push (items : List α)
  /-- The writer ends. -/
  | finish
  /-- The reader takes the next `n` items out. -/
  | pull (n : Nat)
  /-- The reader sees the end. -/
  | close

def step [DecidableEq α] (p : Pipe α) : Event α → Option (Pipe α)
  | .push items => if p.ended then none else some { p with input := p.input ++ items }
  | .finish => if p.ended then none else some { p with ended := true }
  | .pull n =>
      if !p.closed ∧ p.output.length + n ≤ p.input.length then
        some { p with output := p.output ++ (p.input.drop p.output.length).take n }
      else none
  | .close =>
      if !p.closed ∧ p.ended ∧ p.output = p.input then some { p with closed := true } else none

/-- Nothing comes out that was not put in before, in order, and the end is not
    announced before everything is out. -/
structure Sound (p : Pipe α) : Prop where
  ordered : p.output <+: p.input
  complete : p.closed = true → p.ended = true ∧ p.output = p.input

variable [DecidableEq α] {p q : Pipe α}

theorem step_sound {e : Event α} (h : p.Sound) (hstep : p.step e = some q) : q.Sound := by
  obtain ⟨hord, hcomp⟩ := h
  cases e with
  | push items =>
      rw [step] at hstep
      split at hstep
      · cases hstep
      · next hopen =>
        obtain rfl := Option.some.inj hstep
        exact ⟨hord.trans (List.prefix_append _ _), fun hc => absurd (hcomp hc).1 hopen⟩
  | finish =>
      rw [step] at hstep
      split at hstep
      · cases hstep
      · next hopen =>
        obtain rfl := Option.some.inj hstep
        exact ⟨hord, fun hc => absurd (hcomp hc).1 hopen⟩
  | pull n =>
      rw [step] at hstep
      split at hstep
      · next hguard =>
        obtain rfl := Option.some.inj hstep
        refine ⟨?_, fun hc => absurd hc (by simpa using hguard.1)⟩
        obtain ⟨rest, hrest⟩ := hord
        simp only [← hrest, List.drop_left]
        exact (List.prefix_append_right_inj _).mpr (List.take_prefix _ _)
      · cases hstep
  | close =>
      rw [step] at hstep
      split at hstep
      · next hguard =>
        obtain rfl := Option.some.inj hstep
        exact ⟨hord, fun _ => hguard.2⟩
      · cases hstep

/-- Every state a pipe can reach is sound. -/
theorem run_sound {es : List (Event α)} (hrun : Machine.run step new es = some p) : p.Sound :=
  Machine.run_invariant (fun _ _ _ h hs => step_sound h hs)
    ⟨List.prefix_rfl, fun h => absurd h Bool.false_ne_true⟩ hrun

/-- A pull of what comes next. -/
theorem step_pull {items : List α} (hclosed : p.closed = false)
    (hnext : p.output ++ items <+: p.input) :
    p.step (.pull items.length) = some { p with output := p.output ++ items } := by
  obtain ⟨rest, hrest⟩ := hnext
  have hlen : p.output.length + items.length ≤ p.input.length := by
    rw [← hrest, List.length_append, List.length_append]
    exact Nat.le_add_right _ _
  rw [step, if_pos ⟨by rw [hclosed]; rfl, hlen⟩, ← hrest, List.append_assoc, List.drop_left,
    List.take_left]

/-- The end, once everything is out. -/
theorem step_close (hclosed : p.closed = false) (hended : p.ended = true)
    (hout : p.output = p.input) : p.step .close = some { p with closed := true } := by
  rw [step, if_pos ⟨by rw [hclosed]; rfl, hended, hout⟩]

end Pipe
