/-
  MixTor.Transport.Emitter

  The shared emitter (`run_emitter`, transport.rs): it admits the flows that were
  registered and then services every flow once, dropping those that have finished.

  A finished flow is dropped with `swap_remove` while the loop runs, so the loop
  meets the flows in an order that depends on which of them finish.
-/

import MixTor.Lib.Sweep
import MixTor.Transport.ServiceFlow

namespace MixTor

open Crypto (Aead)
open Sweep (Visit survivors)

/-- What a non-blocking receive on the registration channel returns until it is empty. -/
inductive Registration (ρ : Type) where
  | ok (slot : FlowSlot ρ)
  | disconnected

/-- The local variables of `run_emitter`. -/
structure Emitter (ρ : Type) where
  flows : List (FlowSlot ρ)
  regOpen : Bool

namespace Emitter

variable {ρ : Type} [RngCore ρ]

omit [RngCore ρ] in
/-- Admit any newly-registered flows. -/
def admitNew (e : Emitter ρ) : List (Registration ρ) → Emitter ρ
  | [] => e
  | .ok slot :: rest => admitNew { e with flows := e.flows ++ [slot] } rest
  | .disconnected :: _ => { e with regOpen := false }

/-- Service every flow once; drop those that are done.  Also returns the calls of
    `service_flow` in the order in which they were made. -/
def servicePass (F : F64) (A : Aead) (calls : Nat → ServiceCall) (flows : List (FlowSlot ρ)) :
    List (FlowSlot ρ) × List (Visit (FlowSlot ρ)) :=
  Sweep.sweep (fun n => FlowSlot.serviceFlow F A (calls n)) 0 flows []

/-- One round of the emitter; `none` when it returns. -/
def turn (F : F64) (A : Aead) (registered : List (Registration ρ)) (calls : Nat → ServiceCall)
    (e : Emitter ρ) : Option (Emitter ρ) :=
  let e := if e.regOpen then e.admitNew registered else e
  if !e.regOpen && e.flows.isEmpty then none
  else some { e with flows := (servicePass F A calls e.flows).1 }

variable {F : F64} {A : Aead}

/-- **One pass services every flow once.**  Whatever `service_flow` returns for each of
    them: the calls of a pass are made on the flows of the vector, each exactly once;
    every call is the outcome of `service_flow` at that point; and the vector ends
    with the flows for which it returned `true`, as it left them, and no others. -/
theorem servicePass_once (calls : Nat → ServiceCall) (flows : List (FlowSlot ρ)) :
    ∃ kept visits, servicePass F A calls flows = (kept, visits) ∧
      (visits.map (·.before)).Perm flows ∧
      (∀ n (v : Visit (FlowSlot ρ)), visits[n]? = some v →
        v.before.serviceFlow F A (calls n) = (v.kept, v.after)) ∧
      kept = (visits.filter (·.kept)).map (·.after) := by
  obtain ⟨visits, hpass, hperm, hans⟩ :=
    Sweep.sweep_append (fun n => FlowSlot.serviceFlow F A (calls n)) [] flows []
  refine ⟨survivors visits, visits, hpass, hperm, fun n v hv => ?_, rfl⟩
  have hanswer := hans.getElem? hv
  rwa [List.length_nil, Nat.zero_add] at hanswer

end Emitter

end MixTor
