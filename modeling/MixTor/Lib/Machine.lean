/-
  MixTor.Lib.Machine

  Event-driven machines and their runs.

  A machine is a partial step function `σ → ε → Option σ`: every choice of the
  environment (which task moves, what a socket answers, what the clock reads)
  is part of the event, and `none` says that the event cannot happen in that
  state.  A run is a list of events.

  Two predicates speak about a whole run: `Always P` says that `P` holds in
  every state the run goes through, `Meets c` that every step of the run is
  taken in a state where `c` allows it.  The rules at the end connect the two:
  an invariant that every allowed step keeps holds along every run that meets
  the condition, and where a step outside the condition breaks the property
  the two are equivalent.
-/

import Mathlib.Data.List.Basic

namespace Machine

variable {σ ε : Type*}

/-- The states after the events `es`, taken in order from `s`. -/
def run (step : σ → ε → Option σ) (s : σ) : List ε → Option σ
  | [] => some s
  | e :: es => (step s e).bind fun t => run step t es

/-- `P` holds in `s` and in every state the events `es` lead through. -/
def Always (step : σ → ε → Option σ) (P : σ → Prop) (s : σ) : List ε → Prop
  | [] => P s
  | e :: es => P s ∧ ∀ t, step s e = some t → Always step P t es

/-- Every event of `es` that happens does so in a state where `c` allows it. -/
def Meets (step : σ → ε → Option σ) (c : σ → ε → Prop) (s : σ) : List ε → Prop
  | [] => True
  | e :: es => ∀ t, step s e = some t → c s e ∧ Meets step c t es

variable {step : σ → ε → Option σ} {P Q I : σ → Prop} {c : σ → ε → Prop}

theorem run_cons (s : σ) (e : ε) (es : List ε) :
    run step s (e :: es) = (step s e).bind fun t => run step t es := rfl

theorem run_cons_eq_some {s u : σ} {e : ε} {es : List ε} :
    run step s (e :: es) = some u ↔ ∃ t, step s e = some t ∧ run step t es = some u := by
  rw [run_cons, Option.bind_eq_some_iff]

theorem run_append (s : σ) (es fs : List ε) :
    run step s (es ++ fs) = (run step s es).bind fun t => run step t fs := by
  induction es generalizing s with
  | nil => rfl
  | cons e es ih =>
      rw [List.cons_append, run_cons, run_cons]
      cases step s e with
      | none => rfl
      | some t => exact ih t

/-- The state a run starts in is one of the states it goes through. -/
theorem Always.head {s : σ} {es : List ε} (h : Always step P s es) : P s := by
  cases es with
  | nil => exact h
  | cons e es => exact h.1

/-- A property of every state holds in the last one. -/
theorem Always.last {s u : σ} {es : List ε} (h : Always step P s es)
    (hrun : run step s es = some u) : P u := by
  induction es generalizing s with
  | nil =>
      obtain rfl := Option.some.inj hrun
      exact h
  | cons e es ih =>
      obtain ⟨t, ht, htu⟩ := run_cons_eq_some.mp hrun
      exact ih (h.2 t ht) htu

theorem Always.mono (hPQ : ∀ s, P s → Q s) {s : σ} {es : List ε}
    (h : Always step P s es) : Always step Q s es := by
  induction es generalizing s with
  | nil => exact hPQ s h
  | cons e es ih => exact ⟨hPQ s h.1, fun t ht => ih (h.2 t ht)⟩

/-- A condition that the events of a run meet in every state. -/
theorem meets_of_mem {es : List ε} (hc : ∀ e ∈ es, ∀ s, c s e) (s : σ) :
    Meets step c s es := by
  induction es generalizing s with
  | nil => trivial
  | cons e es ih =>
      intro t _
      exact ⟨hc e List.mem_cons_self s, ih (fun e' he' => hc e' (List.mem_cons_of_mem _ he')) t⟩

theorem meets_cons_of_step {s t : σ} {e : ε} {es : List ε} (ht : step s e = some t) :
    Meets step c s (e :: es) ↔ c s e ∧ Meets step c t es := by
  constructor
  · exact fun h => h t ht
  · intro h t' ht'
    obtain rfl := Option.some.inj (ht.symm.trans ht')
    exact h

/-- A run meets a condition if its first part does and the rest does from there on. -/
theorem meets_append_of_run {s t : σ} {es fs : List ε} (hrun : run step s es = some t) :
    Meets step c s (es ++ fs) ↔ Meets step c s es ∧ Meets step c t fs := by
  induction es generalizing s with
  | nil =>
      obtain rfl := Option.some.inj hrun
      exact ⟨fun h => ⟨trivial, h⟩, fun h => h.2⟩
  | cons e es ih =>
      obtain ⟨u, hu, hrest⟩ := run_cons_eq_some.mp hrun
      rw [List.cons_append, meets_cons_of_step hu, meets_cons_of_step hu, ih hrest, and_assoc]

/-- A decidable condition is decided along a run by running it. -/
instance decidableMeets [∀ s e, Decidable (c s e)] :
    (s : σ) → (es : List ε) → Decidable (Meets step c s es)
  | _, [] => isTrue trivial
  | s, e :: es =>
      match ht : step s e with
      | none => isTrue fun t ht' => by
          rw [ht] at ht'
          cases ht'
      | some t =>
          have := decidableMeets t es
          decidable_of_iff (c s e ∧ Meets step c t es) (meets_cons_of_step ht).symm

/-- A run that meets two conditions meets both at once. -/
theorem Meets.and {c' : σ → ε → Prop} {s : σ} {es : List ε} (h : Meets step c s es)
    (h' : Meets step c' s es) : Meets step (fun s e => c s e ∧ c' s e) s es := by
  induction es generalizing s with
  | nil => trivial
  | cons e es ih =>
      intro t ht
      obtain ⟨hce, hrest⟩ := h t ht
      obtain ⟨hce', hrest'⟩ := h' t ht
      exact ⟨⟨hce, hce'⟩, ih hrest hrest'⟩

/-- **Invariant rule.** What holds at the start and is kept by every step that
    the condition allows holds in every state of a run that meets it. -/
theorem always_of_meets
    (hstep : ∀ s e t, I s → c s e → step s e = some t → I t)
    {s : σ} {es : List ε} (hI : I s) (hc : Meets step c s es) : Always step I s es := by
  induction es generalizing s with
  | nil => exact hI
  | cons e es ih =>
      refine ⟨hI, fun t ht => ?_⟩
      obtain ⟨hce, hrest⟩ := hc t ht
      exact ih (hstep s e t hI hce ht) hrest

/-- A condition that follows from another one in every state of an invariant. -/
theorem Meets.imp_of_invariant {c' : σ → ε → Prop} {s : σ} {es : List ε} (h : Meets step c s es)
    (hstep : ∀ s e t, I s → c s e → step s e = some t → I t)
    (himp : ∀ s e, I s → c s e → c' s e) (hI : I s) : Meets step c' s es := by
  induction es generalizing s with
  | nil => trivial
  | cons e es ih =>
      intro t ht
      obtain ⟨hce, hrest⟩ := h t ht
      exact ⟨himp s e hI hce, ih hrest (hstep s e t hI hce ht)⟩

variable (step) in
/-- **Runs of any length.**  A run that can be extended by one more event, keeping what
    is known of its events and of its last state, can be extended `n` times.  The
    induction is on `n`. -/
theorem exists_run {J : Nat → List ε → σ → Prop} {s : σ}
    (hext : ∀ n es t, J n es t → ∃ e u, step t e = some u ∧ J (n + 1) (es ++ [e]) u)
    (hfirst : ∃ es t, run step s es = some t ∧ J 0 es t) (n : Nat) :
    ∃ es t, run step s es = some t ∧ J n es t := by
  induction n with
  | zero => exact hfirst
  | succ n ih =>
      obtain ⟨es, t, hrun, ht⟩ := ih
      obtain ⟨e, u, hstep, hu⟩ := hext n es t ht
      refine ⟨es ++ [e], u, ?_, hu⟩
      rw [run_append, hrun, Option.bind_some, run_cons, hstep]
      rfl

/-- The invariant rule without a condition. -/
theorem always_of_invariant
    (hstep : ∀ s e t, I s → step s e = some t → I t)
    {s : σ} (hI : I s) (es : List ε) : Always step I s es :=
  always_of_meets (c := fun _ _ => True) (fun s e t hs _ ht => hstep s e t hs ht) hI
    (meets_of_mem (fun _ _ _ => trivial) s)

/-- What an invariant implies of every step holds of every step of a run. -/
theorem meets_of_invariant
    (hstep : ∀ s e t, I s → step s e = some t → I t) (himp : ∀ s e, I s → c s e)
    {s : σ} (hI : I s) (es : List ε) : Meets step c s es :=
  (meets_of_mem (c := fun _ _ => True) (fun _ _ _ => trivial) s).imp_of_invariant
    (fun s e t hs _ ht => hstep s e t hs ht) (fun s e hs _ => himp s e hs) hI

/-- The invariant rule without a condition, read off at the end of the run. -/
theorem run_invariant
    (hstep : ∀ s e t, I s → step s e = some t → I t)
    {s t : σ} {es : List ε} (hI : I s) (hrun : run step s es = some t) : I t :=
  (always_of_invariant hstep hI es).last hrun

/-- The invariant rule for what is known of a state and of the events before it. -/
theorem run_history {J : List ε → σ → Prop}
    (hstep : ∀ es s e t, J es s → step s e = some t → J (es ++ [e]) t)
    {s t : σ} {es fs : List ε} (hJ : J es s) (hrun : run step s fs = some t) : J (es ++ fs) t := by
  induction fs generalizing es s with
  | nil =>
      obtain rfl := Option.some.inj hrun
      rwa [List.append_nil]
  | cons e fs ih =>
      obtain ⟨u, hu, hrest⟩ := run_cons_eq_some.mp hrun
      rw [List.append_cons]
      exact ih (hstep es s e u hJ hu) hrest

/-- **Bounded runs.**  A number that every step lowers, in the states of an invariant, bounds
    the length of a run. -/
theorem length_le_of_variant {μ : σ → Nat}
    (hstep : ∀ s e t, I s → step s e = some t → I t ∧ μ t < μ s)
    {s t : σ} {es : List ε} (hI : I s) (hrun : run step s es = some t) :
    es.length + μ t ≤ μ s := by
  induction es generalizing s with
  | nil =>
      obtain rfl := Option.some.inj hrun
      exact Nat.le_of_eq (Nat.zero_add _)
  | cons e es ih =>
      obtain ⟨u, hu, hrest⟩ := run_cons_eq_some.mp hrun
      obtain ⟨hIu, hlower⟩ := hstep s e u hI hu
      have hmore := ih hIu hrest
      rw [List.length_cons]
      omega

/-- **Total runs.**  A machine that takes every event of `E` and keeps what is known of a
    state and of the events before it takes all events of a run. -/
theorem exists_run_history {E : ε → Prop} {J : List ε → σ → Prop}
    (hstep : ∀ es s e, E e → J es s → ∃ t, step s e = some t ∧ J (es ++ [e]) t)
    {s : σ} {es fs : List ε} (hE : ∀ e ∈ fs, E e) (hJ : J es s) :
    ∃ t, run step s fs = some t ∧ J (es ++ fs) t := by
  induction fs generalizing es s with
  | nil => exact ⟨s, rfl, by rwa [List.append_nil]⟩
  | cons e fs ih =>
      obtain ⟨he, hfs⟩ := List.forall_mem_cons.mp hE
      obtain ⟨u, hu, hJu⟩ := hstep es s e he hJ
      obtain ⟨t, ht, hJt⟩ := ih hfs hJu
      rw [List.append_cons]
      exact ⟨t, run_cons_eq_some.mpr ⟨u, hu, ht⟩, hJt⟩

/-- **Exactness rule** for runs whose events all belong to `E`. Let `I` imply `P`, let
    allowed steps keep `I`, and let a step outside the condition lead to a state where `P`
    fails.  Then a run from an `I`-state satisfies `P` throughout exactly when it meets the
    condition. -/
theorem always_iff_meets_on {E : ε → Prop}
    (hIP : ∀ s, I s → P s)
    (hstep : ∀ s e t, E e → I s → c s e → step s e = some t → I t)
    (hbad : ∀ s e t, E e → I s → ¬ c s e → step s e = some t → ¬ P t)
    {s : σ} {es : List ε} (hE : ∀ e ∈ es, E e) (hI : I s) :
    Always step P s es ↔ Meets step c s es := by
  induction es generalizing s with
  | nil => exact ⟨fun _ => trivial, fun _ => hIP s hI⟩
  | cons e es ih =>
      obtain ⟨he, hes⟩ := List.forall_mem_cons.mp hE
      constructor
      · intro h t ht
        have hce : c s e := by
          by_contra hn
          exact hbad s e t he hI hn ht (h.2 t ht).head
        exact ⟨hce, (ih hes (hstep s e t he hI hce ht)).mp (h.2 t ht)⟩
      · intro h
        refine ⟨hIP s hI, fun t ht => ?_⟩
        obtain ⟨hce, hrest⟩ := h t ht
        exact (ih hes (hstep s e t he hI hce ht)).mpr hrest

/-- The exactness rule for all runs. -/
theorem always_iff_meets
    (hIP : ∀ s, I s → P s)
    (hstep : ∀ s e t, I s → c s e → step s e = some t → I t)
    (hbad : ∀ s e t, I s → ¬ c s e → step s e = some t → ¬ P t)
    {s : σ} {es : List ε} (hI : I s) : Always step P s es ↔ Meets step c s es :=
  always_iff_meets_on (E := fun _ => True) hIP (fun s e t _ => hstep s e t)
    (fun s e t _ => hbad s e t) (fun _ _ => trivial) hI

-- ============================================================================
-- Ghost state
-- ============================================================================

/-- A machine with a memory of what has happened, which no step reads. -/
def traced {γ : Type*} (remember : σ → γ → ε → γ) (step : σ → ε → Option σ) (s : σ × γ) (e : ε) :
    Option (σ × γ) :=
  (step s.1 e).map fun t => (t, remember s.1 s.2 e)

/-- A condition that follows, in every state of an invariant, from one on what is
    remembered. -/
theorem meets_of_traced {γ : Type*} {remember : σ → γ → ε → γ} {J : σ × γ → Prop}
    {c' : σ × γ → ε → Prop} (hc : ∀ s g e t, J (s, g) → step s e = some t → c' (s, g) e → c s e)
    (hstep : ∀ s g e t, J (s, g) → step s e = some t → J (t, remember s g e)) {s : σ} {g : γ}
    {es : List ε} (hJ : J (s, g)) (h : Meets (traced remember step) c' (s, g) es) :
    Meets step c s es := by
  induction es generalizing s g with
  | nil => trivial
  | cons e es ih =>
      intro t ht
      have htraced : traced remember step (s, g) e = some (t, remember s g e) := by
        rw [traced, ht, Option.map_some]
      obtain ⟨hce, hrest⟩ := h _ htraced
      exact ⟨hc s g e t hJ ht hce, ih (hstep s g e t hJ ht) hrest⟩

-- ============================================================================
-- Guards
-- ============================================================================

/-- A machine that moves only where the guard allows it. -/
def guarded (allowed : σ → ε → Bool) (step : σ → ε → Option σ) (s : σ) (e : ε) : Option σ :=
  if allowed s e then step s e else none

theorem guarded_eq_some {allowed : σ → ε → Bool} {s t : σ} {e : ε} :
    guarded allowed step s e = some t ↔ allowed s e = true ∧ step s e = some t := by
  rw [guarded]
  split
  · next h => exact ⟨fun ht => ⟨h, ht⟩, fun ht => ht.2⟩
  · next h => exact ⟨fun ht => (Option.some_ne_none t ht.symm).elim, fun ht => absurd ht.1 h⟩

/-- A guarded run is a run. -/
theorem run_guarded {allowed : σ → ε → Bool} {s t : σ} {es : List ε}
    (hrun : run (guarded allowed step) s es = some t) : run step s es = some t := by
  induction es generalizing s with
  | nil => exact hrun
  | cons e es ih =>
      obtain ⟨u, hu, hrest⟩ := run_cons_eq_some.mp hrun
      exact run_cons_eq_some.mpr ⟨u, (guarded_eq_some.mp hu).2, ih hrest⟩

-- ============================================================================
-- Two machines
-- ============================================================================

variable {σ' ε' : Type*} {step' : σ' → ε' → Option σ'} {R : σ → σ' → Prop}

/-- Every step of the first machine is matched by a run of the second, from
    related states to related states. -/
def Simulates (step : σ → ε → Option σ) (step' : σ' → ε' → Option σ') (R : σ → σ' → Prop) :
    Prop :=
  ∀ s e t s', R s s' → step s e = some t → ∃ es' t', run step' s' es' = some t' ∧ R t t'

/-- **Simulation rule.** A run of the first machine is matched by one of the second. -/
theorem Simulates.run (h : Simulates step step' R) {s t : σ} {s' : σ'} {es : List ε}
    (hR : R s s') (hrun : run step s es = some t) :
    ∃ es' t', Machine.run step' s' es' = some t' ∧ R t t' := by
  induction es generalizing s s' with
  | nil =>
      obtain rfl := Option.some.inj hrun
      exact ⟨[], s', rfl, hR⟩
  | cons e es ih =>
      obtain ⟨u, hu, hrest⟩ := run_cons_eq_some.mp hrun
      obtain ⟨es₁, u', hu', hRu⟩ := h s e u s' hR hu
      obtain ⟨es₂, t', ht', hRt⟩ := ih hRu hrest
      refine ⟨es₁ ++ es₂, t', ?_, hRt⟩
      rw [run_append, hu', Option.bind_some, ht']

/-- Two machines side by side, one of which moves at a time. -/
def both (step : σ → ε → Option σ) (step' : σ' → ε' → Option σ') (s : σ × σ') :
    ε ⊕ ε' → Option (σ × σ')
  | .inl e => (step s.1 e).map fun t => (t, s.2)
  | .inr e => (step' s.2 e).map fun t => (s.1, t)

/-- Each of the two machines makes a run of its own. -/
theorem run_both {s t : σ × σ'} {es : List (ε ⊕ ε')}
    (hrun : run (both step step') s es = some t) :
    run step s.1 (es.filterMap Sum.getLeft?) = some t.1 ∧
      run step' s.2 (es.filterMap Sum.getRight?) = some t.2 := by
  induction es generalizing s with
  | nil =>
      obtain rfl := Option.some.inj hrun
      exact ⟨rfl, rfl⟩
  | cons e es ih =>
      obtain ⟨u, hu, hrest⟩ := run_cons_eq_some.mp hrun
      obtain ⟨hl, hr⟩ := ih hrest
      cases e with
      | inl e =>
          obtain ⟨v, hv, rfl⟩ := Option.map_eq_some_iff.mp hu
          exact ⟨run_cons_eq_some.mpr ⟨v, hv, hl⟩, hr⟩
      | inr e =>
          obtain ⟨v, hv, rfl⟩ := Option.map_eq_some_iff.mp hu
          exact ⟨hl, run_cons_eq_some.mpr ⟨v, hv, hr⟩⟩

end Machine
