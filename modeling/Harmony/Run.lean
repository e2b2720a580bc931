import Mathlib.Tactic.Common

/-!
# Runs of a machine

A machine is a function from a state and an event to the next state, or to a
fault. A run takes a list of events one after the other. What is preserved
by a step is preserved by a run (`Run.invariant`), also where the steps
preserve it only under a condition that every step of the run is known to
meet (`Run.Throughout`).
-/

namespace Run

variable {σ ε φ : Type} (step : σ → ε → Except φ σ)

/-- The events in turn, up to the first fault. -/
def exec (s : σ) : List ε → Except φ σ
  | [] => .ok s
  | e :: es =>
    match step s e with
    | .ok s => exec s es
    | .error f => .error f

/-- **Every step of the run meets the condition**, in the state it is taken
in. -/
def Throughout (guard : σ → ε → Prop) (s : σ) : List ε → Prop
  | [] => True
  | e :: es => guard s e ∧ ∀ s', step s e = .ok s' → Throughout guard s' es

variable {step}

theorem exec_nil (s : σ) : exec step s [] = .ok s := rfl

theorem exec_cons_of_ok {s s' : σ} {e : ε} (h : step s e = .ok s')
    (es : List ε) : exec step s (e :: es) = exec step s' es := by
  rw [exec, h]

/-- A run in two parts. -/
theorem exec_append_of_ok {s s' : σ} {es : List ε}
    (h : exec step s es = .ok s') (es' : List ε) :
    exec step s (es ++ es') = exec step s' es' := by
  induction es generalizing s with
  | nil =>
    cases h
    rfl
  | cons e es ih =>
    rw [exec] at h
    rw [List.cons_append, exec]
    cases hstep : step s e with
    | error f =>
      rw [hstep] at h
      cases h
    | ok s₁ =>
      rw [hstep] at h
      exact ih h

/-- A run that ends has taken its first step. -/
theorem step_of_exec_cons {s t : σ} {e : ε} {es : List ε}
    (h : exec step s (e :: es) = .ok t) :
    ∃ s', step s e = .ok s' ∧ exec step s' es = .ok t := by
  cases hstep : step s e with
  | error f =>
    rw [exec, hstep] at h
    cases h
  | ok s' =>
    rw [exec_cons_of_ok hstep] at h
    exact ⟨s', rfl, h⟩

/-- A run that has been observed to end. -/
theorem exists_of_map_exec {τ : Type} {f : σ → τ} {y : τ} {s : σ} {es : List ε}
    (h : (exec step s es).map f = .ok y) :
    ∃ t, exec step s es = .ok t ∧ f t = y := by
  cases hrun : exec step s es with
  | error e =>
    rw [hrun] at h
    cases h
  | ok t =>
    rw [hrun] at h
    exact ⟨t, rfl, Except.ok.inj h⟩

/-- A run that has been observed to fail. -/
theorem error_of_map_exec {τ : Type} {f : σ → τ} {e : φ} {s : σ} {es : List ε}
    (h : (exec step s es).map f = .error e) : exec step s es = .error e := by
  cases hrun : exec step s es with
  | error e' =>
    rw [hrun] at h
    cases h
    rfl
  | ok t =>
    rw [hrun] at h
    cases h

/-- A condition that is always met. -/
theorem throughout_of_forall {guard : σ → ε → Prop} (h : ∀ s e, guard s e)
    {s : σ} {es : List ε} : Throughout step guard s es := by
  induction es generalizing s with
  | nil => trivial
  | cons e es ih => exact ⟨h s e, fun _ _ => ih⟩

/-- **What every guarded step preserves holds after every guarded run.** -/
theorem invariant {guard : σ → ε → Prop} {I : σ → Prop}
    (hstep : ∀ s e s', I s → guard s e → step s e = .ok s' → I s')
    {s t : σ} {es : List ε} (hI : I s) (hguard : Throughout step guard s es)
    (h : exec step s es = .ok t) : I t := by
  induction es generalizing s with
  | nil =>
    cases h
    exact hI
  | cons e es ih =>
    obtain ⟨s', hs, hrest⟩ := step_of_exec_cons h
    exact ih (hstep s e s' hI hguard.1 hs) (hguard.2 s' hs) hrest

/-- **What every step preserves holds after every run.** -/
theorem invariant_of_step {I : σ → Prop}
    (hstep : ∀ s e s', I s → step s e = .ok s' → I s')
    {s t : σ} {es : List ε} (hI : I s) (h : exec step s es = .ok t) : I t :=
  invariant (fun s e s' hs (_ : True) => hstep s e s' hs) hI
    (throughout_of_forall fun _ _ => trivial) h

/-- **A run whose guarded steps never fail ends**, and keeps what they
keep. -/
theorem exec_ok {guard : σ → ε → Prop} {I : σ → Prop}
    (hstep : ∀ s e, I s → guard s e → ∃ s', step s e = .ok s' ∧ I s')
    {s : σ} {es : List ε} (hI : I s) (hguard : Throughout step guard s es) :
    ∃ t, exec step s es = .ok t ∧ I t := by
  induction es generalizing s with
  | nil => exact ⟨s, rfl, hI⟩
  | cons e es ih =>
    obtain ⟨s', hs, hI'⟩ := hstep s e hI hguard.1
    obtain ⟨t, ht, hIt⟩ := ih hI' (hguard.2 s' hs)
    exact ⟨t, (exec_cons_of_ok hs es).trans ht, hIt⟩

/-- **A fault that no step ends in while the invariant holds** is not what a
run ends in. -/
theorem exec_ne_error {I : σ → Prop} {f : φ}
    (hstep : ∀ s e s', I s → step s e = .ok s' → I s')
    (hne : ∀ s e, I s → step s e ≠ .error f) {s : σ} (hI : I s)
    (es : List ε) : exec step s es ≠ .error f := by
  induction es generalizing s with
  | nil => exact fun h => by cases h
  | cons e es ih =>
    cases hs : step s e with
    | error f' =>
      rw [exec, hs]
      intro h
      cases h
      exact hne s e hI hs
    | ok s' =>
      rw [exec_cons_of_ok hs]
      exact ih (hstep s e s' hI hs)

/-- Two conditions that are both met throughout. -/
theorem Throughout.and {guard guard' : σ → ε → Prop} {s : σ} {es : List ε}
    (h : Throughout step guard s es) (h' : Throughout step guard' s es) :
    Throughout step (fun s e => guard s e ∧ guard' s e) s es := by
  induction es generalizing s with
  | nil => trivial
  | cons e es ih =>
    exact ⟨⟨h.1, h'.1⟩, fun s' hs => ih (h.2 s' hs) (h'.2 s' hs)⟩

/-- A condition that is met at a step that is taken, and after it. -/
theorem throughout_cons_of_ok {guard : σ → ε → Prop} {s s' : σ} {e : ε}
    {es : List ε} (h : step s e = .ok s') :
    Throughout step guard s (e :: es)
      ↔ guard s e ∧ Throughout step guard s' es := by
  refine and_congr_right fun _ => ⟨fun hall => hall s' h, ?_⟩
  intro hrest s'' hs
  rw [h] at hs
  cases hs
  exact hrest

/-- After a fault there is nothing to meet. -/
theorem throughout_cons_of_error {guard : σ → ε → Prop} {s : σ} {e : ε}
    {es : List ε} {f : φ} (h : step s e = .error f) :
    Throughout step guard s (e :: es) ↔ guard s e := by
  refine and_iff_left fun s' hs => ?_
  rw [h] at hs
  cases hs

/-- **A run does not end in a fault** if and only if none of its steps does. -/
theorem exec_ne_error_iff {guard : σ → ε → Prop} {f : φ}
    (hguard : ∀ s e, step s e ≠ .error f ↔ guard s e) (s : σ) (es : List ε) :
    exec step s es ≠ .error f ↔ Throughout step guard s es := by
  induction es generalizing s with
  | nil => exact iff_of_true (fun h => by cases h) trivial
  | cons e es ih =>
    cases hstep : step s e with
    | error f' =>
      rw [exec, hstep, throughout_cons_of_error hstep, ← hguard, hstep]
    | ok s' =>
      have hok : guard s e := by
        rw [← hguard, hstep]
        exact fun h => by cases h
      rw [exec_cons_of_ok hstep, throughout_cons_of_ok hstep, ih s']
      exact (and_iff_right hok).symm

/-- **A machine follows another** if each of its steps is one of the other
machine, seen through `f`. -/
theorem exec_of_simulation {τ ε' : Type} {step' : τ → ε' → Except φ τ}
    {f : σ → τ} (hstep : ∀ s e s', step s e = .ok s' →
      ∃ e', step' (f s) e' = .ok (f s'))
    {s t : σ} {es : List ε} (h : exec step s es = .ok t) :
    ∃ es', exec step' (f s) es' = .ok (f t) := by
  induction es generalizing s with
  | nil =>
    cases h
    exact ⟨[], rfl⟩
  | cons e es ih =>
    obtain ⟨s', hs, hrest⟩ := step_of_exec_cons h
    obtain ⟨e', he'⟩ := hstep s e s' hs
    obtain ⟨es', hes'⟩ := ih hrest
    exact ⟨e' :: es', (exec_cons_of_ok he' es').trans hes'⟩

/-- **Two machines in step**: where each event takes both on, or neither, so
does each run, and what relates the states still does. -/
theorem exec_lockstep {τ φ' : Type} {step' : τ → ε → Except φ' τ}
    {R : σ → τ → Prop} {f : φ} {f' : φ'}
    (hstep : ∀ s t e, R s t →
      (∃ s' t', step s e = .ok s' ∧ step' t e = .ok t' ∧ R s' t')
        ∨ (step s e = .error f ∧ step' t e = .error f'))
    {s : σ} {t : τ} (hR : R s t) (es : List ε) :
    (∃ s' t', exec step s es = .ok s' ∧ exec step' t es = .ok t' ∧ R s' t')
      ∨ (exec step s es = .error f ∧ exec step' t es = .error f') := by
  induction es generalizing s t with
  | nil => exact .inl ⟨s, t, rfl, rfl, hR⟩
  | cons e es ih =>
    rcases hstep s t e hR with ⟨s', t', hs, ht, hR'⟩ | ⟨hs, ht⟩
    · rw [exec_cons_of_ok hs, exec_cons_of_ok ht]
      exact ih hR'
    · rw [exec, exec, hs, ht]
      exact .inr ⟨rfl, rfl⟩

/-- **What is recorded along a run**: a relation between the state and the record
that every step keeps holds behind the run. -/
theorem exec_foldl {β : Type} {R : σ → β → Prop} {record : β → ε → β}
    (hstep : ∀ s b e s', R s b → step s e = .ok s' → R s' (record b e))
    {s t : σ} {b : β} {es : List ε} (hR : R s b) (h : exec step s es = .ok t) :
    R t (es.foldl record b) := by
  induction es generalizing s b with
  | nil =>
    cases h
    exact hR
  | cons e es ih =>
    obtain ⟨s', hs, hrest⟩ := step_of_exec_cons h
    exact ih (hstep s b e s' hR hs) hrest

/-- A condition that can be decided at every step can be decided
throughout. -/
instance decidableThroughout {guard : σ → ε → Prop}
    [∀ s e, Decidable (guard s e)] (s : σ) (es : List ε) :
    Decidable (Throughout step guard s es) :=
  match es with
  | [] => isTrue trivial
  | e :: es =>
    match h : step s e with
    | .ok s' =>
      have : Decidable (Throughout step guard s' es) :=
        decidableThroughout s' es
      decidable_of_iff _ (throughout_cons_of_ok h).symm
    | .error _ => decidable_of_iff _ (throughout_cons_of_error h).symm

end Run
