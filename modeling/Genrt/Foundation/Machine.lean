import Mathlib

/-!
# Labelled transition systems

A machine has initial states and labelled steps. The induction over a run is
packaged once: a property of the initial states that every step from a
reachable state keeps holds in every reachable state.
-/

/-- Initial states and labelled steps over a state type. -/
structure Machine (σ ℓ : Type) where
  initial : σ → Prop
  step : σ → ℓ → σ → Prop

namespace Machine

variable {σ ℓ : Type} (machine : Machine σ ℓ)

/-- The states of all finite runs. -/
inductive Reachable : σ → Prop where
  | initial {s : σ} (start : machine.initial s) : Reachable s
  | step {s t : σ} {label : ℓ} (reached : Reachable s) (taken : machine.step s label t) :
      Reachable t

/-- The states a run visits after `s`, whose steps all meet a side condition. -/
inductive Run (allowed : σ → ℓ → Prop) : σ → σ → Prop where
  | refl (s : σ) : Run allowed s s
  | step {s t u : σ} {label : ℓ} (before : Run allowed s t) (guard : allowed t label)
      (taken : machine.step t label u) : Run allowed s u

variable {machine}

/-- An invariant: it holds initially and each step from a reachable state keeps it. -/
theorem Reachable.invariant {inv : σ → Prop} (start : ∀ s, machine.initial s → inv s)
    (keep : ∀ s label t, machine.Reachable s → inv s → machine.step s label t → inv t) {s : σ}
    (reached : machine.Reachable s) : inv s := by
  induction reached with
  | initial first => exact start _ first
  | step reached taken ih => exact keep _ _ _ reached ih taken

variable {allowed : σ → ℓ → Prop}

theorem Reachable.run {s t : σ} (reached : machine.Reachable s) (run : machine.Run allowed s t) :
    machine.Reachable t := by
  induction run with
  | refl => exact reached
  | step _ _ taken ih => exact ih.step taken

theorem Run.trans {s t u : σ} (first : machine.Run allowed s t) (second : machine.Run allowed t u) :
    machine.Run allowed s u := by
  induction second with
  | refl => exact first
  | step _ guard taken ih => exact ih.step guard taken

/-- An invariant of the steps that meet the side condition holds along a run. -/
theorem Run.invariant {inv : σ → Prop}
    (keep : ∀ s label t, inv s → allowed s label → machine.step s label t → inv t) {s t : σ}
    (run : machine.Run allowed s t) (start : inv s) : inv t := by
  induction run with
  | refl => exact start
  | step _ guard taken ih => exact keep _ _ _ ih guard taken

/-! ### Executions -/

/-- Execute labels one after the other. -/
def execute (next : σ → ℓ → Option σ) (s : σ) (labels : List ℓ) : Option σ := labels.foldlM next s

variable {next : σ → ℓ → Option σ}

theorem Run.of_execute {s t : σ} {labels : List ℓ}
    (sound : ∀ s, ∀ label ∈ labels, ∀ t, next s label = some t →
      allowed s label ∧ machine.step s label t) (executed : execute next s labels = some t) :
    machine.Run allowed s t := by
  induction labels generalizing s with
  | nil =>
    cases executed
    exact .refl _
  | cons label rest ih =>
    rw [execute, List.foldlM_cons, Option.bind_eq_bind, Option.bind_eq_some_iff] at executed
    obtain ⟨u, first, executed⟩ := executed
    obtain ⟨guard, taken⟩ := sound s label (.head _) u first
    have step : machine.Run allowed s u := .step (.refl s) guard taken
    exact step.trans (ih (fun s later member => sound s later (.tail _ member))
      executed)

theorem Reachable.of_execute (sound : ∀ s label t, next s label = some t → machine.step s label t)
    {s t : σ} {labels : List ℓ} (reached : machine.Reachable s)
    (executed : execute next s labels = some t) : machine.Reachable t :=
  have run : machine.Run (fun _ _ => True) s t :=
    .of_execute (fun s label _ t taken => ⟨trivial, sound s label t taken⟩) executed
  reached.run run

/-- Take a move that neither halts nor is disabled. -/
def attempt {ε : Type} (move : σ → ℓ → Except ε (Option σ)) (s : σ) (label : ℓ) : Option σ :=
  match move s label with
  | .error _ => none
  | .ok t => t

theorem attempt_eq_some {ε : Type} {move : σ → ℓ → Except ε (Option σ)} {s t : σ} {label : ℓ} :
    attempt move s label = some t ↔ move s label = .ok (some t) := by
  unfold attempt
  cases move s label with
  | error failure => simp
  | ok next => simp

/-- What an execution shows holds in some reachable state. -/
theorem exists_executed {ε : Type} {move : σ → ℓ → Except ε (Option σ)}
    (sound : ∀ s label t, move s label = .ok (some t) → machine.step s label t) {first : σ}
    (initial : machine.initial first) (labels : List ℓ) (shows : σ → Bool)
    (executed : (execute (attempt move) first labels).any shows = true) :
    ∃ s, machine.Reachable s ∧ shows s = true := by
  obtain ⟨s, run, shown⟩ := (Option.any_eq_true _ _).mp executed
  have reached : machine.Reachable first := .initial initial
  exact ⟨s, reached.of_execute (fun s label t taken => sound s label t (attempt_eq_some.mp taken))
    run, shown⟩

end Machine
