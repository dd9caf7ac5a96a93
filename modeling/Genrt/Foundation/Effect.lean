import Mathlib

/-!
# Weakest preconditions for stateful computations that may stop

A computation reads and replaces one state and either returns a value or stops
with a fault. A stopped computation has no final state: nothing runs after it.

`WP E m Q s` says both halves at once. Every fault of `m` from `s` satisfies
`E`, and every returned value and final state satisfy `Q`. Taking `E` to be
`False` proves that the computation returns; taking `E` to be `True` gives
partial correctness. `Keeps R m` packages partial correctness for a reflexive
and transitive relation between the state before and the state after, so that
it composes without naming intermediate states.
-/

/-- A computation over a state `σ` that returns an `α` or stops with an `ε`. -/
abbrev Effect (σ ε α : Type) := StateT σ (Except ε) α

namespace Effect

variable {σ ε α β : Type}

/-- Stop with `fault` when `condition` holds, and do nothing otherwise. -/
def stopIf (condition : Prop) [Decidable condition] (fault : ε) : Effect σ ε Unit :=
  if condition then throw fault else pure ()

/-- Run `m` when `condition` holds, and do nothing otherwise. -/
def onlyIf (condition : Prop) [Decidable condition] (m : Effect σ ε Unit) : Effect σ ε Unit :=
  if condition then m else pure ()

/-- The value of an option, or a stop when there is none. -/
def orStop (value : Option α) (fault : ε) : Effect σ ε α :=
  match value with
  | some a => pure a
  | none => throw fault

/-- Run `body` on every item in order. -/
def forEach {item : Type} : List item → (item → Effect σ ε Unit) → Effect σ ε Unit
  | [], _ => pure ()
  | x :: rest, body => do
      body x
      forEach rest body

/-- Every fault satisfies `E` and every normal outcome satisfies `Q`. -/
def WP (E : ε → Prop) (m : Effect σ ε α) (Q : α → σ → Prop) (s : σ) : Prop :=
  match m s with
  | .ok (a, t) => Q a t
  | .error e => E e

variable {f : α → Effect σ ε β} {e : ε} {value : Option α} {c : Prop} {a : α}

variable {n : Effect σ ε Unit} {item : Type}

section Rules

variable {E : ε → Prop} {Q Q' : α → σ → Prop} {s t : σ} {m : Effect σ ε α}

theorem WP.mono (h : WP E m Q s) (imp : ∀ a t, Q a t → Q' a t) : WP E m Q' s := by
  unfold WP at h ⊢
  split at h
  · exact imp _ _ h
  · exact h

theorem WP.mono_fault {E' : ε → Prop} (h : WP E m Q s) (imp : ∀ e, E e → E' e) : WP E' m Q s := by
  unfold WP at h ⊢
  split at h
  · exact h
  · exact imp _ h

/-- Computations are deterministic, so two postconditions combine. -/
theorem WP.and (h : WP E m Q s) (h' : WP E m Q' s) : WP E m (fun a t => Q a t ∧ Q' a t) s := by
  unfold WP at h h' ⊢
  split
  · next eq => simp only [eq] at h h'; exact ⟨h, h'⟩
  · next eq => simpa only [eq] using h

theorem WP.of_ok (h : WP E m Q s) (run : m s = .ok (a, t)) : Q a t := by
  simpa only [WP, run] using h

theorem WP.of_error (h : WP E m Q s) (run : m s = .error e) : E e := by
  simpa only [WP, run] using h

/-- A computation without faults returns. -/
theorem WP.returns (h : WP (fun _ => False) m Q s) : ∃ a t, m s = .ok (a, t) ∧ Q a t := by
  unfold WP at h
  split at h
  · next a t run => exact ⟨a, t, run, h⟩
  · exact h.elim

/-- A computed outcome replaces the computation. -/
theorem WP.of_run (run : m s = .ok (a, t)) : WP E m Q s ↔ Q a t := by
  simp only [WP, run]

theorem wp_iff : WP E m Q s ↔ (∀ a t, m s = .ok (a, t) → Q a t) ∧ (∀ e, m s = .error e → E e) := by
  unfold WP
  split
  · next a t eq => simp [eq]
  · next e eq => simp [eq]

/-- What is read off an outcome is settled by reading it off every outcome. -/
theorem map_eq_iff_wp {τ : Type} {f : α × σ → τ} {result : Except ε τ} : (m s).map f = result ↔
      WP (fun e => .error e = result) m (fun a t => .ok (f (a, t)) = result) s := by
  unfold WP
  split
  · next run => rw [run]; rfl
  · next run => rw [run]; rfl

@[simp] theorem wp_pure (a : α) : WP E (pure a) Q s ↔ Q a s := Iff.rfl

@[simp] theorem wp_throw (e : ε) : WP E (throw e : Effect σ ε α) Q s ↔ E e := Iff.rfl

variable {R : β → σ → Prop}

@[simp] theorem wp_bind (f : α → Effect σ ε β) :
    WP E (m >>= f) R s ↔ WP E m (fun a t => WP E (f a) R t) s := by
  simp only [WP, bind, StateT.bind, Except.bind]
  cases m s with
  | error e => rfl
  | ok value => rfl

theorem WP.bind (h : WP E m (fun a t => WP E (f a) R t) s) : WP E (m >>= f) R s := (wp_bind f).mpr h

@[simp] theorem wp_map (f : α → β) : WP E (f <$> m) R s ↔ WP E m (fun a t => R (f a) t) s := by
  simp only [WP, Functor.map, StateT.map, bind, Except.bind, pure, Except.pure]
  cases m s with
  | error e => rfl
  | ok value => rfl

@[simp] theorem wp_get {R : σ → σ → Prop} : WP E (get : Effect σ ε σ) R s ↔ R s s := Iff.rfl

@[simp] theorem wp_set {R : PUnit → σ → Prop} : WP E (set t : Effect σ ε PUnit) R s ↔ R ⟨⟩ t :=
  Iff.rfl

@[simp] theorem wp_modify {R : PUnit → σ → Prop} (f : σ → σ) :
    WP E (modify f : Effect σ ε PUnit) R s ↔ R ⟨⟩ (f s) := Iff.rfl

@[simp] theorem wp_modifyGet (f : σ → α × σ) :
    WP E (modifyGet f : Effect σ ε α) Q s ↔ Q (f s).1 (f s).2 := Iff.rfl

theorem wp_ite [Decidable c] {n : Effect σ ε α} :
    WP E (if c then m else n) Q s ↔ (c → WP E m Q s) ∧ (¬c → WP E n Q s) := by
  by_cases hc : c <;> simp [hc]

@[simp] theorem wp_stopIf {R : Unit → σ → Prop} [Decidable c] :
    WP E (stopIf c e) R s ↔ (c → E e) ∧ (¬c → R () s) := by
  rw [stopIf, wp_ite, wp_throw, wp_pure]

@[simp] theorem wp_onlyIf {R : Unit → σ → Prop} [Decidable c] :
    WP E (onlyIf c n) R s ↔ (c → WP E n R s) ∧ (¬c → R () s) := by
  rw [onlyIf, wp_ite, wp_pure]

@[simp] theorem wp_orStop :
    WP E (orStop value e) Q s ↔ (∀ a, value = some a → Q a s) ∧ (value = none → E e) := by
  cases value with
  | none => simp [orStop]
  | some a => simp [orStop]

/-- What follows a check, for the case that it passes and the case that it stops. -/
theorem WP.stopIf [Decidable c] {f : Unit → Effect σ ε α} (stops : c → E e)
    (passes : ¬c → WP E (f ()) Q s) : WP E (stopIf c e >>= f) Q s :=
  .bind (wp_stopIf.mpr ⟨stops, passes⟩)

theorem WP.orStop (stops : value = none → E e) (found : ∀ a, value = some a → WP E (f a) R s) :
    WP E (orStop value e >>= f) R s :=
  .bind (wp_orStop.mpr ⟨found, stops⟩)

/-- Where stops are not asked about, only the case that goes on is left. -/
theorem WP.past [Decidable c] {f : Unit → Effect σ ε α}
    (passes : ¬c → WP (fun _ => True) (f ()) Q s) :
    WP (fun _ => True) (Effect.stopIf c e >>= f) Q s :=
  .stopIf (fun _ => trivial) passes

theorem WP.given (found : ∀ a, value = some a → WP (fun _ => True) (f a) R s) :
    WP (fun _ => True) (Effect.orStop value e >>= f) R s :=
  .orStop (fun _ => trivial) found

theorem wp_orStop_some (present : value = some a) : WP E (orStop value e) Q s ↔ Q a s := by
  simp [present]

/-- A loop keeps an invariant indexed by the items still to do. -/
theorem wp_forEach {body : item → Effect σ ε Unit} (inv : List item → σ → Prop)
    (step : ∀ x rest s, inv (x :: rest) s → WP E (body x) (fun _ t => inv rest t) s)
    (items : List item) (s : σ) (start : inv items s) :
    WP E (forEach items body) (fun _ t => inv [] t) s := by
  induction items generalizing s with
  | nil => exact start
  | cons x rest ih =>
    rw [forEach, wp_bind]
    exact (step x rest s start).mono fun _ t ht => ih t ht

end Rules

/-- Every normal outcome is related to its entry state. Faults are unconstrained:
a stopped computation leaves no state behind. -/
def Keeps (R : σ → σ → Prop) (m : Effect σ ε α) : Prop :=
  ∀ s, WP (fun _ => True) m (fun _ t => R s t) s

namespace Keeps

variable {R : σ → σ → Prop} {m : Effect σ ε α}

theorem of_ok {s t : σ} (h : Keeps R m) (run : m s = .ok (a, t)) : R s t :=
  (h s).of_ok run

theorem pure (hr : ∀ s, R s s) (a : α) : Keeps R (Pure.pure a : Effect σ ε α) := fun s => hr s

theorem throw (e : ε) : Keeps R (MonadExcept.throw e : Effect σ ε α) := fun _ => trivial

theorem bind (ht : ∀ s t u, R s t → R t u → R s u) (first : Keeps R m) (next : ∀ a, Keeps R (f a)) :
    Keeps R (m >>= f) := by
  intro s
  rw [wp_bind]
  exact (first s).mono fun a t hst => (next a t).mono fun _ u htu => ht s t u hst htu

theorem ite [Decidable c] {n : Effect σ ε α} (yes : Keeps R m) (no : Keeps R n) :
    Keeps R (if c then m else n) := by
  by_cases hc : c
  · rwa [if_pos hc]
  · rwa [if_neg hc]

section

variable (hr : ∀ s, R s s)

include hr

theorem get : Keeps R (MonadState.get : Effect σ ε σ) := fun s => hr s

theorem stopIf [Decidable c] : Keeps R (stopIf c e : Effect σ ε Unit) :=
  ite (throw e) (pure hr ())

theorem onlyIf [Decidable c] (yes : Keeps R n) : Keeps R (onlyIf c n) :=
  ite yes (pure hr ())

theorem orStop : Keeps R (orStop value e : Effect σ ε α) := by
  cases value with
  | none => exact throw e
  | some a => exact pure hr a

theorem forEach (ht : ∀ s t u, R s t → R t u → R s u) {body : item → Effect σ ε Unit}
    (each : ∀ x, Keeps R (body x)) (items : List item) : Keeps R (forEach items body) := by
  induction items with
  | nil => exact pure hr ()
  | cons x rest ih => exact bind ht (each x) fun _ => ih

end

end Keeps

end Effect
