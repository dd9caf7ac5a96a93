import Mathlib

/-!
# Weakest preconditions for computations that fail with a state

A computation that fails part way may already have changed its state, and what it has
changed stays. `WP m Q R s` says that a value of `m` from `s` and the state it is returned
in satisfy `Q`, and that an error and the state it is raised in satisfy `R`.
-/

namespace Fallible

variable {σ ε α β : Type}

/-- Values satisfy `Q` and errors satisfy `R`. -/
def WP (m : EStateM ε σ α) (Q : α → σ → Prop) (R : ε → σ → Prop) (s : σ) : Prop :=
  match m s with
  | .ok a t => Q a t
  | .error e t => R e t

/-- Fail with `error` when `condition` holds, and do nothing otherwise. -/
def failIf (condition : Prop) [Decidable condition] (error : ε) : EStateM ε σ Unit :=
  if condition then throw error else pure ()

/-- Run `body` on every item in order. -/
def forEach {item : Type} : List item → (item → EStateM ε σ Unit) → EStateM ε σ Unit
  | [], _ => pure ()
  | x :: rest, body => do
      body x
      forEach rest body

variable {Q Q' : α → σ → Prop} {R R' : ε → σ → Prop} {s t : σ} {m : EStateM ε σ α}

theorem WP.mono (h : WP m Q R s) (value : ∀ a t, Q a t → Q' a t)
    (error : ∀ e t, R e t → R' e t) : WP m Q' R' s := by
  unfold WP at h ⊢
  split at h
  · exact value _ _ h
  · exact error _ _ h

theorem WP.of_ok {a : α} (h : WP m Q R s) (run : m s = .ok a t) : Q a t := by
  simpa only [WP, run] using h

variable {e : ε}

theorem WP.of_error (h : WP m Q R s) (run : m s = .error e t) : R e t := by
  simpa only [WP, run] using h

theorem wp_iff : WP m Q R s ↔ (∀ a t, m s = .ok a t → Q a t) ∧ ∀ e t, m s = .error e t → R e t := by
  unfold WP
  cases m s with
  | ok a t => simp
  | error e t => simp

@[simp] theorem wp_pure (a : α) : WP (pure a) Q R s ↔ Q a s := Iff.rfl

@[simp] theorem wp_throw (e : ε) : WP (throw e : EStateM ε σ α) Q R s ↔ R e s := Iff.rfl

@[simp] theorem wp_bind {P : β → σ → Prop} (f : α → EStateM ε σ β) :
    WP (m >>= f) P R s ↔ WP m (fun a t => WP (f a) P R t) R s := by
  simp only [WP, bind, EStateM.bind]
  cases m s with
  | ok a t => rfl
  | error e t => rfl

@[simp] theorem wp_get {P : σ → σ → Prop} : WP (get : EStateM ε σ σ) P R s ↔ P s s := Iff.rfl

@[simp] theorem wp_modify {P : PUnit → σ → Prop} (f : σ → σ) :
    WP (modify f : EStateM ε σ PUnit) P R s ↔ P ⟨⟩ (f s) := Iff.rfl

variable {c : Prop}

theorem wp_ite [Decidable c] {n : EStateM ε σ α} :
    WP (if c then m else n) Q R s ↔ (c → WP m Q R s) ∧ (¬c → WP n Q R s) := by
  by_cases hc : c <;> simp [hc]

@[simp] theorem wp_failIf {P : Unit → σ → Prop} [Decidable c] :
    WP (failIf c e) P R s ↔ (c → R e s) ∧ (¬c → P () s) := by
  rw [failIf, wp_ite, wp_throw, wp_pure]

/-- A computation that returns is followed by the rest. -/
theorem bind_of_ok {a : α} (run : m s = .ok a t) (f : α → EStateM ε σ β) : (m >>= f) s = f a t := by
  simp only [bind, EStateM.bind, run]

theorem bind_of_error (run : m s = .error e t) (f : α → EStateM ε σ β) :
    (m >>= f) s = .error e t := by
  simp only [bind, EStateM.bind, run]

theorem failIf_of_not [Decidable c] (fine : ¬c) : failIf c e s = .ok () s := by
  rw [failIf, if_neg fine]
  rfl

theorem failIf_of [Decidable c] (failed : c) : failIf c e s = .error e s := by
  rw [failIf, if_pos failed]
  rfl

/-- The handler runs in the state that the error was raised in. -/
@[simp] theorem wp_tryCatch {handle : ε → EStateM ε σ α} :
    WP (tryCatch m handle) Q R s ↔ WP m Q (fun e t => WP (handle e) Q R t) s := by
  simp only [WP, tryCatch, tryCatchThe, MonadExceptOf.tryCatch, EStateM.tryCatch]
  cases m s with
  | ok a t => rfl
  | error e t => rfl

variable {item : Type}

/-- A loop whose body keeps an invariant indexed by the items that are left. -/
theorem wp_forEach {body : item → EStateM ε σ Unit} {inv : List item → σ → Prop}
    (step : ∀ x rest s, inv (x :: rest) s → WP (body x) (fun _ t => inv rest t) R s) :
    ∀ items s, inv items s → WP (forEach items body) (fun _ t => inv [] t) R s := by
  intro items
  induction items with
  | nil => exact fun _ held => held
  | cons x rest ih =>
    intro s held
    rw [forEach, wp_bind]
    exact (step x rest s held).mono (fun _ t kept => ih t kept) fun _ _ failed => failed

/-- A loop of checks that leave the state alone. -/
theorem wp_forEach_check {body : item → EStateM ε σ Unit} {P : item → Prop}
    (check : ∀ x, WP (body x) (fun _ t => t = s ∧ P x) (fun _ t => t = s) s) (items : List item) :
    WP (forEach items body) (fun _ t => t = s ∧ ∀ x ∈ items, P x) (fun _ t => t = s) s := by
  induction items with
  | nil => exact ⟨rfl, fun _ member => absurd member List.not_mem_nil⟩
  | cons x rest ih =>
    rw [forEach, wp_bind]
    refine (check x).mono ?_ fun _ _ failed => failed
    rintro _ t ⟨rfl, first⟩
    exact ih.mono (fun _ _ others => ⟨others.1, List.forall_mem_cons.mpr ⟨first, others.2⟩⟩)
      fun _ _ failed => failed

end Fallible
