import Genrt.Basic

/-!
# One blocking episode

A thread registers one wait at a time. Its token carries the thread, the home
processor and a sequence number that the thread's slot never issues twice. The
registration is prepared while the thread still runs, becomes blocked when it is
committed, and is completed by the first completer. An explicit completion stays
until the thread consumes it; an automatic one is consumed by the wake itself.

The operations below change only the registration whose token they are given.
-/

namespace Genrt

/-- The identity of one wait registration. -/
structure WaitToken where
  thread : ThreadId
  cpu : CpuId
  sequence : Nat
deriving DecidableEq, Repr

inductive WaitCause where
  | notified
  | timeout
deriving DecidableEq, Repr

inductive WaitConsumption where
  | explicit
  | automatic
deriving DecidableEq, Repr

/-- A registration that its thread must still commit or cancel. -/
structure PreparedWait where
  token : WaitToken
  consumption : WaitConsumption
deriving DecidableEq, Repr

inductive WaitPhase where
  | prepared
  | blocked
  | completed (cause : WaitCause)
deriving DecidableEq, Repr

structure ActiveWait where
  token : WaitToken
  phase : WaitPhase
  consumption : WaitConsumption
deriving DecidableEq, Repr

/-- The wait state stored inline in a thread. -/
structure WaitMetadata where
  nextSequence : Nat
  active : Option ActiveWait
deriving DecidableEq, Repr

inductive CompletionResult where
  | completedPrepared
  | wokeBlocked
  | alreadyCompleted
  | stale
deriving DecidableEq, Repr

inductive CommitState where
  | block (token : WaitToken)
  | early (cause : WaitCause)
  | stale
deriving DecidableEq, Repr

inductive CancelResult where
  | cancelled
  | completed (cause : WaitCause)
  | stale
deriving DecidableEq, Repr

inductive FinishError where
  | stale
  | notCompleted
deriving DecidableEq, Repr

/-- The completer that returns one of these two results decides the cause. -/
def CompletionResult.wins : CompletionResult → Bool
  | .completedPrepared | .wokeBlocked => true
  | .alreadyCompleted | .stale => false

namespace WaitMetadata

def withNextSequence (nextSequence : Nat) : WaitMetadata := ⟨nextSequence, none⟩

def isNone (w : WaitMetadata) : Bool := w.active.isNone

def isPrepared (w : WaitMetadata) : Bool :=
  match w.active with
  | some ⟨_, .prepared, _⟩ => true
  | _ => false

def isBlocked (w : WaitMetadata) : Bool :=
  match w.active with
  | some ⟨_, .blocked, _⟩ => true
  | _ => false

def isCompleted (w : WaitMetadata) : Bool :=
  match w.active with
  | some ⟨_, .completed _, _⟩ => true
  | _ => false

/-- Register a fresh token. The sequence is a `u64` that must not wrap. -/
def prepareWithConsumption (w : WaitMetadata) (thread : ThreadId) (cpu : CpuId)
    (consumption : WaitConsumption) : Except Panic (PreparedWait × WaitMetadata) :=
  if w.active.isSome then .error .waitUnconsumed
  else if 2 ^ 64 ≤ w.nextSequence + 1 then .error .waitSequenceOverflow
  else
    let token : WaitToken := ⟨thread, cpu, w.nextSequence + 1⟩
    .ok (⟨token, consumption⟩, ⟨w.nextSequence + 1, some ⟨token, .prepared, consumption⟩⟩)

def commit (w : WaitMetadata) (prepared : PreparedWait) : CommitState × WaitMetadata :=
  match w.active with
  | none => (.stale, w)
  | some active =>
    if active.token ≠ prepared.token then (.stale, w)
    else match active.phase with
      | .prepared =>
        if active.consumption = prepared.consumption then
          (.block active.token, { w with active := some { active with phase := .blocked } })
        else (.stale, w)
      | .completed cause => (.early cause, { w with active := none })
      | .blocked => (.stale, w)

def complete (w : WaitMetadata) (token : WaitToken) (cause : WaitCause) :
    CompletionResult × WaitMetadata :=
  match w.active with
  | none => (.stale, w)
  | some active =>
    if active.token ≠ token then (.stale, w)
    else match active.phase with
      | .prepared =>
        (.completedPrepared,
          { w with active := some { active with phase := .completed cause } })
      | .blocked =>
        match active.consumption with
        | .explicit =>
          (.wokeBlocked, { w with active := some { active with phase := .completed cause } })
        | .automatic => (.wokeBlocked, { w with active := none })
      | .completed _ => (.alreadyCompleted, w)

def cancel (w : WaitMetadata) (prepared : PreparedWait) : CancelResult × WaitMetadata :=
  match w.active with
  | none => (.stale, w)
  | some active =>
    if active.token ≠ prepared.token then (.stale, w)
    else match active.phase with
      | .prepared => (.cancelled, { w with active := none })
      | .completed cause => (.completed cause, { w with active := none })
      | .blocked => (.stale, w)

def finish (w : WaitMetadata) (token : WaitToken) : Except FinishError WaitCause × WaitMetadata :=
  match w.active with
  | none => (.error .stale, w)
  | some active =>
    if active.token ≠ token then (.error .stale, w)
    else match active.phase with
      | .completed cause => (.ok cause, { w with active := none })
      | .prepared | .blocked => (.error .notCompleted, w)

/-- The token of the current registration. -/
def token? (w : WaitMetadata) : Option WaitToken := w.active.map ActiveWait.token

/-! ### Outcomes -/

/-- A registration gets the next sequence. -/
theorem prepare_cases {w w' : WaitMetadata} {thread : ThreadId} {cpu : CpuId}
    {consumption : WaitConsumption} {prepared : PreparedWait}
    (registers : w.prepareWithConsumption thread cpu consumption = .ok (prepared, w')) :
    w.active = none ∧ prepared = ⟨⟨thread, cpu, w.nextSequence + 1⟩, consumption⟩ ∧
      w' = ⟨w.nextSequence + 1, some ⟨prepared.token, .prepared, consumption⟩⟩ := by
  unfold prepareWithConsumption at registers
  split at registers
  · cases registers
  · next free =>
    split at registers
    · cases registers
    · cases registers
      exact ⟨Option.not_isSome_iff_eq_none.mp free, rfl, rfl⟩

/-- What a commit can do. -/
theorem commit_cases (w : WaitMetadata) (prepared : PreparedWait) :
    w.commit prepared = (.stale, w) ∨
    (∃ a, w.active = some a ∧ a.token = prepared.token ∧ a.phase = .prepared ∧
      w.commit prepared =
        (.block a.token, { w with active := some { a with phase := .blocked } })) ∨
    ∃ a cause, w.active = some a ∧ a.token = prepared.token ∧ a.phase = .completed cause ∧
      w.commit prepared = (.early cause, { w with active := none }) := by
  cases active : w.active with
  | none => simp [commit, active]
  | some a =>
    by_cases named : a.token = prepared.token
    · cases phase : a.phase with
      | prepared =>
        by_cases same : a.consumption = prepared.consumption
        · exact .inr (.inl ⟨a, rfl, named, phase, by simp [commit, active, named, phase, same]⟩)
        · simp [commit, active, named, phase, same]
      | blocked => simp [commit, active, named, phase]
      | completed cause =>
        exact .inr (.inr ⟨a, cause, rfl, named, phase, by simp [commit, active, named, phase]⟩)
    · simp [commit, active, named]

/-- What a completion can do. -/
theorem complete_cases (w : WaitMetadata) (token : WaitToken) (cause : WaitCause) :
    ((w.complete token cause).1.wins = false ∧ (w.complete token cause).2 = w) ∨
    ∃ a, w.active = some a ∧ a.token = token ∧ (∀ cause, a.phase ≠ .completed cause) ∧
      (w.complete token cause).1.wins = true ∧
      (w.complete token cause).2.nextSequence = w.nextSequence ∧
      (a.consumption = .automatic ∧ (w.complete token cause).2.active = none ∨
        (w.complete token cause).2.active = some { a with phase := .completed cause }) := by
  cases active : w.active with
  | none => exact .inl (by simp [complete, active, CompletionResult.wins])
  | some a =>
    by_cases named : a.token = token
    · cases phase : a.phase with
      | prepared =>
        exact .inr ⟨a, rfl, named, by simp [phase],
          by simp [complete, active, named, phase, CompletionResult.wins]⟩
      | blocked =>
        refine .inr ⟨a, rfl, named, by simp [phase], ?_⟩
        cases consumption : a.consumption <;>
          simp [complete, active, named, phase, consumption, CompletionResult.wins]
      | completed cause => exact .inl (by simp [complete, active, named, phase,
          CompletionResult.wins])
    · exact .inl (by simp [complete, active, named, CompletionResult.wins])

/-- What a cancellation can do. -/
theorem cancel_cases (w : WaitMetadata) (prepared : PreparedWait) :
    w.cancel prepared = (.stale, w) ∨
    w.cancel prepared = (.cancelled, { w with active := none }) ∨
    ∃ a cause, w.active = some a ∧ a.token = prepared.token ∧ a.phase = .completed cause ∧
      w.cancel prepared = (.completed cause, { w with active := none }) := by
  cases active : w.active with
  | none => simp [cancel, active]
  | some a =>
    by_cases named : a.token = prepared.token
    · cases phase : a.phase with
      | prepared => exact .inr (.inl (by simp [cancel, active, named, phase]))
      | blocked => exact .inl (by simp [cancel, active, named, phase])
      | completed cause =>
        exact .inr (.inr ⟨a, cause, rfl, named, phase, by simp [cancel, active, named, phase]⟩)
    · exact .inl (by simp [cancel, active, named])

/-- What finishing can do. -/
theorem finish_cases (w : WaitMetadata) (token : WaitToken) :
    (∃ error, w.finish token = (.error error, w)) ∨
    ∃ a cause, w.active = some a ∧ a.token = token ∧ a.phase = .completed cause ∧
      w.finish token = (.ok cause, { w with active := none }) := by
  cases active : w.active with
  | none => exact .inl ⟨_, by simp only [finish, active]; rfl⟩
  | some a =>
    by_cases named : a.token = token
    · cases phase : a.phase with
      | prepared => exact .inl ⟨.notCompleted, by simp [finish, active, named, phase]⟩
      | blocked => exact .inl ⟨.notCompleted, by simp [finish, active, named, phase]⟩
      | completed cause =>
        exact .inr ⟨a, cause, rfl, named, phase, by simp [finish, active, named, phase]⟩
    · exact .inl ⟨.stale, by simp [finish, active, named]⟩

end WaitMetadata

end Genrt
