import Genrt.Foundation.Machine
import Genrt.Foundation.Result
import Genrt.Sync.Preempt

/-!
# Guards of one processor

A guard excludes preemption while it lives. A spin lock takes one before it touches the
lock word and keeps it in a container that is not dropped by itself: the drop of the lock's
guard drops it by hand. Other processors take and release locks in between, and interrupts
request a reschedule or pass a checkpoint.

An attempt on a lock that another processor holds drops the container. The guard inside
stays entered, and nothing is left that could leave it.
-/

namespace Genrt

/-- A live guard of the processor. -/
inductive Guard where
  | preempt
  | spin (lock : Nat)
deriving DecidableEq, Repr

/-- The processor's bookkeeping, the lock words and the live guards, newest first. -/
structure CpuGuards where
  preemption : PreemptionState
  locked : Nat → Bool
  live : List Guard

namespace CpuGuards

variable (s : CpuGuards)

/-- `PreemptGuard::enter`. -/
def enter : Except Panic CpuGuards := do
  let preemption ← s.preemption.enter
  .ok { s with preemption, live := .preempt :: s.live }

/-- `SpinLock::lock`, once the lock word is free. -/
def lock (lock : Nat) : Except Panic CpuGuards := do
  let preemption ← s.preemption.enter
  .ok { preemption, locked := Function.update s.locked lock true, live := .spin lock :: s.live }

/-- `SpinLock::try_lock`; the answer says whether there is a guard. -/
def tryLock (lock : Nat) : Except Panic (Bool × CpuGuards) := do
  let preemption ← s.preemption.enter
  if s.locked lock then
    -- dropping the container does not drop the guard in it
    .ok (false, { s with preemption })
  else
    .ok (true,
      { preemption, locked := Function.update s.locked lock true, live := .spin lock :: s.live })

/-- `PreemptGuard::drop`. The outermost drop passes a checkpoint if a request is pending,
the processor is online and interrupts were enabled. -/
def leave (online irqAllows : Bool) : Except Panic PreemptionState := do
  let (pendingAtDepthZero, preemption) ← s.preemption.leave
  if pendingAtDepthZero && online && irqAllows then .ok (preemption.consumeCheckpoint online).2
  else .ok preemption

/-- The drop of a guard: a lock is released before the preemption guard is left. -/
def dropGuard (guard : Guard) (online irqAllows : Bool) : Except Panic CpuGuards := do
  let preemption ← s.leave online irqAllows
  let locked := match guard with
    | .preempt => s.locked
    | .spin lock => Function.update s.locked lock false
  .ok { preemption, locked, live := s.live.erase guard }

end CpuGuards

inductive GuardStep where
  | enter
  | lock (lock : Nat)
  | tryLock (lock : Nat)
  | drop (guard : Guard) (online irqAllows : Bool)
  | request
  | checkpoint (online : Bool)
  /-- Other processors take and release locks. -/
  | elsewhere (locked : Nat → Bool)

/-- Steps that do not panic. A lock waits until its word is free, a drop needs a live guard,
and other processors leave locks with a live guard alone. -/
inductive GuardStep.Runs : CpuGuards → GuardStep → CpuGuards → Prop where
  | enter {s t : CpuGuards} (run : s.enter = .ok t) : Runs s .enter t
  | lock {s t : CpuGuards} {lock : Nat} (free : s.locked lock = false)
      (run : s.lock lock = .ok t) : Runs s (.lock lock) t
  | tryLock {s t : CpuGuards} {lock : Nat} {answer : Bool}
      (run : s.tryLock lock = .ok (answer, t)) : Runs s (.tryLock lock) t
  | drop {s t : CpuGuards} {guard : Guard} {online irqAllows : Bool} (live : guard ∈ s.live)
      (run : s.dropGuard guard online irqAllows = .ok t) : Runs s (.drop guard online irqAllows) t
  | request {s : CpuGuards} : Runs s .request { s with preemption := s.preemption.request }
  | checkpoint {s : CpuGuards} {online : Bool} :
      Runs s (.checkpoint online) { s with preemption := (s.preemption.consumeCheckpoint online).2 }
  | elsewhere {s : CpuGuards} {locked : Nat → Bool}
      (kept : ∀ lock, Guard.spin lock ∈ s.live → locked lock = s.locked lock) :
      Runs s (.elsewhere locked) { s with locked }

/-- One processor from its initial bookkeeping, without guards. -/
def guards : Machine CpuGuards GuardStep where
  initial s := s.preemption = .new ∧ s.live = []
  step := GuardStep.Runs

/-- A step that is not an attempt on a lock that is held. -/
def Uncontended (s : CpuGuards) : GuardStep → Prop
  | .tryLock lock => s.locked lock = false
  | _ => True

/-- A step that passes a checkpoint at depth zero with a request. -/
def Consumes (s : CpuGuards) : GuardStep → Prop
  | .drop _ online irqAllows =>
    online = true ∧ irqAllows = true ∧ s.preemption.disableDepth = 1
  | .checkpoint online => online = true ∧ s.preemption.disableDepth = 0
  | _ => False

/-! ### What one step does -/

variable {s t : CpuGuards} {label : GuardStep}

theorem enter_eq_ok {before after : PreemptionState} (run : before.enter = .ok after) :
    after = { before with disableDepth := before.disableDepth + 1 } := by
  unfold PreemptionState.enter at run
  split at run
  · cases run
  · cases run
    rfl

/-- A level is left, and the request stays unless a checkpoint consumes it. -/
theorem leave_eq_ok {online irqAllows : Bool} {after : PreemptionState}
    (run : s.leave online irqAllows = .ok after) :
    s.preemption.disableDepth = after.disableDepth + 1 ∧
      (after.reschedulePending = s.preemption.reschedulePending ∨
        (online = true ∧ irqAllows = true ∧ s.preemption.disableDepth = 1)) := by
  obtain ⟨⟨pending, left⟩, first, rest⟩ := Result.bind_eq_ok.mp run
  unfold PreemptionState.leave at first
  split at first
  · cases first
  · next nonzero =>
    cases first
    dsimp only at rest
    have depth : s.preemption.disableDepth = s.preemption.disableDepth - 1 + 1 := by omega
    split at rest
    · next checkpoint =>
      simp only [Bool.and_eq_true, decide_eq_true_eq] at checkpoint
      cases rest
      refine ⟨?_, .inr ⟨checkpoint.1.2, checkpoint.2, by omega⟩⟩
      unfold PreemptionState.consumeCheckpoint
      split <;> exact depth
    · cases rest
      exact ⟨depth, .inl rfl⟩

theorem consumeCheckpoint_depth (state : PreemptionState) (online : Bool) :
    (state.consumeCheckpoint online).2.disableDepth = state.disableDepth := by
  unfold PreemptionState.consumeCheckpoint
  split <;> rfl

/-- Each acquisition and each drop keeps the balance; only an attempt on a held lock enters a
level without a guard. -/
theorem balanced_step (balanced : s.preemption.disableDepth = s.live.length)
    (allowed : Uncontended s label) (step : guards.step s label t) :
    t.preemption.disableDepth = t.live.length := by
  cases step with
  | enter run =>
    obtain ⟨after, entered, rest⟩ := Result.bind_eq_ok.mp run
    cases rest
    rw [enter_eq_ok entered, List.length_cons]
    exact congrArg (· + 1) balanced
  | lock _ run =>
    obtain ⟨after, entered, rest⟩ := Result.bind_eq_ok.mp run
    cases rest
    rw [enter_eq_ok entered, List.length_cons]
    exact congrArg (· + 1) balanced
  | tryLock run =>
    obtain ⟨after, entered, rest⟩ := Result.bind_eq_ok.mp run
    have free : s.locked _ = false := allowed
    rw [if_neg (by rw [free]; decide)] at rest
    cases rest
    rw [enter_eq_ok entered, List.length_cons]
    exact congrArg (· + 1) balanced
  | drop live run =>
    obtain ⟨after, left, rest⟩ := Result.bind_eq_ok.mp run
    cases rest
    have depth := (leave_eq_ok left).1
    have shorter := List.length_erase_of_mem live
    have some_live := List.length_pos_of_mem live
    dsimp only
    omega
  | request => exact balanced
  | checkpoint => exact (consumeCheckpoint_depth ..).trans balanced
  | elsewhere _ => exact balanced

theorem pending_step (pending : s.preemption.reschedulePending = true)
    (unconsumed : ¬ Consumes s label) (step : guards.step s label t) :
    t.preemption.reschedulePending = true := by
  cases step with
  | enter run =>
    obtain ⟨after, entered, rest⟩ := Result.bind_eq_ok.mp run
    cases rest
    rw [enter_eq_ok entered]
    exact pending
  | lock _ run =>
    obtain ⟨after, entered, rest⟩ := Result.bind_eq_ok.mp run
    cases rest
    rw [enter_eq_ok entered]
    exact pending
  | tryLock run =>
    obtain ⟨after, entered, rest⟩ := Result.bind_eq_ok.mp run
    split at rest
    all_goals
      cases rest
      rw [enter_eq_ok entered]
      exact pending
  | drop live run =>
    obtain ⟨after, left, rest⟩ := Result.bind_eq_ok.mp run
    cases rest
    exact ((leave_eq_ok left).2.resolve_right unconsumed).trans pending
  | request => rfl
  | @checkpoint online =>
    have disabled : online = false ∨ s.preemption.disableDepth ≠ 0 ∨
        s.preemption.reschedulePending = false := by
      by_cases on : online = true
      · exact .inr (.inl fun zero => unconsumed ⟨on, zero⟩)
      · exact .inl (Bool.eq_false_of_not_eq_true on)
    rw [PreemptionState.consumeCheckpoint, if_pos disabled]
    exact pending
  | elsewhere _ => exact pending

/-! ### Runs -/

/-- In every run without an attempt on a held lock the depth is the number of live guards,
and a request stays until a checkpoint at depth zero consumes it. -/
theorem preemption_balanced_uncontended (start : guards.initial s)
    (run : guards.Run Uncontended s t) : t.preemption.disableDepth = t.live.length ∧
      (t.live = [] → t.preemption.disableDepth = s.preemption.disableDepth) ∧
      ∀ u, guards.Run (fun v label => ¬ Consumes v label) t u →
        t.preemption.reschedulePending = true → u.preemption.reschedulePending = true := by
  obtain ⟨fresh, empty⟩ := start
  have balanced : t.preemption.disableDepth = t.live.length := by
    induction run with
    | refl =>
      rw [fresh, empty]
      rfl
    | step _ allowed taken ih => exact balanced_step ih allowed taken
  refine ⟨balanced, fun gone => ?_, fun u further pending => ?_⟩
  · rw [balanced, gone, fresh]
    rfl
  · induction further with
    | refl => exact pending
    | step _ unconsumed taken ih => exact pending_step ih unconsumed taken

/-- One lock is taken and an attempt on another one succeeds. A request made then is
pending until both locks are released, with interrupts disabled. -/
theorem preemption_balanced_two_locks : let first : CpuGuards := ⟨.new, fun _ => false, []⟩
    guards.initial first ∧ ∃ t u, guards.Run Uncontended first t ∧
      t.live = [.spin 1, .spin 0] ∧ t.preemption.disableDepth = 2 ∧
      guards.Run (fun v label => ¬ Consumes v label) t u ∧ u.live = [] ∧
      u.preemption.disableDepth = 0 ∧ u.preemption.reschedulePending = true := by
  intro first
  obtain ⟨t₁, t₂, t₃, u₁, u₂, locked, free, tried, asked, dropped, last, live, gone, pending⟩ :
      ∃ t₁ t₂ t₃ u₁ u₂, guards.step first (.lock 0) t₁ ∧ Uncontended t₁ (.tryLock 1) ∧
        guards.step t₁ (.tryLock 1) t₂ ∧ guards.step t₂ .request t₃ ∧
        guards.step t₃ (.drop (.spin 0) true false) u₁ ∧
        guards.step u₁ (.drop (.spin 1) true false) u₂ ∧ t₃.live = [.spin 1, .spin 0] ∧
        u₂.live = [] ∧ t₃.preemption.reschedulePending = true :=
    ⟨_, _, _, _, _, .lock rfl rfl, rfl, .tryLock rfl, .request, .drop (by decide) rfl,
      .drop (by decide) rfl, rfl, rfl, rfl⟩
  have start : guards.initial first := ⟨rfl, rfl⟩
  have run : guards.Run Uncontended first t₃ :=
    .step (.step (.step (.refl first) (by trivial) locked) free tried) (by trivial) asked
  have released : guards.Run Uncontended first u₂ :=
    .step (.step run (by trivial) dropped) (by trivial) last
  have further : guards.Run (fun v label => ¬ Consumes v label) t₃ u₂ :=
    .step (.step (.refl t₃) (by simp [Consumes]) dropped) (by simp [Consumes]) last
  obtain ⟨depth, -, stays⟩ := preemption_balanced_uncontended start run
  refine ⟨start, t₃, u₂, run, live, by rw [depth, live]; rfl, further, gone, ?_,
    stays u₂ further pending⟩
  exact (preemption_balanced_uncontended start released).2.1 gone

/-- A processor with one lock that another processor holds. -/
def heldElsewhere : CpuGuards := ⟨.new, fun _ => true, []⟩

/-- An attempt on a held lock leaves the depth at one without a guard. -/
theorem contended_attempt_leaks :
    ¬ ∀ s, guards.Reachable s → s.preemption.disableDepth = s.live.length := by
  intro balanced
  have start : guards.Reachable heldElsewhere := .initial ⟨rfl, rfl⟩
  have attempted : guards.step heldElsewhere (.tryLock 0)
      { heldElsewhere with preemption := ⟨1, false⟩ } := .tryLock rfl
  exact absurd (balanced _ (start.step attempted)) (by decide)

end Genrt
