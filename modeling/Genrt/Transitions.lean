import Genrt.Foundation.Machine
import Genrt.Sched.WaitLog

/-!
# Runs of scheduler transitions

Here the scheduler is driven by an arbitrary caller: any processor may issue any
transition at any time, with any token, any thread identity and any argument.
What still holds then does not depend on how the rest of the kernel uses the
scheduler.
-/

namespace Genrt

open Effect Kernel WaitMetadata

/-- The transitions of the scheduler. -/
inductive Transition where
  | publishRuntime (cpu homeCpu : CpuId) (user : Option UserThreadResources) (joinable : Bool)
  | initializeIdleCurrent (cpu : CpuId)
  | initialDispatch (cpu : CpuId)
  | optionalSwitch (cpu : CpuId)
  | timedWakeFromIdle (cpu : CpuId) (token : WaitToken)
  | prepareWait (cpu : CpuId) (consumption : WaitConsumption)
  | commitWait (cpu : CpuId) (prepared : PreparedWait)
  | completeWait (executing : CpuId) (token : WaitToken) (cause : WaitCause) (notifyReady : Bool)
  | cancelWait (prepared : PreparedWait)
  | finishWait (token : WaitToken)
  | exitCurrent (cpu : CpuId) (code : Nat)
  | finalizeRetired (cpu : CpuId) (notifyReady : Bool)
  | joinThread (cpu : CpuId) (target : ThreadId)
  | takeJoinResult (cpu : CpuId)
  | reapExited (id : ThreadId)
  | consumeSchedulerIpi (cpu : CpuId)
deriving DecidableEq

namespace Transition

def run : Transition → KernelM Unit
  | publishRuntime cpu homeCpu user joinable => do
      match ← takeFreeSlot with
      | none => pure ()
      | some index => let _ ← transitionPublishRuntime cpu homeCpu index user joinable
  | initializeIdleCurrent cpu => do let _ ← transitionInitializeIdleCurrent cpu
  | initialDispatch cpu => do let _ ← transitionInitialDispatch cpu
  | optionalSwitch cpu => do let _ ← transitionOptionalSwitch cpu
  | timedWakeFromIdle cpu token => do let _ ← transitionTimedWakeFromIdle cpu token
  | prepareWait cpu consumption => do let _ ← transitionPrepareWaitWith cpu consumption
  | commitWait cpu prepared => do let _ ← transitionCommitWait cpu prepared
  | completeWait executing token cause notifyReady => do
      let _ ← completeWaitTransition executing token cause notifyReady
  | cancelWait prepared => do let _ ← transitionCancelWait prepared
  | finishWait token => do let _ ← transitionFinishWait token
  | exitCurrent cpu code => do let _ ← transitionExitCurrent cpu code
  | finalizeRetired cpu notifyReady => Genrt.finalizeRetired cpu notifyReady
  | joinThread cpu target => do let _ ← Genrt.joinThread cpu target
  | takeJoinResult cpu => do let _ ← takeCurrentJoinResult cpu
  | reapExited id => do let _ ← transitionReapExited id
  | consumeSchedulerIpi cpu => Genrt.consumeSchedulerIpi cpu

/-- All sequences of transitions after boot. -/
def machine : Machine Kernel Transition where
  initial k := ∃ config, bootstrap config = .ok (.ok k)
  step k transition k' := transition.run k = .ok ((), k')

end Transition

/-! ### Every run is a sequence of elementary changes -/

/-- Anything but new slots, without the conditions of the scheduler invariant. -/
def Mode.any : Mode := ⟨true, true, false, false⟩

/-- Boot. -/
def Mode.boot : Mode := ⟨true, false, true, true⟩

theorem Traced.discard {mode : Mode} {α : Type} {m : KernelM α} (traced : Traced mode m) :
    Traced mode (do let _ ← m : KernelM Unit) :=
  .bind traced fun _ => .pure ()

variable {k : Kernel}

/-- Every transition is a sequence of changes. An idle thread needs a slot that was
never published, or a mode in which slots may start over. -/
theorem Transition.traced {mode : Mode} (allowed : mode.lifecycle = true)
    (lenient : mode.strict = false) (transition : Transition)
    (first : ∀ cpu, transition = .initializeIdleCurrent cpu → mode.booting = true ∨
      ∀ index rest, k.freeSlots = index :: rest → k.Fresh index) :
    WP (fun _ => True) transition.run (fun _ k' => Evolves mode k k') k := by
  have relaxed : ∀ {P : Prop}, mode.strict = true → P := fun strict => by
    rw [lenient] at strict
    cases strict
  cases transition with
  | publishRuntime cpu homeCpu user joinable =>
    refine Traced.bind .takeFreeSlot (fun taken => ?_) k
    cases taken with
    | none => exact .pure ()
    | some index => exact .discard (.transitionPublishRuntime allowed)
  | initializeIdleCurrent cpu =>
    have traced : WP (fun _ => True) (transitionInitializeIdleCurrent cpu)
        (fun _ k' => Evolves mode k k') k :=
      Traced.transitionInitializeIdleCurrent allowed (first cpu rfl)
    exact (wp_bind _).mpr traced
  | initialDispatch cpu => exact Traced.discard .transitionInitialDispatch k
  | optionalSwitch cpu => exact Traced.discard .transitionOptionalSwitch k
  | timedWakeFromIdle cpu token => exact Traced.discard .transitionTimedWakeFromIdle k
  | prepareWait cpu consumption => exact Traced.discard .transitionPrepareWaitWith k
  | commitWait cpu prepared => exact Traced.discard .transitionCommitWait k
  | completeWait executing token cause notifyReady => exact Traced.discard .completeWaitTransition k
  | cancelWait prepared => exact Traced.discard .transitionCancelWait k
  | finishWait token => exact Traced.discard .transitionFinishWait k
  | exitCurrent cpu code =>
    exact Traced.discard (fun _ => Traced.transitionExitCurrent allowed relaxed) k
  | finalizeRetired cpu notifyReady => exact Traced.finalizeRetired allowed relaxed
  | joinThread cpu target => exact Traced.discard (fun _ => Traced.joinThread allowed relaxed) k
  | takeJoinResult cpu =>
    exact Traced.discard (fun _ => Traced.takeCurrentJoinResult allowed relaxed) k
  | reapExited id => exact Traced.discard (.transitionReapExited allowed lenient) k
  | consumeSchedulerIpi cpu => exact Traced.consumeSchedulerIpi k

/-- Boot starts from an empty table and log. -/
theorem Evolves.of_bootstrap {config : BootConfig} (boot : bootstrap config = .ok (.ok k)) :
    ∃ scheduler, transitionNew config.threadCapacity config.rrQuantumMs = .ok scheduler ∧
      Evolves .boot (.preBoot config scheduler) k := by
  obtain ⟨_, scheduler, made, run⟩ := bootstrap_ok boot
  exact ⟨scheduler, made, (Traced.bootstrapThreads rfl rfl : Traced .boot _).of_ok run⟩

theorem Kernel.slots_preBoot {config : BootConfig} {scheduler : Scheduler}
    (made : transitionNew config.threadCapacity config.rrQuantumMs = .ok scheduler) :
    (preBoot config scheduler).slots = [] := by
  obtain ⟨_, rfl⟩ := transitionNew_ok made
  rfl

theorem WaitLog.of_empty (slots : k.slots = []) (history : k.history = []) : WaitLog k := by
  have absent : ∀ id, k.find id = none := by
    intro id
    rw [find, ThreadTable.get]
    rw [Kernel.slots] at slots
    rw [slots]
    rfl
  have unregistered : ∀ token, k.registration token = none := by
    intro token
    rw [registration, absent]
    rfl
  have silent : ∀ {α : Type} (read : Event → Option α), k.history.filterMap read = [] := by
    intro α read
    rw [history]
    rfl
  constructor
  · intro id t w found
    rw [absent] at found
    cases found
  · intro token w registered
    rw [unregistered] at registered
    cases registered
  · intro token w cause registered
    rw [unregistered] at registered
    cases registered
  · rw [winners, silent]
    exact .nil
  · rw [observations, silent]
    rintro _ ⟨⟩
  · rw [readiedTokens, wokenTokens, silent, silent]
  · rw [winners, silent]
    rintro _ _ ⟨⟩
  · rw [issuedTokens, silent]
    rintro _ ⟨⟩
  · rw [issuedTokens, silent]
    exact .nil

theorem WaitLog.of_reachable (reached : Transition.machine.Reachable k) : WaitLog k := by
  refine reached.invariant ?_ ?_
  · rintro k ⟨config, boot⟩
    obtain ⟨scheduler, made, evolves⟩ := Evolves.of_bootstrap boot
    exact ((WaitLog.of_empty (slots_preBoot made) rfl).evolves evolves).1
  · intro k transition k' _ h taken
    have traced : WP (fun _ => True) transition.run (fun _ k' => Evolves .any k k') k :=
      transition.traced rfl rfl fun _ _ => .inl rfl
    exact (h.evolves (traced.of_ok taken)).1

/-! ### Tokens that are not registered -/

section Foreign

variable {k : Kernel} {token : WaitToken}

variable (unregistered : k.registration token = none)

include unregistered

end Foreign

/-! ### The guarantees of wait tokens -/

namespace Transition

/-- Execute a transition that does not halt. -/
def next (k : Kernel) (transition : Transition) : Option Kernel :=
  match transition.run k with
  | .error _ => none
  | .ok ((), k') => some k'

theorem step_of_next {k k' : Kernel} {transition : Transition}
    (taken : next k transition = some k') : machine.step k transition k' := by
  unfold next at taken
  split at taken
  · cases taken
  · next run =>
    cases taken
    exact run

/-- What an execution after boot shows holds at the end of a run. -/
theorem exists_played (config : BootConfig) (transitions : List Transition) (shows : Kernel → Bool)
    (played : (match bootstrap config with
      | .ok (.ok k) => Machine.execute next k transitions
      | _ => none).any shows = true) (allowed : Kernel → Transition → Prop)
    (unguarded : ∀ transition ∈ transitions, ∀ k, allowed k transition) :
    ∃ k k', bootstrap config = .ok (.ok k) ∧ machine.Run allowed k k' ∧ shows k' = true := by
  split at played
  · next k boot =>
    obtain ⟨k', run, shown⟩ := (Option.any_eq_true _ _).mp played
    exact ⟨k, k', boot, .of_execute (fun k transition member k' taken =>
      ⟨unguarded transition member k, step_of_next taken⟩) run, shown⟩
  · cases played

end Transition

/-- One processor with two threads besides its idle thread. -/
def BootConfig.twoThreads : BootConfig where
  platform := ⟨fun reads => reads, fun _ reads => reads, 1000, fun _ => true, true,
    fun _ => true, true⟩
  cpuCount := 1
  staticThreads := 2
  rrQuantumMs := 10
  threadCapacity := 4

/-- The same kernel without the self-check. -/
def BootConfig.release : BootConfig :=
  { BootConfig.twoThreads with
    platform := { BootConfig.twoThreads.platform with debugAssertions := false } }

def BootConfig.threeThreads : BootConfig := { BootConfig.twoThreads with staticThreads := 3 }

/-- Two processors, and one thread besides the idle threads. -/
def BootConfig.twoCpus : BootConfig :=
  { BootConfig.twoThreads with cpuCount := 2, staticThreads := 1, threadCapacity := 5 }

end Genrt
