import Genrt.Memory.UserSpace
import Genrt.Sched.Transition

/-!
# Scheduler entries from interrupts and checkpoints

Each entry runs under one scheduler lock. It finalizes a retired thread first,
performs its own work, and may hand the processor to another thread. The entries
keep the quantum event of the current thread in step with the ready queue; the
timer entry leaves that change to the time owner.
-/

namespace Genrt

open Effect

/-- Install the address space of the thread that runs next. Idle keeps the
installed root without access to it; every other kernel thread removes it. -/
def activateThreadAddressSpace (cpu : CpuId) (id : ThreadId) : KernelM Unit := do
  let result ← match ← threadAddressSpace id.index with
    | some aspace => activateUserAddressSpace cpu aspace
    | none =>
      if (← cpuState cpu).idle = some id then retainUserAddressSpaceForIdle cpu
      else clearUserAddressSpace cpu
  stopIf (result ≠ .ok ()) .activationFailed

def handoffSelected (cpu : CpuId) : SwitchOutcome → KernelM Unit
  | .continueCurrent => pure ()
  | .switch _ next => activateThreadAddressSpace cpu next

def handoffOptional (cpu : CpuId) : KernelM Unit := do
  let outcome ← transitionOptionalSwitch cpu
  handoffSelected cpu outcome

/-- Acknowledge a pending request and hand the processor over. -/
def checkpointHandoff (cpu : CpuId) : KernelM Unit := do
  let online := (← cpuState cpu).online
  let consumed ← consumeCheckpointOn cpu online
  onlyIf (consumed = true) do
    match ← runningThread cpu with
    | none => pure ()
    | some current =>
      handoffOptional cpu
      replaceQuantumEvent cpu current

def finishSchedulerIpi (cpu : CpuId) : KernelM Unit := do
  transitionFinalizeRetired cpu
  let state ← cpuState cpu
  onlyIf (state.online = true) do
    consumeSchedulerIpi cpu
    noteRunnablePeerAvailable cpu
    checkpointHandoff cpu

def preemptCheckpoint (cpu : CpuId) : KernelM Unit := do
  transitionFinalizeRetired cpu
  checkpointHandoff cpu

def noteQuantumExpired (cpu : CpuId) (id : ThreadId) : KernelM Unit := do
  let current ← runningThread cpu
  onlyIf (current = some id) (requestRescheduleOn cpu)

def dispatchExpired (cpu : CpuId) : TimedEvent → KernelM Unit
  | .waitDeadline owner token => do
      stopIf (owner ≠ cpu ∨ token.cpu ≠ cpu) .foreignTimedWait
      let _ ← transitionCompleteWaitForTimer cpu token
      pure ()
  | .quantumExpired owner id => do
      stopIf (owner ≠ cpu) .foreignQuantum
      noteQuantumExpired cpu id

/-- The quantum event that the time owner must ensure: the selected thread has a
peer. -/
def quantumToEnsure (cpu : CpuId) (now : Nat) : KernelM (Option (Nat × TimedEvent)) := do
  if (← hasRunnablePeer cpu) = true then
    let selected ← orStop (← runningThread cpu) .lostTimerTarget
    let deadline ← quantumDeadline now
    pure (some (deadline, .quantumExpired cpu selected))
  else pure none

/-- Complete a batch through the ready queue. -/
def dispatchBatch (cpu : CpuId) (now : Nat) (current : ThreadId) (expired : ExpiredEvents) :
    KernelM QuantumUpdate := do
  forEach expired.items (dispatchExpired cpu)
  let idle := (← cpuState cpu).idle
  let peer ← hasRunnablePeer cpu
  onlyIf (idle = some current ∧ peer = true) (requestRescheduleOn cpu)
  let online := (← cpuState cpu).online
  let checkpoint ← consumeCheckpointOn cpu online
  onlyIf (checkpoint = true) (handoffOptional cpu)
  let ensure ← quantumToEnsure cpu now
  pure ⟨if checkpoint then some (.quantumExpired cpu current) else none, ensure⟩

/-- Wake the only expired waiter directly from idle, when that is possible. -/
def directWake (cpu : CpuId) (expired : ExpiredEvents) : KernelM (Option SwitchOutcome) := do
  match ExpiredEvents.single expired with
  | some (.waitDeadline owner token) =>
    stopIf (owner ≠ cpu ∨ token.cpu ≠ cpu) .foreignTimedWait
    if ((← get).preemption cpu).isDisabled = true then pure none
    else transitionTimedWakeFromIdle cpu token
  | some (.quantumExpired _ _) => pure none
  | none => pure none

def finishTimerInterrupt (cpu : CpuId) (now : Nat) (expired : ExpiredEvents) :
    KernelM QuantumUpdate := do
  transitionFinalizeRetiredForTimer cpu
  let state ← cpuState cpu
  if state.online = false then pure ⟨none, none⟩
  else match state.current with
    | none => pure ⟨none, none⟩
    | some current =>
      match ← directWake cpu expired with
      | some outcome =>
        let _ ← consumeCheckpointOn cpu true
        handoffSelected cpu outcome
        pure ⟨none, none⟩
      | none => dispatchBatch cpu now current expired

def finishBlockAfterQuantumCancel (cpu : CpuId) (_outgoing : ThreadId) : KernelM Unit := do
  let online := (← cpuState cpu).online
  let _ ← consumeCheckpointOn cpu online
  ensureQuantumEvent cpu

def finishBlockCurrent (cpu : CpuId) (outgoing : ThreadId) : KernelM Unit := do
  let _ ← onClocks (Clocks.cancelEvent cpu (.quantumExpired cpu outgoing))
  finishBlockAfterQuantumCancel cpu outgoing

/-- First entry of a processor into its running thread. -/
def prepareRunningThreadEntry (cpu : CpuId) : KernelM Unit := do
  let running ← orStop (← runningThread cpu) .noRunningThread
  stopIf ((← cpuState cpu).online = true) .enteredTwice
  ensureQuantumEvent cpu
  activateThreadAddressSpace cpu running
  modifyCpu cpu fun state => { state with online := true }

inductive CommitResult where
  | blocked (outcome : SwitchOutcome)
  | early (cause : WaitCause)
  | stale
deriving DecidableEq, Repr

def commitWaitWith (cpu : CpuId) (prepared : PreparedWait) (finish : ThreadId → KernelM Unit) :
    KernelM CommitResult := do
  match ← transitionCommitWait cpu prepared with
  | (.early cause, none) => pure (.early cause)
  | (.stale, none) => pure .stale
  | (.block _, some (.switch outgoing next)) =>
    activateThreadAddressSpace cpu next
    finish outgoing
    pure (.blocked (.switch outgoing next))
  | _ => throw .malformedCommit

def commitPreparedWait (cpu : CpuId) (prepared : PreparedWait) : KernelM CommitResult :=
  commitWaitWith cpu prepared (finishBlockCurrent cpu)

def commitPreparedSleep (cpu : CpuId) (prepared : PreparedWait) : KernelM CommitResult :=
  commitWaitWith cpu prepared (finishBlockAfterQuantumCancel cpu)

/-- A user thread sleeps until a deadline, under one scheduler lock. -/
def sleepUserUntilCounter (cpu : CpuId) (deadline : Nat) : KernelM Bool := do
  let prepared ← transitionPrepareAutomaticWait cpu
  onClocks (Clocks.publishSleep cpu deadline prepared.token)
  match ← commitPreparedSleep cpu prepared with
  | .blocked _ => pure true
  | .early _ =>
    let _ ← onClocks (Clocks.cancelEvent cpu (.waitDeadlineOf prepared.token))
    ensureQuantumEvent cpu
    pure false
  | .stale =>
    let _ ← onClocks (Clocks.cancelEvent cpu (.waitDeadlineOf prepared.token))
    throw .waitStale

end Genrt
