import Mathlib

/-!
# Identities, configuration and panics

The kernel is built for a fixed number of logical processors and a bounded
number of threads. A thread identity names a table slot together with the
generation of its occupant, so that a kept identity can be told from a later
occupant of the same slot.

Every `panic!` of the modelled code is one constructor of `Panic`, named after
the condition it guards. A panic halts the kernel: no state follows it.
-/

namespace Genrt

/-- Fixed capacity of the thread table. -/
def kernelThreadCapacity : Nat := 12

/-- Fixed capacity of every per-processor array. -/
def kernelCpuCapacity : Nat := 4

/-- Timed-event slots reserved for each thread slot. -/
def timedEventCapacityPerThread : Nat := 3

/-- Generation given to every thread published during bootstrap. -/
def initialThreadGeneration : Nat := 1

/-- A logical processor, valid as an index of every per-processor array. -/
abbrev CpuId := Fin kernelCpuCapacity

instance : NeZero kernelCpuCapacity := ⟨by decide⟩

/-- A system call copies at most this many bytes from or to its program. -/
def maxUserCopy : Nat := 1024

/-- A table slot and the generation of its occupant. -/
structure ThreadId where
  index : Nat
  generation : Nat
deriving DecidableEq, Repr

/-- The bounds that `validate_invariants` checks, one per panic. -/
inductive InvariantCheck where
  | readyQueueExceedsCapacity
  | ingressExceedsCapacity
  | ingressWithoutNotification
  | onlineUninitialized
  | retiredInvalid
  | freeSlotWithoutStack
  | freeSlotQueued
  | duplicateReadyEntry
  | occupiedSlotWithStack
  | addressSpaceHomeMismatch
  | idleQueued
  | readyQueueMismatch
  | runningMismatch
  | blockedMismatch
  | exitedMismatch
  | preparedNotRunning
  | completedInvalid
  | blockedWaitInvalid
  | staleReadyEntry
  | initializedWithoutCurrent
  | initializedWithoutIdle
  | initializedInvalid
  | runningCount
deriving DecidableEq, Repr

/-- The conditions on which the kernel halts. -/
inductive Panic where
  | nestingOverflow
  | nestingUnderflow
  | preemptionDisabled
  | preSchedulerStateBusy
  | waitUnconsumed
  | waitSequenceOverflow
  | deadlineQueueFull
  | expiredBufferFull
  | reentrantTimerDispatch
  | expiredEventOfOtherCpu
  | remoteSchedule
  | remoteSleep
  | timeUninitialized
  | threadCapacityExceeded
  | freeSlot
  | bootstrapSlotWithoutStack
  | remoteIdlePublication
  | publishOccupiedSlot
  | freeSlotWithoutStack
  | addressSpaceOwnerMismatch
  | idleAlreadyPresent
  | releaseWithActiveWait
  | notCurrentRunning
  | noRunningThread
  | noIdleThread
  | idleCannotBlock
  | idleCannotExit
  | readyStaleThread
  | runningNotReady
  | runningOffHome
  | idleEnqueued
  | queuedOffHome
  | duplicateReadyEntry
  | readyQueueFull
  | staleReadyEntry
  | duplicateRemoteReady
  | remoteReadyFull
  | staleRemoteReady
  | lostSchedulerNotification
  | ipiSendFailed
  | blockedCompletionState
  | preparedCompletionState
  | malformedCommit
  | joinWaitStale
  | waitStale
  | retiredInvalid
  | retiredNotFinalized
  | retiredWithoutExitCode
  | detachedRetainedResources
  | reclaimInvalid
  | reclaimQueued
  | joinerInvalid
  | staleJoiner
  | joinerRetainsResources
  | joinUnconsumed
  | exitedWithoutExitCode
  | exitContinuedCurrent
  | userResourcesDisappeared
  | foreignTimedWait
  | foreignQuantum
  | lostTimerTarget
  | enteredTwice
  | activationFailed
  | exitDetachFailed
  | invariant (check : InvariantCheck)
deriving DecidableEq, Repr

/-- The panics that answer a caller's broken contract or a refusal of the
architecture. All others guard the kernel's own invariants and capacities. -/
def Panic.contract : Panic → Bool
  | .nestingOverflow | .nestingUnderflow | .preemptionDisabled | .preSchedulerStateBusy
  | .waitUnconsumed | .waitSequenceOverflow | .timeUninitialized | .threadCapacityExceeded
  | .addressSpaceOwnerMismatch | .noRunningThread | .idleCannotBlock | .idleCannotExit
  | .ipiSendFailed | .joinUnconsumed | .enteredTwice | .activationFailed | .exitDetachFailed => true
  | _ => false

end Genrt
