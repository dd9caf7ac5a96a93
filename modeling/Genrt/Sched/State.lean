import Genrt.Foundation.Dispatch
import Genrt.Sync.Preempt
import Genrt.Time.State

/-!
# The state of the kernel

One lock protects the thread table, every processor's scheduling state and the
ingress queues between processors. The preemption state, the installed user
address space and the time state belong to one processor each.

Saved register contexts are left out: no scheduling decision reads them. Memory
that a thread owns is represented by what the scheduler moves around, the kernel
stack of a slot and the user resources of a thread. The architecture is a record
of its answers: the readings of the counter, its frequency, and the address-space
roots it accepts.
-/

namespace Genrt

/-- The kernel stack reserved with one table slot. -/
structure OwnedKernelStack where
  slot : Nat
deriving DecidableEq, Repr

structure AddressSpaceId where
  rootPa : Nat
  ownerCpu : CpuId
deriving DecidableEq, Repr

/-- The mapped stack frames owned by one user thread. -/
structure OwnedUserStack where
  frames : Nat
  base : Nat
  size : Nat
deriving DecidableEq, Repr

structure UserThreadResources where
  addressSpace : AddressSpaceId
  stack : OwnedUserStack
deriving DecidableEq, Repr

/-- Ready, running, blocked or exited. -/
abbrev ThreadState := Dispatch.Status

inductive JoinError where
  | invalidThread
  | notJoinable
  | selfJoin
  | joinInProgress
  | schedulerNotInitialized
deriving DecidableEq, Repr

structure Thread where
  homeCpu : CpuId
  state : ThreadState
  joinable : Bool
  exitCode : Option Nat
  joiner : Option WaitToken
  lastJoinResult : Option (Except JoinError Nat)
  reapedUser : Option UserThreadResources
  user : Option UserThreadResources
  wait : WaitMetadata
  stack : OwnedKernelStack
deriving DecidableEq

structure ThreadSlot where
  generation : Nat
  nextWaitSequence : Nat
  stack : Option OwnedKernelStack
  thread : Option Thread
deriving DecidableEq

/-- A slot that was never occupied. -/
def ThreadSlot.free (index : Nat) : ThreadSlot := ⟨0, 0, some ⟨index⟩, none⟩

/-- The slots and the stack of free slot indices, its top first. -/
structure ThreadTable where
  slots : List ThreadSlot
  freeSlots : List Nat

structure CpuSchedulerState where
  current : Option ThreadId
  idle : Option ThreadId
  retired : Option ThreadId
  readyQueue : BoundedQueue ThreadId
  initialized : Bool
  online : Bool

def CpuSchedulerState.new (threadCapacity : Nat) : CpuSchedulerState :=
  ⟨none, none, none, .empty (threadCapacity - 1), false, false⟩

structure Scheduler where
  lifecycle : ThreadTable
  cpus : CpuId → CpuSchedulerState
  remoteReady : CpuId → BoundedQueue ThreadId
  schedulerIpiPending : CpuId → Bool
  rrQuantumMs : Nat

/-- The installed root and whether user pointers may be used. -/
structure CpuUserAddressSpace where
  installed : Option Nat
  userAccess : Bool
deriving DecidableEq, Repr

/-- What the architecture answers, and whether debug validation is compiled in. -/
structure Platform where
  counter : Nat → Nat
  timerCounter : CpuId → Nat → Nat
  counterFreqHz : Nat
  activates : Nat → Bool
  detaches : Bool
  sendsIpi : CpuId → Bool
  debugAssertions : Bool

/-- The log of thread and wait operations with their outcomes. The kernel keeps
no such log; statements about whole runs read it. -/
inductive Event where
  | published (thread : ThreadId)
  | exited (thread : ThreadId) (code : Nat) (user : Option UserThreadResources)
  | released (thread : ThreadId)
  | handed (target joiner : ThreadId) (code : Nat) (user : Option UserThreadResources)
  | joined (joiner : ThreadId) (result : Except JoinError Nat)
      (user : Option UserThreadResources)
  | prepared (token : WaitToken)
  | committed (token : WaitToken) (outcome : CommitState)
  | completed (token : WaitToken) (cause : WaitCause) (result : CompletionResult)
  | readied (token : WaitToken)
  | cancelled (token : WaitToken) (result : CancelResult)
  | finished (token : WaitToken) (result : Except FinishError WaitCause)
deriving DecidableEq

structure Kernel where
  platform : Platform
  expectedCount : Nat
  registeredCount : Nat
  scheduler : Scheduler
  preemption : CpuId → PreemptionState
  userSpaces : CpuId → CpuUserAddressSpace
  clocks : Clocks
  counterReads : Nat
  ipisSent : CpuId → Nat
  history : List Event

abbrev KernelM := Effect Kernel Panic

end Genrt
