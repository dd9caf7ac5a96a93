import Genrt.Sched.Preempt

/-!
# Thread creation, exit and join

Spawning takes a free slot and publishes it on an online processor. Exiting
selects the next thread and leaves the old one retired until the next scheduler
entry on its processor. Joining either reaps an exited thread at once or blocks
the caller until that entry hands over the exit code and the user resources.
-/

namespace Genrt

open Effect

inductive ThreadAffinity where
  | current
  | cpu (id : CpuId)
deriving DecidableEq, Repr

structure ThreadAttrs where
  joinable : Bool
  affinity : ThreadAffinity
deriving DecidableEq, Repr

inductive SpawnError where
  | noThreadSlots
  | noStackSlots
  | schedulerNotInitialized
  | invalidCpuAffinity
  | cpuOffline
  | userThreadMustBeJoinable
deriving DecidableEq, Repr

/-- The target processor of an affinity: registered and online. -/
def resolveAffinity (cpu : CpuId) (affinity : ThreadAffinity) :
    KernelM (Except SpawnError CpuId) := do
  let target := match affinity with
    | .current => cpu
    | .cpu id => id
  if (← isRegistered target) = false then pure (.error .invalidCpuAffinity)
  else if (← cpuState target).online = false then pure (.error .cpuOffline)
  else pure (.ok target)

def spawnThread (cpu : CpuId) (attrs : ThreadAttrs) : KernelM (Except SpawnError ThreadId) := do
  transitionFinalizeRetired cpu
  match ← resolveAffinity cpu attrs.affinity with
  | .error error => pure (.error error)
  | .ok target =>
    match ← takeFreeSlot with
    | none => pure (.error .noThreadSlots)
    | some index => .ok <$> transitionPublishRuntime cpu target index none attrs.joinable

/-- Both user spawns differ only in the initial register context. A refused spawn
returns the stack to the caller. -/
def spawnUserThread (cpu : CpuId) (addressSpace : AddressSpaceId) (stack : OwnedUserStack)
    (attrs : ThreadAttrs) : KernelM (Except (SpawnError × OwnedUserStack) ThreadId) := do
  match ← resolveAffinity cpu attrs.affinity with
  | .error error => pure (.error (error, stack))
  | .ok target =>
    if attrs.joinable = false then pure (.error (.userThreadMustBeJoinable, stack))
    else match ← takeFreeSlot with
      | none => pure (.error (.noThreadSlots, stack))
      | some index =>
        .ok <$> transitionPublishRuntime cpu target index (some ⟨addressSpace, stack⟩)
          attrs.joinable

/-- Remove the address space of an exiting user thread before idle runs. -/
def detachExited (cpu : CpuId) (exited next : ThreadId) : KernelM Unit := do
  let space ← threadAddressSpace exited.index
  let idle := (← cpuState cpu).idle
  onlyIf (space.isSome = true ∧ idle = some next) do
    let result ← clearUserAddressSpace cpu
    stopIf (result ≠ .ok ()) .exitDetachFailed

def exitCurrent (cpu : CpuId) (code : Nat) : KernelM Unit := do
  assertPreemptionEnabledOn cpu
  transitionFinalizeRetired cpu
  match ← transitionExitCurrent cpu code with
  | .continueCurrent => throw .exitContinuedCurrent
  | .switch exited next =>
    detachExited cpu exited next
    activateThreadAddressSpace cpu next
    finishBlockCurrent cpu exited

/-- What a blocking call tells its caller: the registered token and, when the
completion came first, its cause. -/
structure SchedCallWaitOutput where
  token : Option WaitToken
  early : Option WaitCause
deriving DecidableEq, Repr

/-- Why a join ends at once with an error, if it does. -/
def Kernel.joinRefusal (k : Kernel) (cpu : CpuId) (current target : ThreadId) : Option JoinError :=
  if (k.cpu cpu).idle = some current then some .notJoinable
  else match k.find target with
    | none => some .invalidThread
    | some t =>
      if (k.cpu t.homeCpu).idle = some target then some .notJoinable
      else if target.index = current.index then some .selfJoin
      else if t.joinable = false then some .notJoinable
      else if t.joiner.isSome then some .joinInProgress
      else none

/-- The thread has exited and its processor has left its stack. -/
def Kernel.reapable (k : Kernel) (target : ThreadId) : Bool :=
  match k.find target with
  | none => false
  | some t => t.state = .exited && (k.cpu t.homeCpu).retired ≠ some target

/-- The joiner reaps an exited thread itself. -/
def joinExited (current target : ThreadId) : KernelM Unit := do
  let t ← thread target.index
  let code ← orStop t.exitCode .exitedWithoutExitCode
  let reaped ← transitionReapExited target
  setReapedUser current reaped
  setJoinResult current.index (.ok code)
  record (.handed target current code reaped)

/-- The joiner registers with the target and blocks. -/
def joinBlocking (cpu : CpuId) (target : ThreadId) : KernelM SchedCallWaitOutput := do
  assertPreemptionEnabledOn cpu
  let prepared ← transitionPrepareWait cpu
  threadMut target.index fun t => { t with joiner := some prepared.token }
  match ← commitPreparedWait cpu prepared with
  | .blocked _ => pure ⟨some prepared.token, none⟩
  | .early cause => pure ⟨some prepared.token, some cause⟩
  | .stale => throw .joinWaitStale

def joinThread (cpu : CpuId) (target : ThreadId) : KernelM SchedCallWaitOutput := do
  transitionFinalizeRetired cpu
  let current ← orStop (← runningThread cpu) .noRunningThread
  let t ← thread current.index
  stopIf (t.lastJoinResult.isSome = true ∨ t.reapedUser.isSome = true) .joinUnconsumed
  let k ← get
  match k.joinRefusal cpu current target with
  | some error =>
    setJoinResult current.index (.error error)
    pure ⟨none, none⟩
  | none =>
    if k.reapable target = true then
      joinExited current target
      pure ⟨none, none⟩
    else joinBlocking cpu target

/-- Take the result and the user resources of the last join together. -/
def takeCurrentJoinResult (cpu : CpuId) :
    KernelM (Option (Except JoinError Nat × Option UserThreadResources)) := do
  let current ← orStop (← runningThread cpu) .noRunningThread
  let t ← thread current.index
  match t.lastJoinResult with
  | none => pure none
  | some result =>
    threadMut current.index fun t => { t with lastJoinResult := none, reapedUser := none }
    record (.joined current result t.reapedUser)
    pure (some (result, t.reapedUser))

/-- Replace the address space and stack of the running user thread. On success
the old resources are returned, otherwise the new stack. -/
def replaceCurrentUserResources (cpu : CpuId) (addressSpace : AddressSpaceId)
    (stack : OwnedUserStack) : KernelM (Except OwnedUserStack UserThreadResources) := do
  match ← runningThread cpu with
  | none => pure (.error stack)
  | some current =>
    let t ← thread current.index
    match t.user with
    | none => pure (.error stack)
    | some old =>
      if addressSpace.ownerCpu ≠ t.homeCpu then pure (.error stack)
      else if (← activateUserAddressSpace cpu addressSpace) ≠ .ok () then pure (.error stack)
      else
        threadMut current.index fun t => { t with user := some ⟨addressSpace, stack⟩ }
        pure (.ok old)

end Genrt
