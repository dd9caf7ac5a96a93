import Genrt.Sched.Quantum
import Genrt.Sched.Validate

/-!
# Scheduler transitions

The sole owner of thread lifecycle state, current-thread identity and queue
membership. Every function runs under the scheduler lock on the processor it is
given; the architecture handoff and the address-space activation that follow a
switch belong to the callers.
-/

namespace Genrt

open Effect

/-- A scheduling decision for the handoff code. -/
inductive SwitchOutcome where
  | continueCurrent
  | switch (outgoing next : ThreadId)
deriving DecidableEq, Repr

inductive SchedError where
  | alreadyBootstrapped
  | invalidThreadId
  | threadCapacityTooSmall
deriving DecidableEq, Repr

/-- Generations wrap as `u32` and skip zero. -/
def nextGeneration (generation : Nat) : Nat :=
  let next := (generation + 1) % 2 ^ 32
  if next = 0 then 1 else next

/-! ### Queues -/

def requestSchedulerIpi (cpu : CpuId) : KernelM Unit := do
  let k ← get
  onlyIf (k.scheduler.schedulerIpiPending cpu = false) do
    modify fun k => k.setPending cpu true
    stopIf (k.platform.sendsIpi cpu = false) .ipiSendFailed
    modify fun k => { k with ipisSent := Function.update k.ipisSent cpu (k.ipisSent cpu + 1) }

def publishRemoteReady (id : ThreadId) (cpu : CpuId) : KernelM Unit := do
  let queue := (← get).scheduler.remoteReady cpu
  stopIf (id ∈ queue.items) .duplicateRemoteReady
  let queue ← orStop (queue.pushBack id) .remoteReadyFull
  modify fun k => k.setRemote cpu queue
  requestSchedulerIpi cpu

def readyPushBack (cpu : CpuId) (id : ThreadId) : KernelM Unit := do
  let state ← cpuState cpu
  stopIf (state.idle = some id) .idleEnqueued
  let home ← threadHomeCpu id.index
  stopIf (home ≠ cpu) .queuedOffHome
  stopIf (∃ queued ∈ state.readyQueue.items, queued.index = id.index) .duplicateReadyEntry
  let queue ← orStop (state.readyQueue.pushBack id) .readyQueueFull
  modifyCpu cpu fun state => { state with readyQueue := queue }

/-- The thread is live, ready, homed here and not the idle thread. -/
def Kernel.readyOn (k : Kernel) (cpu : CpuId) (id : ThreadId) : Bool :=
  match k.find id with
  | none => false
  | some t => t.state = .ready && (k.cpu cpu).idle ≠ some id && t.homeCpu = cpu

def readyPopFront (cpu : CpuId) : KernelM (Option ThreadId) := do
  match (← cpuState cpu).readyQueue.popFront with
  | none => pure none
  | some (id, queue) =>
    modifyCpu cpu fun state => { state with readyQueue := queue }
    stopIf ((← get).readyOn cpu id = false) .staleReadyEntry
    pure (some id)

def idleThread (cpu : CpuId) : KernelM ThreadId := do
  orStop (← cpuState cpu).idle .noIdleThread

/-- The next thread to run: the queue's head, or idle when it is empty. -/
def selectNext (cpu : CpuId) : KernelM ThreadId := do
  match ← readyPopFront cpu with
  | some id => pure id
  | none => idleThread cpu

def makeReadyAndQueue (cpu : CpuId) (id : ThreadId) (notifyNewPeer : Bool) : KernelM Unit := do
  stopIf ((← threadMatches id) = false) .readyStaleThread
  setState id.index .ready
  let state ← cpuState cpu
  onlyIf (state.idle ≠ some id) do
    readyPushBack cpu id
    onlyIf (notifyNewPeer = true ∧ state.readyQueue.items = []) (noteRunnablePeerAvailable cpu)

def makeRunning (cpu : CpuId) (id : ThreadId) : KernelM Unit := do
  stopIf (((← get).find id).all (fun t => t.state ≠ .ready) = true) .runningNotReady
  let home ← threadHomeCpu id.index
  stopIf (home ≠ cpu) .runningOffHome
  setState id.index .running
  modifyCpu cpu fun state => { state with current := some id }

def assertCurrentRunning (id : ThreadId) : KernelM Unit := do
  let t ← thread id.index
  let k ← get
  stopIf ((k.cpu t.homeCpu).current ≠ some id ∨ k.find id = none ∨ t.state ≠ .running)
    .notCurrentRunning

/-! ### Publication -/

def takeFreeSlot : KernelM (Option Nat) := do
  let k ← get
  match k.scheduler.lifecycle.freeSlots with
  | [] => pure none
  | index :: rest =>
    set (k.setFreeSlots rest)
    pure (some index)

/-- Make a published thread visible: as the idle thread, in the local queue, or
in the ingress of another processor. -/
def publishVisible (cpu homeCpu : CpuId) (id : ThreadId) (bootstrap idle : Bool) :
    KernelM Unit := do
  if idle then
    stopIf ((← cpuState cpu).idle.isSome = true) .idleAlreadyPresent
    modifyCpu cpu fun state => { state with idle := some id }
  else if homeCpu = cpu then
    let wasEmpty := (← cpuState cpu).readyQueue.items = []
    readyPushBack cpu id
    onlyIf (bootstrap = false ∧ wasEmpty) (noteRunnablePeerAvailable cpu)
  else publishRemoteReady id homeCpu

/-- Occupy a free slot. The callback that binds a user thread to its process
before it becomes visible changes no scheduler state and is left out. -/
def publish (cpu homeCpu : CpuId) (index : Nat) (user : Option UserThreadResources)
    (joinable : Bool) (generation : Nat) (bootstrap idle : Bool) : KernelM Unit := do
  stopIf (idle = true ∧ homeCpu ≠ cpu) .remoteIdlePublication
  let slot ← orStop (← get).scheduler.lifecycle.slots[index]? .freeSlot
  stopIf (slot.thread.isSome = true) .publishOccupiedSlot
  let stack ← orStop slot.stack .freeSlotWithoutStack
  let published : Thread :=
    { homeCpu, state := .ready, joinable, exitCode := none, joiner := none
      lastJoinResult := none, reapedUser := none, user
      wait := .withNextSequence slot.nextWaitSequence, stack }
  modify fun k => k.modifySlot index fun slot =>
    { slot with generation, stack := none, thread := some published }
  record (.published ⟨index, generation⟩)
  stopIf (∃ u ∈ user, u.addressSpace.ownerCpu ≠ homeCpu) .addressSpaceOwnerMismatch
  publishVisible cpu homeCpu ⟨index, generation⟩ bootstrap idle
  validateAfterTransition

def transitionPublishBootstrap (cpu : CpuId) (index : Nat) (idle : Bool) : KernelM Unit := do
  let slot ← orStop (← get).scheduler.lifecycle.slots[index]? .freeSlot
  stopIf (slot.stack.isNone = true) .bootstrapSlotWithoutStack
  publish cpu cpu index none false initialThreadGeneration true idle

def transitionPublishRuntime (cpu homeCpu : CpuId) (index : Nat)
    (user : Option UserThreadResources) (joinable : Bool) : KernelM ThreadId := do
  let slot ← orStop (← get).scheduler.lifecycle.slots[index]? .freeSlot
  let generation := nextGeneration slot.generation
  publish cpu homeCpu index user joinable generation false false
  pure ⟨index, generation⟩

/-! ### Dispatch and switches -/

def transitionInitialDispatch (cpu : CpuId) : KernelM (Except SchedError Unit) := do
  if (← cpuState cpu).current.isSome then pure (.error .invalidThreadId)
  else
    let next ← selectNext cpu
    makeRunning cpu next
    modifyCpu cpu fun state => { state with initialized := true }
    validateAfterTransition
    pure (.ok ())

def transitionInitializeIdleCurrent (cpu : CpuId) : KernelM (Except SchedError Unit) := do
  let state ← cpuState cpu
  if state.initialized = true ∨ state.current.isSome = true ∨ state.idle.isSome = true then
    pure (.error .invalidThreadId)
  else
    match ← takeFreeSlot with
    | none => pure (.error .threadCapacityTooSmall)
    | some index =>
      transitionPublishBootstrap cpu index true
      transitionInitialDispatch cpu

def transitionOptionalSwitch (cpu : CpuId) : KernelM SwitchOutcome := do
  match ← runningThread cpu with
  | none => pure .continueCurrent
  | some outgoing =>
    assertCurrentRunning outgoing
    match ← readyPopFront cpu with
    | none =>
      validateAfterTransition
      pure .continueCurrent
    | some next =>
      makeReadyAndQueue cpu outgoing false
      makeRunning cpu next
      validateAfterTransition
      pure (.switch outgoing next)

/-- The sole-wake conditions of the direct idle wake, apart from the wait. -/
def Kernel.soleWake (k : Kernel) (cpu : CpuId) (current : ThreadId) (token : WaitToken) : Bool :=
  (k.cpu cpu).idle = some current && (k.ready cpu).isEmpty && (k.remote cpu).isEmpty &&
    token.cpu = cpu &&
    match k.find token.thread with
    | none => false
    | some t => t.homeCpu = cpu && t.state = .blocked

def transitionTimedWakeFromIdle (cpu : CpuId) (token : WaitToken) :
    KernelM (Option SwitchOutcome) := do
  match ← runningThread cpu with
  | none => pure none
  | some current =>
    if (← get).soleWake cpu current token = false then pure none
    else
      assertCurrentRunning current
      let result ← threadWait token.thread.index fun w => w.complete token .timeout
      record (.completed token .timeout result)
      if result ≠ .wokeBlocked then pure none
      else
        setState token.thread.index .ready
        record (.readied token)
        makeReadyAndQueue cpu current false
        makeRunning cpu token.thread
        validateAfterTransition
        pure (some (.switch current token.thread))

/-! ### Waits -/

def transitionPrepareWaitWith (cpu : CpuId) (consumption : WaitConsumption) :
    KernelM PreparedWait := do
  assertPreemptionEnabledOn cpu
  let current ← orStop (← runningThread cpu) .noRunningThread
  assertCurrentRunning current
  let found ← thread current.index
  match found.wait.prepareWithConsumption current cpu consumption with
  | .error panic => throw panic
  | .ok (prepared, wait) =>
    threadMut current.index fun t => { t with wait := wait }
    record (.prepared prepared.token)
    validateAfterTransition
    pure prepared

def transitionPrepareWait (cpu : CpuId) : KernelM PreparedWait :=
  transitionPrepareWaitWith cpu .explicit

def transitionPrepareAutomaticWait (cpu : CpuId) : KernelM PreparedWait :=
  transitionPrepareWaitWith cpu .automatic

def transitionCommitWait (cpu : CpuId) (prepared : PreparedWait) :
    KernelM (CommitState × Option SwitchOutcome) := do
  assertPreemptionEnabledOn cpu
  let current ← orStop (← runningThread cpu) .noRunningThread
  assertCurrentRunning current
  let idle ← idleThread cpu
  stopIf (current = idle) .idleCannotBlock
  let commit ← threadWait current.index fun w => w.commit prepared
  record (.committed prepared.token commit)
  match commit with
  | .block _ =>
    let next ← selectNext cpu
    setState current.index .blocked
    makeRunning cpu next
    validateAfterTransition
    pure (commit, some (.switch current next))
  | .early _ | .stale =>
    validateAfterTransition
    pure (commit, none)

/-- Make the thread of a completed blocked wait ready on its home processor. -/
def wakeBlocked (executing : CpuId) (token : WaitToken) (notifyReady : Bool) : KernelM Unit := do
  let state ← threadState token.thread.index
  stopIf (state ≠ .blocked) .blockedCompletionState
  let home ← threadHomeCpu token.thread.index
  record (.readied token)
  if home = executing then
    makeReadyAndQueue home token.thread notifyReady
    onlyIf (notifyReady = false) (requestRescheduleOn home)
  else
    setState token.thread.index .ready
    publishRemoteReady token.thread home

/-- What a completion does besides updating the wait. -/
def afterCompletion (executing : CpuId) (token : WaitToken) (notifyReady : Bool) :
    CompletionResult → KernelM Unit
  | .wokeBlocked => wakeBlocked executing token notifyReady
  | .completedPrepared => do
      let state ← threadState token.thread.index
      stopIf (state ≠ .running) .preparedCompletionState
  | .alreadyCompleted | .stale => pure ()

def completeWaitTransition (executing : CpuId) (token : WaitToken) (cause : WaitCause)
    (notifyReady : Bool) : KernelM CompletionResult := do
  if (← threadMatches token.thread) = false then
    record (.completed token cause .stale)
    pure .stale
  else
    let result ← threadWait token.thread.index fun w => w.complete token cause
    record (.completed token cause result)
    afterCompletion executing token notifyReady result
    validateAfterTransition
    pure result

def transitionCompleteWait (executing : CpuId) (token : WaitToken) (cause : WaitCause) :
    KernelM CompletionResult :=
  completeWaitTransition executing token cause true

def transitionCompleteWaitForTimer (executing : CpuId) (token : WaitToken) :
    KernelM CompletionResult :=
  completeWaitTransition executing token .timeout false

/-- The thread is live and current on its home processor. -/
def Kernel.isCurrent (k : Kernel) (id : ThreadId) : Bool :=
  match k.find id with
  | none => false
  | some t => (k.cpu t.homeCpu).current = some id

def transitionFinishWait (token : WaitToken) : KernelM (Except FinishError WaitCause) := do
  if (← get).isCurrent token.thread = false then
    record (.finished token (.error .stale))
    pure (.error .stale)
  else
    assertCurrentRunning token.thread
    let result ← threadWait token.thread.index fun w => w.finish token
    record (.finished token result)
    validateAfterTransition
    pure result

def transitionCancelWait (prepared : PreparedWait) : KernelM CancelResult := do
  if (← get).isCurrent prepared.token.thread = false then
    record (.cancelled prepared.token .stale)
    pure .stale
  else
    assertCurrentRunning prepared.token.thread
    let result ← threadWait prepared.token.thread.index fun w => w.cancel prepared
    record (.cancelled prepared.token result)
    validateAfterTransition
    pure result

/-! ### Exit and reap -/

/-- Release a thread's slot and return its user resources; a stale identity
releases nothing. -/
def reapExited (id : ThreadId) : KernelM (Option UserThreadResources) := do
  match (← get).find id with
  | none => pure none
  | some t =>
    stopIf (t.wait.isNone = false) .releaseWithActiveWait
    modify fun k => (k.modifySlot id.index fun slot =>
      { slot with
        nextWaitSequence := t.wait.nextSequence, stack := some t.stack, thread := none })
    modify fun k => k.setFreeSlots (id.index :: k.scheduler.lifecycle.freeSlots)
    record (.released id)
    pure t.user

/-- The thread may be reclaimed: live, exited, and neither idle, current nor
retired on its home processor. -/
def Kernel.reclaimable (k : Kernel) (id : ThreadId) : Bool :=
  match k.find id with
  | none => false
  | some t =>
    (k.cpu t.homeCpu).idle ≠ some id && (k.cpu t.homeCpu).current ≠ some id &&
      (k.cpu t.homeCpu).retired ≠ some id && t.state = .exited

def transitionReapExited (id : ThreadId) : KernelM (Option UserThreadResources) := do
  stopIf ((← get).reclaimable id = false) .reclaimInvalid
  let home ← threadHomeCpu id.index
  let k ← get
  stopIf (∃ queued ∈ k.ready home, queued.index = id.index) .reclaimQueued
  let resources ← reapExited id
  validateAfterTransition
  pure resources

def setReapedUser (id : ThreadId) (user : Option UserThreadResources) : KernelM Unit := do
  let joiner ← orStop ((← get).find id) .staleJoiner
  stopIf (joiner.reapedUser.isSome = true) .joinerRetainsResources
  threadMut id.index fun t => { t with reapedUser := user }

def setJoinResult (index : Nat) (result : Except JoinError Nat) : KernelM Unit :=
  threadMut index fun t => { t with lastJoinResult := some result }

def completeJoiner (executing : CpuId) (joiner : WaitToken) (code : Nat) (notifyReady : Bool) :
    KernelM Unit := do
  let result ← completeWaitTransition executing joiner .notified notifyReady
  stopIf (result ≠ .wokeBlocked) .joinerInvalid
  setJoinResult joiner.thread.index (.ok code)

/-- A retired entry names a live exited thread of this processor that is not its
current thread. -/
def Kernel.retiredValid (k : Kernel) (cpu : CpuId) (id : ThreadId) : Bool :=
  (k.cpu cpu).current ≠ some id &&
    match k.find id with
    | none => false
    | some t => t.state = .exited && t.homeCpu = cpu

/-- Hand a retired thread to its joiner, or reclaim it when it is detached. -/
def finalizeThread (cpu : CpuId) (id : ThreadId) (t : Thread) (notifyReady : Bool) :
    KernelM Unit := do
  match t.joiner with
  | some joiner =>
    let code ← orStop t.exitCode .retiredWithoutExitCode
    completeJoiner cpu joiner code notifyReady
    let resources ← reapExited id
    setReapedUser joiner.thread resources
    record (.handed id joiner.thread code resources)
  | none =>
    onlyIf (t.joinable = false) do
      let resources ← reapExited id
      stopIf (resources.isSome = true) .detachedRetainedResources

def finalizeRetired (cpu : CpuId) (notifyReady : Bool) : KernelM Unit := do
  match (← cpuState cpu).retired with
  | none => pure ()
  | some exited =>
    modifyCpu cpu fun state => { state with retired := none }
    stopIf ((← get).retiredValid cpu exited = false) .retiredInvalid
    let t ← thread exited.index
    threadMut exited.index fun t => { t with joiner := none }
    finalizeThread cpu exited t notifyReady
    validateAfterTransition

def transitionFinalizeRetired (cpu : CpuId) : KernelM Unit := finalizeRetired cpu true

def transitionFinalizeRetiredForTimer (cpu : CpuId) : KernelM Unit := finalizeRetired cpu false

def transitionExitCurrent (cpu : CpuId) (code : Nat) : KernelM SwitchOutcome := do
  let current ← orStop (← runningThread cpu) .noRunningThread
  assertCurrentRunning current
  let idle ← idleThread cpu
  stopIf (current = idle) .idleCannotExit
  stopIf ((← cpuState cpu).retired.isSome = true) .retiredNotFinalized
  threadMut current.index fun t => { t with exitCode := some code }
  setState current.index .exited
  record (.exited current code (← thread current.index).user)
  modifyCpu cpu fun state => { state with retired := some current }
  let next ← selectNext cpu
  makeRunning cpu next
  requestSchedulerIpi cpu
  validateAfterTransition
  pure (.switch current next)

/-! ### Notifications from other processors -/

/-- Move the first ingress entry into the local queue, `fuel` times at most. -/
def drainRemoteReady (cpu : CpuId) : Nat → KernelM Unit
  | 0 => pure ()
  | fuel + 1 => do
      match ((← get).scheduler.remoteReady cpu).popFront with
      | none => pure ()
      | some (id, queue) =>
        modify fun k => k.setRemote cpu queue
        stopIf (((← get).find id).all (fun t => t.state ≠ .ready ∨ t.homeCpu ≠ cpu) = true)
          .staleRemoteReady
        readyPushBack cpu id
        drainRemoteReady cpu fuel

/-- Clear the notification and empty the ingress. Each round removes one entry,
so its length bounds the rounds. -/
def consumeSchedulerIpi (cpu : CpuId) : KernelM Unit := do
  let k ← get
  modify fun k => k.setPending cpu false
  stopIf (k.scheduler.schedulerIpiPending cpu = false ∧ k.remote cpu ≠ [])
    .lostSchedulerNotification
  drainRemoteReady cpu (k.remote cpu).length

end Genrt
