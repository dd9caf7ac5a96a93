import Genrt.Sched.Table

/-!
# The scheduler's self-check

`validateInvariants` walks every processor and every slot and halts on the first
violated condition. Each condition is listed with its panic in the order of the
source. Debug builds run it after every transition.
-/

namespace Genrt

open Effect

/-- The first listed condition that is violated, if any. -/
def firstViolation (checks : List (Bool × Panic)) : Except Panic Unit :=
  match checks.find? (fun check => check.1) with
  | some (_, panic) => .error panic
  | none => .ok ()

namespace Scheduler

variable (s : Scheduler)

def threadAt (index : Nat) : Option Thread := s.lifecycle.slots[index]?.bind ThreadSlot.thread

def cpuChecks (cpu : CpuId) : List (Bool × Panic) :=
  let state := s.cpus cpu
  let ingress := s.remoteReady cpu
  [(decide (state.readyQueue.capacity < state.readyQueue.items.length),
      .invariant .readyQueueExceedsCapacity),
    (decide (ingress.capacity < ingress.items.length), .invariant .ingressExceedsCapacity),
    (!ingress.items.isEmpty && !s.schedulerIpiPending cpu,
      .invariant .ingressWithoutNotification),
    (state.online && !state.initialized, .invariant .onlineUninitialized),
    (match state.retired with
      | none => false
      | some retired =>
        match s.lifecycle.get retired with
        | none => true
        | some t => t.homeCpu ≠ cpu || t.state ≠ .exited || state.current = some retired,
      .invariant .retiredInvalid)]

/-- Entries of one identity in its home queue and ingress. -/
def queuedCount (cpu : CpuId) (id : ThreadId) : Nat :=
  (s.cpus cpu).readyQueue.items.count id + (s.remoteReady cpu).items.count id

def slotQueued (index : Nat) : Bool :=
  (List.finRange kernelCpuCapacity).any fun cpu =>
    (s.cpus cpu).readyQueue.items.any (fun queued => queued.index = index) ||
      (s.remoteReady cpu).items.any (fun queued => queued.index = index)

def threadChecks (id : ThreadId) (slot : ThreadSlot) (t : Thread) : List (Bool × Panic) :=
  let state := s.cpus t.homeCpu
  let queued := s.queuedCount t.homeCpu id
  [(decide (1 < queued), .invariant .duplicateReadyEntry),
    (slot.stack.isSome, .invariant .occupiedSlotWithStack),
    (match t.user with
      | none => false
      | some user => user.addressSpace.ownerCpu ≠ t.homeCpu,
      .invariant .addressSpaceHomeMismatch),
    (t.state = .ready && state.idle = some id && queued ≠ 0, .invariant .idleQueued),
    (t.state = .ready && state.idle ≠ some id && queued ≠ 1, .invariant .readyQueueMismatch),
    (t.state = .running && (state.current ≠ some id || queued ≠ 0), .invariant .runningMismatch),
    (t.state = .blocked && (queued ≠ 0 || !t.wait.isBlocked), .invariant .blockedMismatch),
    (t.state = .exited && (queued ≠ 0 || !t.wait.isNone), .invariant .exitedMismatch),
    (t.wait.isPrepared && t.state ≠ .running, .invariant .preparedNotRunning),
    (t.wait.isCompleted && t.state ≠ .ready && t.state ≠ .running, .invariant .completedInvalid),
    (t.wait.isBlocked && t.state ≠ .blocked, .invariant .blockedWaitInvalid)]

def slotChecks (index : Nat) (slot : ThreadSlot) : List (Bool × Panic) :=
  match slot.thread with
  | none =>
    [(slot.stack.isNone, .invariant .freeSlotWithoutStack),
      (s.slotQueued index, .invariant .freeSlotQueued)]
  | some t => s.threadChecks ⟨index, slot.generation⟩ slot t

def queueChecks (cpu : CpuId) : List (Bool × Panic) :=
  (s.cpus cpu).readyQueue.items.map fun queued =>
    (match s.lifecycle.get queued with
      | none => true
      | some t => t.state ≠ .ready || t.homeCpu ≠ cpu || (s.cpus cpu).idle = some queued,
      .invariant .staleReadyEntry)

/-- The identity of the current or idle thread is looked up by slot only. -/
def contextChecks (cpu : CpuId) : List (Bool × Panic) :=
  let state := s.cpus cpu
  (state.online && !state.initialized, .invariant .onlineUninitialized) ::
    if state.initialized = false then []
    else match state.current, state.idle with
      | none, _ => [(true, .invariant .initializedWithoutCurrent)]
      | some _, none => [(true, .invariant .initializedWithoutIdle)]
      | some current, some idle =>
        match s.threadAt current.index, s.threadAt idle.index with
        | some running, some waiting =>
          [(running.homeCpu ≠ cpu || waiting.homeCpu ≠ cpu || running.state ≠ .running,
            .invariant .initializedInvalid)]
        | _, _ => [(true, .freeSlot)]

def runningCount : Nat :=
  s.lifecycle.slots.countP fun slot => slot.thread.any fun t => t.state = .running

def initializedCount : Nat :=
  (List.finRange kernelCpuCapacity).countP fun cpu => (s.cpus cpu).initialized

def validateInvariants : Except Panic Unit :=
  firstViolation <|
    (List.finRange kernelCpuCapacity).flatMap s.cpuChecks ++
    (s.lifecycle.slots.mapIdx s.slotChecks).flatten ++
    (List.finRange kernelCpuCapacity).flatMap s.queueChecks ++
    (List.finRange kernelCpuCapacity).flatMap s.contextChecks ++
    [(decide (s.runningCount ≠ s.initializedCount), Panic.invariant .runningCount)]

end Scheduler

/-- Debug builds check the scheduler after every transition. -/
def validateAfterTransition : KernelM Unit := fun k =>
  if k.platform.debugAssertions then
    match k.scheduler.validateInvariants with
    | .error panic => .error panic
    | .ok () => .ok ((), k)
  else .ok ((), k)

end Genrt
