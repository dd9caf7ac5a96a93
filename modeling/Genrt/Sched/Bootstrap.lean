import Genrt.Sched.Thread

/-!
# Boot

The boot processor builds the scheduler with its idle thread and the static
threads, fills the table with free slots, selects the first thread and publishes
the deadline queues. Every other processor registers, takes a free slot for its
idle thread and enters the scheduler later, in any order relative to the threads
that already run.
-/

namespace Genrt

open Effect

/-- The choices made before boot. -/
structure BootConfig where
  platform : Platform
  cpuCount : Nat
  staticThreads : Nat
  rrQuantumMs : Nat
  threadCapacity : Nat

namespace BootConfig

/-- The topology that the boot code accepts. -/
structure Accepted (config : BootConfig) : Prop where
  someCpu : 0 < config.cpuCount
  cpuBound : config.cpuCount ≤ kernelCpuCapacity

end BootConfig

def transitionNew (threadCapacity rrQuantumMs : Nat) : Except Panic Scheduler :=
  if kernelThreadCapacity < threadCapacity then .error .threadCapacityExceeded
  else .ok
    { lifecycle := ⟨[], []⟩
      cpus := fun _ => .new threadCapacity
      remoteReady := fun _ => .empty (threadCapacity - 1)
      schedulerIpiPending := fun _ => false
      rrQuantumMs := max rrQuantumMs 1 }

def transitionAppendBootstrap (cpu : CpuId) (idle : Bool) : KernelM Unit := do
  let k ← get
  let index := k.scheduler.lifecycle.slots.length
  set (k.setSlots (k.scheduler.lifecycle.slots ++ [.free index]))
  transitionPublishBootstrap cpu index idle

/-- Append free slots until the table holds `threadCapacity` of them. -/
def transitionFillFreeSlots (threadCapacity : Nat) : KernelM Unit :=
  modify fun k =>
    let count := k.scheduler.lifecycle.slots.length
    let added := List.range' count (threadCapacity - count)
    (k.setSlots (k.scheduler.lifecycle.slots ++ added.map ThreadSlot.free)).setFreeSlots
      (added.reverse ++ k.scheduler.lifecycle.freeSlots)

/-- The kernel before the scheduler is built. -/
def Kernel.preBoot (config : BootConfig) (scheduler : Scheduler) : Kernel :=
  { platform := config.platform
    expectedCount := config.cpuCount
    registeredCount := 1
    scheduler := scheduler
    preemption := fun _ => .new
    userSpaces := fun _ => ⟨none, false⟩
    clocks := .initCpuStates config.cpuCount config.platform.timerCounter
    counterReads := 0
    ipisSent := fun _ => 0
    history := [] }

def bootstrapThreads (config : BootConfig) : KernelM (Except SchedError Unit) := do
  transitionAppendBootstrap 0 true
  forEach (List.replicate config.staticThreads ()) fun _ => transitionAppendBootstrap 0 false
  transitionFillFreeSlots config.threadCapacity
  transitionInitialDispatch 0

/-- Boot up to the point where the first thread is about to be entered. -/
def bootstrap (config : BootConfig) : Except Panic (Except SchedError Kernel) :=
  if config.threadCapacity < config.staticThreads + config.cpuCount then
    .ok (.error .threadCapacityTooSmall)
  else match transitionNew config.threadCapacity config.rrQuantumMs with
    | .error panic => .error panic
    | .ok scheduler =>
      match bootstrapThreads config (.preBoot config scheduler) with
      | .error panic => .error panic
      | .ok (.error error, _) => .ok (.error error)
      | .ok (.ok (), k) => .ok (.ok k)

/-- A registered secondary processor creates and selects its idle thread. -/
def initializeCurrentCpu (cpu : CpuId) : KernelM Bool := do
  let registered ← isRegistered cpu
  if cpu.val = 0 ∨ registered = false then pure false
  else
    let k ← get
    stopIf (k.preemption cpu ≠ .new) .preSchedulerStateBusy
    match ← transitionInitializeIdleCurrent cpu with
    | .ok () => pure true
    | .error _ => pure false

/-- The next secondary processor of the topology is registered. -/
def registerSecondaryCpu : KernelM Bool := do
  let k ← get
  if k.registeredCount < k.expectedCount then
    set { k with registeredCount := k.registeredCount + 1 }
    pure true
  else pure false

end Genrt
