import Genrt.Foundation.Machine
import Genrt.Sched.Bootstrap

/-!
# The kernel as a system of processors

Every step is one critical section executed by one processor, and steps of
different processors interleave freely. What a processor is in the middle of
is its control state: between the sections of a wait registration it takes no
interrupt, and between the sections of a timer interrupt it does nothing else.

A wait token is hidden from completers until its owner's lock is released; from
then on they may know it. The completer of a sleep or a mailbox first removes the
deadline of the token, in a section of its own, and then completes the wait. Waits
for input and for children have no deadline and are completed at once.

`Enabled` states what the callers of the scheduler guarantee: the sections of a
wait come in this order, a thread consumes the outcome of a wait or a join before
it exits, and interrupts reach a processor only once its scheduler context is
online.
-/

namespace Genrt

open Effect

/-- The calls that register an explicit wait. -/
inductive WaitCaller where
  | sleep
  | mailbox
  | stdin
  | waitpid
deriving DecidableEq

/-- Whether a wait has a deadline: never, not yet, or already queued. -/
inductive WaitTiming where
  | untimed
  | unscheduled
  | scheduled
deriving DecidableEq

/-- Only sleeps and mailboxes use deadlines. -/
def WaitCaller.timing : WaitCaller → WaitTiming
  | sleep | mailbox => .unscheduled
  | stdin | waitpid => .untimed

/-- What a processor is in the middle of. -/
inductive Control where
  | running
  | waiting (prepared : PreparedWait) (visible : Bool) (timing : WaitTiming)
  | dispatching (now : Nat) (expired : ExpiredEvents)
  | rearming (quantum : QuantumUpdate) (expired : ExpiredEvents)
deriving DecidableEq

/-- The kernel, with the tokens that completers may know and, among them, those
whose deadline was removed or never existed. -/
structure System where
  kernel : Kernel
  control : CpuId → Control
  ipisHandled : CpuId → Nat
  published : List WaitToken
  claimed : List WaitToken

namespace System

variable (s : System)

def online (cpu : CpuId) : Prop := (s.kernel.cpu cpu).online = true

/-- The events queued on a processor. -/
def pendingEvents (cpu : CpuId) : List TimedEvent :=
  match s.kernel.clocks.states cpu with
  | none => []
  | some state => state.queue.events

/-- The processor executes its current thread. -/
def inThread (cpu : CpuId) : Prop := s.online cpu ∧ s.control cpu = .running

/-- The processor executes its current thread or a section of a wait call. -/
def inKernel (cpu : CpuId) : Prop :=
  s.online cpu ∧ (s.control cpu = .running ∨
    ∃ prepared visible timing, s.control cpu = .waiting prepared visible timing)

/-- The current thread of a processor. -/
def currentThread (cpu : CpuId) : Option Thread :=
  (s.kernel.cpu cpu).current.bind s.kernel.find

/-- The running thread has consumed the outcome of its last wait and join. -/
def consumed (cpu : CpuId) : Prop :=
  ∀ t, s.currentThread cpu = some t →
    t.wait.active = none ∧ t.lastJoinResult = none ∧ t.reapedUser = none

end System

abbrev SystemM := Effect System Panic

def onKernel {α : Type} (operation : KernelM α) : SystemM α := fun s =>
  match operation s.kernel with
  | .error panic => .error panic
  | .ok (value, kernel) => .ok (value, { s with kernel := kernel })

def setControl (cpu : CpuId) (control : Control) : SystemM Unit :=
  modify fun s => { s with control := Function.update s.control cpu control }

/-- The critical sections, each executed by the processor it names. -/
inductive Action where
  | registerSecondary
  | initializeCurrentCpu (cpu : CpuId)
  | enterRunningThread (cpu : CpuId)
  | threadSpawn (cpu : CpuId) (attrs : ThreadAttrs)
  | threadSpawnUser (cpu : CpuId) (addressSpace : AddressSpaceId) (stack : OwnedUserStack)
      (attrs : ThreadAttrs)
  | replaceUserResources (cpu : CpuId) (addressSpace : AddressSpaceId) (stack : OwnedUserStack)
  | threadExit (cpu : CpuId) (code : Nat)
  | threadJoin (cpu : CpuId) (target : ThreadId)
  | takeJoinResult (cpu : CpuId)
  | prepareWait (cpu : CpuId) (caller : WaitCaller)
  | scheduleDeadline (cpu : CpuId) (deadline : Nat)
  | revealToken (cpu : CpuId)
  | commitWait (cpu : CpuId)
  | cancelWait (cpu : CpuId)
  | sleepUser (cpu : CpuId) (deadline : Nat)
  | completeWait (cpu : CpuId) (token : WaitToken) (cause : WaitCause)
  | cancelDeadline (cpu : CpuId) (token : WaitToken)
  | finishWait (cpu : CpuId) (token : WaitToken)
  | requestReschedule (cpu : CpuId)
  | preemptCheckpoint (cpu : CpuId)
  | preemptEnter (cpu : CpuId)
  | preemptLeave (cpu : CpuId)
  | schedulerIpi (cpu : CpuId)
  | timerBegin (cpu : CpuId)
  | timerSchedule (cpu : CpuId)
  | timerEnd (cpu : CpuId)
deriving DecidableEq

namespace Action

/-- What the callers guarantee when they enter a section. -/
def Enabled (s : System) : Action → Prop
  | registerSecondary => True
  | initializeCurrentCpu cpu => s.control cpu = .running
  | enterRunningThread cpu => s.control cpu = .running
  | threadSpawn cpu _ => s.inThread cpu
  | threadSpawnUser cpu _ _ _ => s.inThread cpu
  | replaceUserResources cpu _ _ => s.inThread cpu
  | threadExit cpu _ => s.inThread cpu ∧ s.consumed cpu
  | threadJoin cpu _ => s.inThread cpu
  | takeJoinResult cpu => s.inThread cpu
  | prepareWait cpu _ => s.inThread cpu
  | scheduleDeadline cpu _ => s.online cpu ∧
      ∃ prepared, s.control cpu = .waiting prepared false .unscheduled
  | revealToken cpu => s.online cpu ∧
      ∃ prepared timing, s.control cpu = .waiting prepared false timing
  | commitWait cpu => s.online cpu ∧
      ∃ prepared visible timing, s.control cpu = .waiting prepared visible timing
  | cancelWait cpu => s.online cpu ∧
      ∃ prepared visible, s.control cpu = .waiting prepared visible .untimed
  | sleepUser cpu _ => s.inThread cpu
  | completeWait cpu token _ => s.inKernel cpu ∧ token ∈ s.claimed
  | cancelDeadline cpu token => s.inKernel cpu ∧ token ∈ s.published
  | finishWait cpu token => s.inThread cpu ∧ (s.kernel.cpu cpu).current = some token.thread
  | requestReschedule cpu => s.inThread cpu
  | preemptCheckpoint cpu => s.inThread cpu
  | preemptEnter cpu => s.inThread cpu
  | preemptLeave cpu => s.inThread cpu
  | schedulerIpi cpu => s.inThread cpu
  | timerBegin cpu => s.inThread cpu
  | timerSchedule cpu => s.online cpu ∧ ∃ now expired, s.control cpu = .dispatching now expired
  | timerEnd cpu => s.online cpu ∧ ∃ quantum expired, s.control cpu = .rearming quantum expired

/-- Register the deadline of an invisible token. -/
def registerDeadline (cpu : CpuId) (deadline : Nat) : SystemM Unit := do
  match (← get).control cpu with
  | .waiting prepared visible _ =>
    onKernel (onClocks (Clocks.scheduleEvent cpu deadline (.waitDeadlineOf prepared.token)))
    setControl cpu (.waiting prepared visible .scheduled)
  | _ => pure ()

/-- The owner's lock is released, and completers may find the token. -/
def reveal (cpu : CpuId) : SystemM Unit := do
  match (← get).control cpu with
  | .waiting prepared _ timing =>
    setControl cpu (.waiting prepared true timing)
    modify fun s => { s with
      published := prepared.token :: s.published
      claimed := if timing = .untimed then prepared.token :: s.claimed else s.claimed }
  | _ => pure ()

/-- The first section of a completer whose waits may have deadlines. -/
def claim (cpu : CpuId) (token : WaitToken) : SystemM Unit := do
  let _ ← onKernel (onClocks (Clocks.cancelEvent cpu (.waitDeadlineOf token)))
  modify fun s => { s with claimed := token :: s.claimed }

/-- A commit that finds its own registration gone is a caller's error. -/
def commitRegistered (cpu : CpuId) : SystemM Unit := do
  match (← get).control cpu with
  | .waiting prepared _ _ =>
    let result ← onKernel (commitPreparedWait cpu prepared)
    stopIf (result = .stale) .waitStale
    setControl cpu .running
  | _ => pure ()

def cancelRegistered (cpu : CpuId) : SystemM Unit := do
  match (← get).control cpu with
  | .waiting prepared _ _ =>
    let _ ← onKernel (transitionCancelWait prepared)
    setControl cpu .running
  | _ => pure ()

def handleSchedulerIpi (cpu : CpuId) : SystemM Unit := do
  modify fun s =>
    { s with ipisHandled := Function.update s.ipisHandled cpu (s.kernel.ipisSent cpu) }
  onKernel (finishSchedulerIpi cpu)

def beginTimer (cpu : CpuId) : SystemM Unit := do
  let now ← onKernel nowCounter
  match ← onKernel (onClocks (Clocks.beginTimerInterrupt cpu now)) with
  | none => pure ()
  | some expired => setControl cpu (.dispatching now expired)

def scheduleTimer (cpu : CpuId) : SystemM Unit := do
  match (← get).control cpu with
  | .dispatching now expired =>
    let quantum ← onKernel (finishTimerInterrupt cpu now expired)
    setControl cpu (.rearming quantum expired)
  | _ => pure ()

def endTimer (cpu : CpuId) : SystemM Unit := do
  match (← get).control cpu with
  | .rearming quantum expired =>
    onKernel (onClocks (Clocks.endTimerInterrupt cpu quantum expired))
    setControl cpu .running
  | _ => pure ()

/-- Change the preemption nesting of a processor. -/
def nestPreemption (cpu : CpuId)
    (change : PreemptionState → Except Panic PreemptionState) : KernelM Unit := fun k =>
  match change (k.preemption cpu) with
  | .error panic => .error panic
  | .ok state => .ok ((), k.setPreemption cpu state)

/-- The code of each section. -/
def run : Action → SystemM Unit
  | registerSecondary => do let _ ← onKernel registerSecondaryCpu
  | initializeCurrentCpu cpu => do let _ ← onKernel (Genrt.initializeCurrentCpu cpu)
  | enterRunningThread cpu => onKernel (prepareRunningThreadEntry cpu)
  | threadSpawn cpu attrs => do let _ ← onKernel (spawnThread cpu attrs)
  | threadSpawnUser cpu addressSpace stack attrs => do
      let _ ← onKernel (spawnUserThread cpu addressSpace stack attrs)
  | replaceUserResources cpu addressSpace stack => do
      let _ ← onKernel (replaceCurrentUserResources cpu addressSpace stack)
  | threadExit cpu code => onKernel (exitCurrent cpu code)
  | threadJoin cpu target => do let _ ← onKernel (joinThread cpu target)
  | takeJoinResult cpu => do let _ ← onKernel (takeCurrentJoinResult cpu)
  | prepareWait cpu caller => do
      let prepared ← onKernel (transitionPrepareWait cpu)
      setControl cpu (.waiting prepared false caller.timing)
  | scheduleDeadline cpu deadline => registerDeadline cpu deadline
  | revealToken cpu => reveal cpu
  | commitWait cpu => commitRegistered cpu
  | cancelWait cpu => cancelRegistered cpu
  | sleepUser cpu deadline => do let _ ← onKernel (sleepUserUntilCounter cpu deadline)
  | completeWait cpu token cause => do let _ ← onKernel (transitionCompleteWait cpu token cause)
  | cancelDeadline cpu token => claim cpu token
  | finishWait _ token => do let _ ← onKernel (transitionFinishWait token)
  | requestReschedule cpu => onKernel (requestRescheduleOn cpu)
  | preemptCheckpoint cpu => onKernel (Genrt.preemptCheckpoint cpu)
  | preemptEnter cpu => onKernel (nestPreemption cpu PreemptionState.enter)
  | preemptLeave cpu => onKernel (nestPreemption cpu fun state => Prod.snd <$> state.leave)
  | schedulerIpi cpu => handleSchedulerIpi cpu
  | timerBegin cpu => beginTimer cpu
  | timerSchedule cpu => scheduleTimer cpu
  | timerEnd cpu => endTimer cpu

end Action

namespace System

/-- The state in which the boot processor is about to enter its first thread. -/
def booted (k : Kernel) : System := ⟨k, fun _ => .running, fun _ => 0, [], []⟩

/-- All interleavings of critical sections after an accepted boot. -/
def machine : Machine System Action where
  initial s := ∃ config : BootConfig, config.Accepted ∧
    ∃ k, bootstrap config = .ok (.ok k) ∧ s = booted k
  step s action t := action.Enabled s ∧ action.run s = .ok ((), t)

end System

end Genrt
