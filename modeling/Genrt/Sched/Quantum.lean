import Genrt.Sched.Table

/-!
# Reschedule requests and quantum events

A running thread owns a quantum event exactly while another thread could run in
its place. The functions here request a reschedule, create the event when it is
missing, and replace it after a handoff.
-/

namespace Genrt

open Effect

def requestRescheduleOn (cpu : CpuId) : KernelM Unit :=
  modify fun k => k.setPreemption cpu (k.preemption cpu).request

def consumeCheckpointOn (cpu : CpuId) (online : Bool) : KernelM Bool :=
  modifyGet fun k =>
    let (consumed, state) := (k.preemption cpu).consumeCheckpoint online
    (consumed, k.setPreemption cpu state)

def assertPreemptionEnabledOn (cpu : CpuId) : KernelM Unit := do
  stopIf (((← get).preemption cpu).isDisabled = true) .preemptionDisabled

def runningThread (cpu : CpuId) : KernelM (Option ThreadId) := return (← cpuState cpu).current

def hasRunnablePeer (cpu : CpuId) : KernelM Bool :=
  return !(← cpuState cpu).readyQueue.items.isEmpty

/-- The end of a quantum that starts at `now`, in wrapping counter arithmetic. -/
def quantumDeadline (now : Nat) : KernelM Nat := do
  let k ← get
  pure ((now + msToCounts k.platform.counterFreqHz k.scheduler.rrQuantumMs) % 2 ^ 64)

/-- Create the quantum event of the current thread when it has a peer and the
event is missing. The counter is read only in that case. -/
def ensureQuantumEvent (cpu : CpuId) : KernelM Unit := do
  match ← runningThread cpu with
  | none => pure ()
  | some current =>
    if (← hasRunnablePeer cpu) = false then pure ()
    else if (← onClocks (Clocks.eventPending cpu (.quantumExpired cpu current))) = true then
      pure ()
    else
      let deadline ← quantumDeadline (← nowCounter)
      onClocks (Clocks.scheduleEvent cpu deadline (.quantumExpired cpu current))

def noteRunnablePeerAvailable (cpu : CpuId) : KernelM Unit := do
  let current ← runningThread cpu
  let peer ← hasRunnablePeer cpu
  onlyIf (current.isSome = true ∧ peer = true) do
    requestRescheduleOn cpu
    ensureQuantumEvent cpu

def replaceQuantumEvent (cpu : CpuId) (obsolete : ThreadId) : KernelM Unit := do
  let _ ← onClocks (Clocks.cancelEvent cpu (.quantumExpired cpu obsolete))
  ensureQuantumEvent cpu

end Genrt
