import Genrt.Sched.State

/-!
# Access to the kernel state

The primitive reads and writes of the scheduler. A thread is looked up either by
its slot, which fails only when the slot is free, or by its identity, which also
compares the generation. The lemmas say what each write changes, and every other
module reasons with them instead of the record updates.
-/

namespace Genrt

open Effect Function

/-- Look up a live thread by its generation-bearing identity. -/
def ThreadTable.get (table : ThreadTable) (id : ThreadId) : Option Thread :=
  match table.slots[id.index]? with
  | none => none
  | some slot => if slot.generation = id.generation then slot.thread else none

namespace Kernel

variable (k : Kernel)

/-- The live thread with this identity. -/
def find (id : ThreadId) : Option Thread := k.scheduler.lifecycle.get id

/-- The thread in a slot. -/
def threadAt (index : Nat) : Option Thread :=
  k.scheduler.lifecycle.slots[index]?.bind ThreadSlot.thread

def cpu (cpu : CpuId) : CpuSchedulerState := k.scheduler.cpus cpu

def ready (cpu : CpuId) : List ThreadId := (k.cpu cpu).readyQueue.items

def remote (cpu : CpuId) : List ThreadId := (k.scheduler.remoteReady cpu).items

def setCpu (cpu : CpuId) (state : CpuSchedulerState) : Kernel :=
  { k with scheduler :=
    { k.scheduler with cpus := update k.scheduler.cpus cpu state } }

def setRemote (cpu : CpuId) (queue : BoundedQueue ThreadId) : Kernel :=
  { k with scheduler :=
    { k.scheduler with remoteReady := update k.scheduler.remoteReady cpu queue } }

def setPending (cpu : CpuId) (pending : Bool) : Kernel :=
  { k with scheduler :=
    { k.scheduler with
      schedulerIpiPending := update k.scheduler.schedulerIpiPending cpu pending } }

def setSlots (slots : List ThreadSlot) : Kernel :=
  { k with scheduler :=
    { k.scheduler with lifecycle := { k.scheduler.lifecycle with slots := slots } } }

def setFreeSlots (freeSlots : List Nat) : Kernel :=
  { k with scheduler :=
    { k.scheduler with lifecycle := { k.scheduler.lifecycle with freeSlots := freeSlots } } }

def modifySlot (index : Nat) (f : ThreadSlot → ThreadSlot) : Kernel :=
  k.setSlots (k.scheduler.lifecycle.slots.modify index f)

/-- Change the thread in a slot, if there is one. -/
def modifyThread (index : Nat) (f : Thread → Thread) : Kernel :=
  k.modifySlot index fun slot => { slot with thread := slot.thread.map f }

def setPreemption (cpu : CpuId) (state : PreemptionState) : Kernel :=
  { k with preemption := update k.preemption cpu state }

def setUserSpace (cpu : CpuId) (space : CpuUserAddressSpace) : Kernel :=
  { k with userSpaces := update k.userSpaces cpu space }

def log (event : Event) : Kernel := { k with history := event :: k.history }

end Kernel

/-! ### Computations over the kernel -/

def cpuState (cpu : CpuId) : KernelM CpuSchedulerState := return (← get).cpu cpu

def modifyCpu (cpu : CpuId) (f : CpuSchedulerState → CpuSchedulerState) : KernelM Unit :=
  modify fun k => k.setCpu cpu (f (k.cpu cpu))

def thread (index : Nat) : KernelM Thread := do
  orStop ((← get).threadAt index) .freeSlot

def threadMut (index : Nat) (f : Thread → Thread) : KernelM Unit := do
  let _ ← thread index
  modify fun k => k.modifyThread index f

/-- Replace the wait metadata of a thread by the result of a wait operation. -/
def threadWait {α : Type} (index : Nat) (operation : WaitMetadata → α × WaitMetadata) :
    KernelM α := do
  let found ← thread index
  let (result, wait) := operation found.wait
  modify fun k => k.modifyThread index fun t => { t with wait := wait }
  pure result

def threadMatches (id : ThreadId) : KernelM Bool := return ((← get).find id).isSome

def threadHomeCpu (index : Nat) : KernelM CpuId := return (← thread index).homeCpu

def threadState (index : Nat) : KernelM ThreadState := return (← thread index).state

def threadAddressSpace (index : Nat) : KernelM (Option AddressSpaceId) :=
  return (← thread index).user.map UserThreadResources.addressSpace

def setState (index : Nat) (state : ThreadState) : KernelM Unit :=
  threadMut index fun t => { t with state := state }

def record (event : Event) : KernelM Unit := modify fun k => k.log event

/-- Run an operation of the time subsystem. -/
def onClocks {α : Type} (operation : TimeM α) : KernelM α := fun k =>
  match operation k.clocks with
  | .error panic => .error panic
  | .ok (value, clocks) => .ok (value, { k with clocks := clocks })

def nowCounter : KernelM Nat :=
  modifyGet fun k => (k.platform.counter k.counterReads,
    { k with counterReads := k.counterReads + 1 })

/-- Milliseconds to counter ticks, rounded up, at least one, saturating at `u64`. -/
def msToCounts (frequency ms : Nat) : Nat :=
  if ms = 0 then 0 else min (max ((ms * max frequency 1 + 999) / 1000) 1) (2 ^ 64 - 1)

def isRegistered (cpu : CpuId) : KernelM Bool :=
  return decide (cpu.val < (← get).registeredCount)

/-! ### What the primitives read and write -/

variable {event : Event}

section Rules

variable {E : Panic → Prop} {k : Kernel} {α : Type}

variable {cpu : CpuId}

@[simp] theorem wp_cpuState {Q : CpuSchedulerState → Kernel → Prop} :
    WP E (cpuState cpu) Q k ↔ Q (k.cpu cpu) k := Iff.rfl

variable {Q : Unit → Kernel → Prop} {index : Nat} {t : Thread}

@[simp] theorem wp_modifyCpu {f : CpuSchedulerState → CpuSchedulerState} :
    WP E (modifyCpu cpu f) Q k ↔ Q () (k.setCpu cpu (f (k.cpu cpu))) := Iff.rfl

@[simp] theorem wp_record : WP E (record event) Q k ↔ Q () (k.log event) := Iff.rfl

@[simp] theorem wp_threadMatches {id : ThreadId} {Q : Bool → Kernel → Prop} :
    WP E (threadMatches id) Q k ↔ Q (k.find id).isSome k := Iff.rfl

@[simp] theorem wp_isRegistered {Q : Bool → Kernel → Prop} :
    WP E (isRegistered cpu) Q k ↔ Q (decide (cpu.val < k.registeredCount)) k := Iff.rfl

@[simp] theorem wp_nowCounter {Q : Nat → Kernel → Prop} :
    WP E nowCounter Q k ↔
      Q (k.platform.counter k.counterReads) { k with counterReads := k.counterReads + 1 } :=
  Iff.rfl

section

variable (found : k.threadAt index = some t)

include found

theorem wp_thread {Q : Thread → Kernel → Prop} : WP E (thread index) Q k ↔ Q t k := by
  simp [thread, found]

theorem wp_threadMut {f : Thread → Thread} :
    WP E (threadMut index f) Q k ↔ Q () (k.modifyThread index f) := by
  simp [threadMut, wp_thread found]

theorem wp_threadWait {operation : WaitMetadata → α × WaitMetadata} {Q : α → Kernel → Prop} :
    WP E (threadWait index operation) Q k ↔
      Q (operation t.wait).1
        (k.modifyThread index fun t' => { t' with wait := (operation t.wait).2 }) := by
  simp [threadWait, wp_thread found]

theorem wp_threadHomeCpu {Q : CpuId → Kernel → Prop} :
    WP E (threadHomeCpu index) Q k ↔ Q t.homeCpu k := by
  simp [threadHomeCpu, wp_thread found]

theorem wp_threadState {Q : ThreadState → Kernel → Prop} :
    WP E (threadState index) Q k ↔ Q t.state k := by
  simp [threadState, wp_thread found]

theorem wp_threadAddressSpace {Q : Option AddressSpaceId → Kernel → Prop} :
    WP E (threadAddressSpace index) Q k ↔ Q (t.user.map UserThreadResources.addressSpace) k := by
  simp [threadAddressSpace, wp_thread found]

theorem wp_setState {state : ThreadState} :
    WP E (setState index state) Q k ↔
      Q () (k.modifyThread index fun t => { t with state := state }) :=
  wp_threadMut found

end

theorem wp_onClocks {operation : TimeM α} {Q : α → Kernel → Prop} :
    WP E (onClocks operation) Q k ↔
      WP E operation (fun value clocks => Q value { k with clocks := clocks }) k.clocks := by
  simp only [WP, onClocks]
  cases operation k.clocks with
  | error panic => rfl
  | ok outcome => rfl

end Rules

namespace Kernel

variable {k : Kernel} {id : ThreadId} {c d : CpuId} {index : Nat}

variable {t : Thread} {f : Thread → Thread}

theorem find_eq_some : k.find id = some t ↔
    ∃ slot, k.scheduler.lifecycle.slots[id.index]? = some slot ∧
      slot.generation = id.generation ∧ slot.thread = some t := by
  simp only [find, ThreadTable.get]
  cases k.scheduler.lifecycle.slots[id.index]? with
  | none => simp
  | some slot => simp

/-- A live identity names the thread in its slot. -/
theorem threadAt_of_find (found : k.find id = some t) : k.threadAt id.index = some t := by
  obtain ⟨slot, present, _, occupant⟩ := find_eq_some.mp found
  simp [threadAt, present, occupant]

variable {other : ThreadId}

/-- Two live identities of one slot are the same. -/
theorem find_unique {u : Thread} (found : k.find id = some t) (found' : k.find other = some u)
    (same : id.index = other.index) : id = other := by
  obtain ⟨slot, present, generation, _⟩ := find_eq_some.mp found
  obtain ⟨slot', present', generation', _⟩ := find_eq_some.mp found'
  rw [same, present'] at present
  obtain rfl := Option.some.inj present
  cases id
  cases other
  simp_all

/-- Threads in different states are different threads. -/
theorem ne_of_state {u : Thread} (found : k.find id = some t) (found' : k.find other = some u)
    (differ : t.state ≠ u.state) : id ≠ other := by
  rintro rfl
  exact differ (by rw [Option.mem_unique found found'])

@[simp] theorem find_setCpu {state : CpuSchedulerState} : (k.setCpu c state).find id = k.find id :=
  rfl

@[simp] theorem find_log : (k.log event).find id = k.find id := rfl

/-- Changing the thread in a slot changes what its identity finds. -/
theorem find_modifyThread :
    (k.modifyThread index f).find id =
      if id.index = index then (k.find id).map f else k.find id := by
  simp only [find, ThreadTable.get, modifyThread, modifySlot, setSlots, List.getElem?_modify]
  by_cases same : id.index = index
  · subst same
    cases k.scheduler.lifecycle.slots[id.index]? with
    | none => simp
    | some slot => by_cases live : slot.generation = id.generation <;> simp [live]
  · simp only [Ne.symm same, if_false, same]
    cases k.scheduler.lifecycle.slots[id.index]? <;> simp

theorem find_modifyThread_self (found : k.find id = some t) :
    (k.modifyThread id.index f).find id = some (f t) := by
  rw [find_modifyThread, if_pos rfl, found, Option.map_some]

theorem find_modifyThread_other (found : k.find id = some t) (apart : other ≠ id) :
    (k.modifyThread id.index f).find other = k.find other := by
  rw [find_modifyThread]
  split
  · next same =>
    cases present : k.find other with
    | none => rfl
    | some u => exact absurd (find_unique present found same) apart
  · rfl

end Kernel

end Genrt
