import Genrt.Sched.Table

/-!
# The scheduler invariant

The kernel state is read as a state of the abstract dispatcher, whose
consistency ties current threads and queues to thread states. On top of it come
facts about one thread at a time, about threads that wait for others to exit,
about the table and its free list, and about each processor's flags.

The invariant holds whenever the scheduler lock is free, and also at the points
inside an entry where debug builds run the self-check.
-/

namespace Genrt

open Function

namespace Kernel

variable (k : Kernel)

/-- The kernel as a state of the abstract dispatcher. -/
def view : Dispatch.State ThreadId CpuId where
  thread id := (k.find id).map fun t => (t.homeCpu, t.state)
  current cpu := (k.cpu cpu).current
  idle cpu := (k.cpu cpu).idle
  retired cpu := (k.cpu cpu).retired
  queue cpu := k.ready cpu
  ingress cpu := k.remote cpu

/-- The wait that is registered to receive the outcome of a live thread. -/
def joinerOf (id : ThreadId) : Option WaitToken := (k.find id).bind Thread.joiner

def slots : List ThreadSlot := k.scheduler.lifecycle.slots

def freeSlots : List Nat := k.scheduler.lifecycle.freeSlots

end Kernel

/-- The wait, exit and ownership fields of a live thread agree with its state. -/
structure ThreadOk (id : ThreadId) (t : Thread) : Prop where
  blocked : t.state = .blocked ↔ t.wait.isBlocked = true
  prepared : t.wait.isPrepared = true → t.state = .running
  completed : t.wait.isCompleted = true → t.state = .ready ∨ t.state = .running
  exited : t.state = .exited → t.wait.active = none
  token : ∀ w, t.wait.active = some w → w.token = ⟨id, t.homeCpu, t.wait.nextSequence⟩
  code : t.exitCode.isSome = true ↔ t.state = .exited
  owner : ∀ u, t.user = some u → u.addressSpace.ownerCpu = t.homeCpu
  detached : t.joinable = false → t.user = none ∧ t.joiner = none

/-- The joiner waits for the outcome of the thread it registered with. -/
def Joining (t : Thread) (token : WaitToken) : Prop :=
  t.state = .blocked ∧ t.wait.active = some ⟨token, .blocked, .explicit⟩ ∧
    t.lastJoinResult = none ∧ t.reapedUser = none

/-- Every registered joiner waits, for one thread only, until that thread has
exited and its processor has left it. -/
structure JoinOk (k : Kernel) : Prop where
  joining : ∀ id token, k.joinerOf id = some token →
    ∃ j, k.find token.thread = some j ∧ Joining j token
  unique : ∀ id other token, k.joinerOf id = some token → k.joinerOf other = some token →
    id = other
  retired : ∀ id t, k.find id = some t → t.state = .exited → t.joiner ≠ none →
    (k.cpu t.homeCpu).retired = some id

/-- A slot owns its stack exactly while it is free, and the free list names the
free slots once each. -/
structure TableOk (k : Kernel) : Prop where
  stack : ∀ (i : Nat) slot, k.slots[i]? = some slot → (slot.thread = none ↔ slot.stack ≠ none)
  freeNodup : k.freeSlots.Nodup
  freeIff : ∀ i, i ∈ k.freeSlots ↔ ∃ slot, k.slots[i]? = some slot ∧ slot.thread = none
  bound : k.slots.length ≤ kernelThreadCapacity

structure CpuOk (k : Kernel) (cpu : CpuId) : Prop where
  initialized : (k.cpu cpu).initialized = true ↔ (k.cpu cpu).current ≠ none
  online : (k.cpu cpu).online = true → (k.cpu cpu).initialized = true
  notified : k.remote cpu ≠ [] ∨ (k.cpu cpu).retired ≠ none →
    k.scheduler.schedulerIpiPending cpu = true
  readyCapacity : k.slots.length ≤ (k.cpu cpu).readyQueue.capacity + 1
  remoteCapacity : k.slots.length ≤ (k.scheduler.remoteReady cpu).capacity + 1

/-- The part of the invariant about threads, queues and the table. -/
structure Core (k : Kernel) : Prop where
  dispatch : Dispatch.Consistent k.view
  thread : ∀ id t, k.find id = some t → ThreadOk id t
  housed : ∀ id t, k.find id = some t → (k.cpu t.homeCpu).idle ≠ none
  join : JoinOk k
  table : TableOk k

/-- The scheduler invariant. -/
structure Coherent (k : Kernel) : Prop extends Core k where
  cpu : ∀ cpu, CpuOk k cpu

/-! ### The view of each update -/

namespace Kernel

variable {k : Kernel} {c : CpuId} {id : ThreadId}

@[simp] theorem view_thread :
    k.view.thread id = (k.find id).map fun t => (t.homeCpu, t.state) := rfl

@[simp] theorem view_current : k.view.current c = (k.cpu c).current := rfl

@[simp] theorem view_idle : k.view.idle c = (k.cpu c).idle := rfl

@[simp] theorem view_retired : k.view.retired c = (k.cpu c).retired := rfl

@[simp] theorem view_queue : k.view.queue c = k.ready c := rfl

@[simp] theorem view_ingress : k.view.ingress c = k.remote c := rfl

variable {state : CpuSchedulerState} {d : CpuId} {f : Thread → Thread} {pending : Bool} {t : Thread}

@[simp] theorem cpu_setCpu_self : (k.setCpu c state).cpu c = state :=
  update_self ..

@[simp] theorem cpu_setCpu_of_ne (apart : d ≠ c) :
    (k.setCpu c state).cpu d = k.cpu d := update_of_ne apart ..

theorem cpu_setCpu : (k.setCpu c state).cpu d = if d = c then state else k.cpu d := update_apply ..

@[simp] theorem cpu_modifyThread {index : Nat} : (k.modifyThread index f).cpu d = k.cpu d := rfl

@[simp] theorem cpu_setPending : (k.setPending c pending).cpu d = k.cpu d := rfl

@[simp] theorem cpu_log {event : Event} : (k.log event).cpu d = k.cpu d := rfl

@[simp] theorem remote_setPending : (k.setPending c pending).remote d = k.remote d := rfl

theorem pending_setPending :
    (k.setPending c pending).scheduler.schedulerIpiPending d =
      if d = c then pending else k.scheduler.schedulerIpiPending d := update_apply ..

theorem view_setCpu :
    (k.setCpu c state).view =
      { k.view with
        current := update k.view.current c state.current
        idle := update k.view.idle c state.idle
        retired := update k.view.retired c state.retired
        queue := update k.view.queue c state.readyQueue.items } := by
  simp only [view, Dispatch.State.mk.injEq]
  refine ⟨rfl, ?_, ?_, ?_, ?_, rfl⟩ <;> funext d <;> by_cases same : d = c
  all_goals simp [ready, update_apply, same]

theorem view_setRemote {queue : BoundedQueue ThreadId} :
    (k.setRemote c queue).view =
      { k.view with ingress := update k.view.ingress c queue.items } := by
  simp only [view, Dispatch.State.mk.injEq]
  refine ⟨rfl, rfl, rfl, rfl, rfl, ?_⟩
  funext d
  simp only [remote, setRemote, update_apply]
  split <;> rfl

/-- Changing a live thread changes what its identity finds. -/
theorem find_modifyThread_eq (found : k.find id = some t) :
    (k.modifyThread id.index f).find = update k.find id (some (f t)) := by
  funext other
  by_cases same : other = id
  · rw [same, update_self, find_modifyThread_self found]
  · rw [update_of_ne same, find_modifyThread_other found same]

/-- The dispatcher sees the home and the state of a changed thread. -/
theorem view_modifyThread (found : k.find id = some t) :
    (k.modifyThread id.index f).view = k.view.setThread id (some ((f t).homeCpu, (f t).state)) := by
  simp only [view, Dispatch.State.setThread, Dispatch.State.mk.injEq]
  refine ⟨?_, rfl, rfl, rfl, rfl, rfl⟩
  funext other
  rw [find_modifyThread_eq found]
  by_cases same : other = id
  · rw [same, update_self, update_self, Option.map_some]
  · rw [update_of_ne same, update_of_ne same]

/-- Other fields of a thread are invisible to the dispatcher. -/
theorem view_modifyThread_of_same (found : k.find id = some t) (home : (f t).homeCpu = t.homeCpu)
    (state : (f t).state = t.state) : (k.modifyThread id.index f).view = k.view := by
  rw [view_modifyThread found, home, state, Dispatch.State.setThread]
  have same : k.view.thread id = some (t.homeCpu, t.state) := by
    rw [view_thread, found, Option.map_some]
  rw [← same, update_eq_self]

end Kernel

end Genrt
