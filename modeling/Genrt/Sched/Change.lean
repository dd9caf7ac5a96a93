import Genrt.Sched.Boot

/-!
# What a kernel operation can do to threads

Every operation is a sequence of elementary changes: of one thread's wait, of its
exit code or its join results, of one slot's occupant, or of something that
concerns neither. An elementary change comes with the log entries that it makes,
so a property of whole runs that is stated over the log has one case per change,
whatever the operations are.

Some changes hold what they need only in states that satisfy the scheduler
invariant. They are asked for it when the mode is strict, and are
unconditional otherwise.
-/

namespace Genrt

open Effect Function Kernel

/-- What may happen: threads come and go or get join results, slots are published
at the initial generation, slots are added; and whether the conditions of the
scheduler invariant are asked for. -/
structure Mode where
  lifecycle : Bool
  booting : Bool
  growing : Bool
  strict : Bool

/-- What an operation on the wait of thread `id` leaves in the log, newest first. -/
inductive WaitStep (id : ThreadId) (w : WaitMetadata) : WaitMetadata → List Event → Prop where
  | prepare {cpu : CpuId} {consumption : WaitConsumption} (free : w.active = none)
      (fits : w.nextSequence + 1 < 2 ^ 64) :
      WaitStep id w
        ⟨w.nextSequence + 1, some ⟨⟨id, cpu, w.nextSequence + 1⟩, .prepared, consumption⟩⟩
        [.prepared ⟨id, cpu, w.nextSequence + 1⟩]
  | commit (prepared : PreparedWait) :
      WaitStep id w (w.commit prepared).2 [.committed prepared.token (w.commit prepared).1]
  | complete {token : WaitToken} {cause : WaitCause}
      (asleep : (w.complete token cause).1 ≠ .wokeBlocked) :
      WaitStep id w (w.complete token cause).2 [.completed token cause (w.complete token cause).1]
  | wake {token : WaitToken} {cause : WaitCause}
      (woke : (w.complete token cause).1 = .wokeBlocked) :
      WaitStep id w (w.complete token cause).2
        [.readied token, .completed token cause .wokeBlocked]
  | cancel (prepared : PreparedWait) :
      WaitStep id w (w.cancel prepared).2 [.cancelled prepared.token (w.cancel prepared).1]
  | finish (token : WaitToken) :
      WaitStep id w (w.finish token).2 [.finished token (w.finish token).1]

/-- An attempt on a wait whose thread is gone or not current. -/
def Event.Missed : Event → Prop
  | .completed _ _ result => result = .stale
  | .cancelled _ result => result = .stale
  | .finished _ result => result = .error .stale
  | _ => False

/-- The entries of wait operations. -/
def Event.ofWait : Event → Bool
  | .published _ | .exited _ _ _ | .released _ | .handed _ _ _ _ | .joined _ _ _ => false
  | _ => true

theorem Event.Missed.ofWait {event : Event} (missed : event.Missed) : event.ofWait = true := by
  cases event with
  | completed => rfl
  | cancelled => rfl
  | finished => rfl
  | _ => exact missed.elim

variable {id : ThreadId} {k k' : Kernel} {t : Thread} {index : Nat}

theorem WaitStep.ofWait {w w' : WaitMetadata} {events : List Event}
    (step : WaitStep id w w' events) : ∀ event ∈ events, event.ofWait = true := by
  cases step <;> simp [Event.ofWait]

/-- The parts of a thread that waits, exits and joins are about stay. -/
structure Edited (mode : Mode) (t t' : Thread) : Prop where
  wait : t'.wait = t.wait
  code : t'.exitCode = t.exitCode
  result : t'.lastJoinResult = t.lastJoinResult
  reaped : t'.reapedUser = t.reapedUser
  user : mode.strict = true → t.exitCode.isSome = true → t'.user = t.user

/-- The join results of a thread were consumed. -/
def Thread.Consumed (t : Thread) : Prop := t.lastJoinResult = none ∧ t.reapedUser = none

namespace Kernel

variable (k : Kernel)

def logAll (events : List Event) : Kernel := { k with history := events ++ k.history }

/-- The slot of a thread is released. -/
def reaped (id : ThreadId) (t : Thread) : Kernel := (k.released id t).log (.released id)

/-- The code and the resources of a thread go to its joiner. -/
def handedOver (id : ThreadId) (t : Thread) (joiner : ThreadId) (code : Nat) : Kernel :=
  (((k.reaped id t).modifyThread joiner.index fun j =>
    { j with lastJoinResult := some (.ok code), reapedUser := t.user }).log
      (.handed id joiner code t.user))

end Kernel

theorem Kernel.find_reaped (found : k.find id = some t) :
    (k.reaped id t).find = update k.find id none := find_released found

/-- Threads of other slots change independently of a release. -/
theorem Kernel.reaped_modifyThread {f : Thread → Thread} (apart : index ≠ id.index) :
    (k.modifyThread index f).reaped id t = (k.reaped id t).modifyThread index f := by
  have slots : ((k.scheduler.lifecycle.slots.modify index fun slot =>
      { slot with thread := slot.thread.map f }).modify id.index fun slot => { slot with
        nextWaitSequence := t.wait.nextSequence, stack := some t.stack, thread := none }) =
      (k.scheduler.lifecycle.slots.modify id.index fun slot => { slot with
        nextWaitSequence := t.wait.nextSequence, stack := some t.stack, thread := none }).modify
          index fun slot => { slot with thread := slot.thread.map f } := by
    refine List.ext_getElem? fun i => ?_
    simp only [List.getElem?_modify]
    by_cases first : id.index = i
    · subst first
      simp [apart]
    · simp [first]
  simp only [reaped, released, withFree, modifyThread, modifySlot, setSlots, setFreeSlots, log,
    slots]
  rfl

/-- The reserved sizes of the queues stay. -/
def SameSizes (k k' : Kernel) : Prop :=
  ∀ c, (k'.cpu c).readyQueue.capacity = (k.cpu c).readyQueue.capacity ∧
    (k'.scheduler.remoteReady c).capacity = (k.scheduler.remoteReady c).capacity

/-- One elementary change. -/
inductive Change (mode : Mode) (k : Kernel) : Kernel → Prop where
  | aside {k' : Kernel} (slots : k'.scheduler.lifecycle.slots = k.scheduler.lifecycle.slots)
      (history : k'.history = k.history) (sizes : SameSizes k k') : Change mode k k'
  | edit {id : ThreadId} {t : Thread} (f : Thread → Thread) (found : k.find id = some t)
      (edited : Edited mode t (f t)) : Change mode k (k.modifyThread id.index f)
  | wait {id : ThreadId} {t : Thread} {w : WaitMetadata} {events : List Event}
      (found : k.find id = some t) (step : WaitStep id t.wait w events) :
      Change mode k ((k.modifyThread id.index fun t => { t with wait := w }).logAll events)
  | missed {event : Event} (missed : event.Missed) : Change mode k (k.log event)
  | exit {id : ThreadId} {t : Thread} {code : Nat} (allowed : mode.lifecycle = true)
      (found : k.find id = some t)
      (alive : mode.strict = true → t.exitCode = none ∧ t.Consumed) :
      Change mode k ((k.modifyThread id.index fun t =>
        { t with exitCode := some code, state := .exited }).log (.exited id code t.user))
  | publish {index : Nat} {slot : ThreadSlot} {t : Thread} {generation : Nat}
      (allowed : mode.lifecycle = true) (present : k.scheduler.lifecycle.slots[index]? = some slot)
      (free : slot.thread = none) (wait : t.wait = .withNextSequence slot.nextWaitSequence)
      (code : t.exitCode = none) (consumed : t.Consumed)
      (next : generation = nextGeneration slot.generation ∨
        mode.booting = true ∧ generation = initialThreadGeneration) :
      Change mode k ((k.modifySlot index fun slot =>
        { slot with generation := generation, stack := none, thread := some t }).log
          (.published ⟨index, generation⟩))
  | reap {id : ThreadId} {t : Thread} (allowed : mode.lifecycle = true)
      (found : k.find id = some t) (free : t.wait.active = none)
      (exited : mode.strict = true → t.exitCode.isSome = true ∧ t.joinable = false) :
      Change mode k (k.reaped id t)
  | hand {id joiner : ThreadId} {t j : Thread} {code : Nat} (allowed : mode.lifecycle = true)
      (found : k.find id = some t) (waiting : k.find joiner = some j) (apart : id ≠ joiner)
      (free : t.wait.active = none)
      (exited : mode.strict = true → t.exitCode = some code ∧ j.exitCode = none ∧ j.Consumed) :
      Change mode k (k.handedOver id t joiner code)
  | refuse {id : ThreadId} {t : Thread} {error : JoinError} (allowed : mode.lifecycle = true)
      (found : k.find id = some t) (consumed : t.Consumed)
      (alive : mode.strict = true → t.exitCode = none) :
      Change mode k (k.modifyThread id.index fun t =>
        { t with lastJoinResult := some (.error error) })
  | take {id named : ThreadId} {t : Thread} {result : Except JoinError Nat}
      (allowed : mode.lifecycle = true) (found : k.find id = some t)
      (named_eq : mode.strict = true → named = id) (present : t.lastJoinResult = some result) :
      Change mode k ((k.modifyThread id.index fun t =>
        { t with lastJoinResult := none, reapedUser := none }).log
          (.joined named result t.reapedUser))
  | grow (allowed : mode.growing = true) (index : Nat) :
      Change mode k (k.setSlots (k.scheduler.lifecycle.slots ++ [.free index]))

/-- The slot was never published. -/
def Kernel.Fresh (k : Kernel) (index : Nat) : Prop :=
  ∀ slot, k.scheduler.lifecycle.slots[index]? = some slot → slot.generation = 0

/-- A sequence of elementary changes. -/
def Evolves (mode : Mode) : Kernel → Kernel → Prop := Relation.ReflTransGen (Change mode)

theorem SameSizes.refl (k : Kernel) : SameSizes k k := fun _ => ⟨rfl, rfl⟩

theorem SameSizes.setCpu {c : CpuId} {state : CpuSchedulerState}
    (same : state.readyQueue.capacity = (k.cpu c).readyQueue.capacity) :
    SameSizes k (k.setCpu c state) := by
  intro d
  refine ⟨?_, rfl⟩
  by_cases own : d = c
  · subst own
    rw [cpu_setCpu_self, same]
  · rw [cpu_setCpu_of_ne own]

theorem SameSizes.setRemote {c : CpuId} {queue : BoundedQueue ThreadId}
    (same : queue.capacity = (k.scheduler.remoteReady c).capacity) :
    SameSizes k (k.setRemote c queue) := by
  intro d
  refine ⟨rfl, ?_⟩
  change (update k.scheduler.remoteReady c queue d).capacity = _
  by_cases own : d = c
  · subst own
    rw [update_self, same]
  · rw [update_of_ne own]

/-- The occupant of a slot has an identity. -/
theorem Kernel.find_of_threadAt (found : k.threadAt index = some t) :
    ∃ id : ThreadId, id.index = index ∧ k.find id = some t := by
  obtain ⟨slot, present, occupant⟩ := Option.bind_eq_some_iff.mp found
  exact ⟨⟨index, slot.generation⟩, rfl, find_eq_some.mpr ⟨slot, present, rfl, occupant⟩⟩

namespace Evolves

variable {mode : Mode} {k k' : Kernel}

theorem refl (k : Kernel) : Evolves mode k k := Relation.ReflTransGen.refl

theorem trans (k k' k'' : Kernel) (first : Evolves mode k k') (second : Evolves mode k' k'') :
    Evolves mode k k'' := Relation.ReflTransGen.trans first second

theorem single (change : Change mode k k') : Evolves mode k k' :=
  Relation.ReflTransGen.single change

theorem aside (slots : k'.scheduler.lifecycle.slots = k.scheduler.lifecycle.slots)
    (history : k'.history = k.history) (sizes : SameSizes k k') : Evolves mode k k' :=
  single (.aside slots history sizes)

/-- A change of the thread in a slot, whatever its identity is. -/
theorem edit {index : Nat} {t : Thread} {f : Thread → Thread} (found : k.threadAt index = some t)
    (edited : Edited mode t (f t)) : Evolves mode k (k.modifyThread index f) := by
  obtain ⟨id, rfl, live⟩ := find_of_threadAt found
  exact single (.edit f live edited)

end Evolves

/-! ### An added slot -/

theorem Kernel.slots_appendFree {i : Nat} {slot : ThreadSlot}
    (present : (k.slots ++ [ThreadSlot.free index])[i]? = some slot) :
    k.slots[i]? = some slot ∨ k.slots[i]? = none ∧ slot = ThreadSlot.free index := by
  by_cases inside : i < k.slots.length
  · rw [List.getElem?_append_left inside] at present
    exact .inl present
  · rw [List.getElem?_append_right (Nat.not_lt.mp inside)] at present
    refine .inr ⟨List.getElem?_eq_none (Nat.not_lt.mp inside), ?_⟩
    exact (List.mem_singleton.mp (List.mem_of_getElem? present))

/-- No thread appears with a free slot. -/
theorem Kernel.find_appendFree : (k.setSlots (k.slots ++ [.free index])).find = k.find := by
  funext id
  have slots : (k.setSlots (k.slots ++ [.free index])).scheduler.lifecycle.slots =
    k.slots ++ [.free index] := rfl
  have old : k.scheduler.lifecycle.slots = k.slots := rfl
  rw [find, ThreadTable.get, find, ThreadTable.get, slots, old]
  cases present : (k.slots ++ [ThreadSlot.free index])[id.index]? with
  | none =>
    have beyond : k.slots[id.index]? = none := by
      rw [List.getElem?_eq_none_iff, List.length_append] at present
      exact List.getElem?_eq_none (by omega)
    rw [beyond]
  | some slot =>
    rcases slots_appendFree present with same | ⟨none, rfl⟩
    · rw [same]
    · rw [none]
      exact ite_self _

/-! ### Threads that are not touched by a lifecycle change -/

theorem Kernel.find_of_slots (slots : k'.scheduler.lifecycle.slots = k.scheduler.lifecycle.slots) :
    k'.find id = k.find id := by
  rw [find, ThreadTable.get, slots]
  rfl

/-- Without lifecycle changes every thread stays, with its code and results. -/
structure Survives (t t' : Thread) : Prop where
  code : t'.exitCode = t.exitCode
  result : t'.lastJoinResult = t.lastJoinResult
  reaped : t'.reapedUser = t.reapedUser
  user : t.exitCode.isSome = true → t'.user = t.user

theorem Survives.refl (t : Thread) : Survives t t := ⟨rfl, rfl, rfl, fun _ => rfl⟩

theorem Survives.trans {t' t'' : Thread} (first : Survives t t') (second : Survives t' t'') :
    Survives t t'' where
  code := second.code.trans first.code
  result := second.result.trans first.result
  reaped := second.reaped.trans first.reaped
  user exited := (second.user (by rwa [first.code])).trans (first.user exited)

/-- Waits and edits under the conditions of the scheduler invariant. -/
def Mode.still : Mode := ⟨false, false, false, true⟩

theorem Change.survives (change : Change .still k k') (found : k.find id = some t) :
    ∃ t', k'.find id = some t' ∧ Survives t t' := by
  cases change with
  | aside slots _ _ =>
    refine ⟨t, ?_, .refl t⟩
    rwa [find_of_slots slots]
  | @edit other u f live edited =>
    by_cases same : id = other
    · subst same
      obtain rfl := Option.mem_unique found live
      exact ⟨f t, find_modifyThread_self found, edited.code, edited.result, edited.reaped,
        edited.user rfl⟩
    · exact ⟨t, (find_modifyThread_other live same).trans found, .refl t⟩
  | @wait other u w events live step =>
    by_cases same : id = other
    · subst same
      obtain rfl := Option.mem_unique found live
      exact ⟨{ t with wait := w }, find_modifyThread_self found, rfl, rfl, rfl, fun _ => rfl⟩
    · exact ⟨t, (find_modifyThread_other live same).trans found, .refl t⟩
  | missed _ => exact ⟨t, found, .refl t⟩
  | exit allowed => cases allowed
  | publish allowed => cases allowed
  | reap allowed => cases allowed
  | hand allowed => cases allowed
  | refuse allowed => cases allowed
  | take allowed => cases allowed
  | grow allowed => cases allowed

theorem Evolves.survives (h : Evolves .still k k') (found : k.find id = some t) :
    ∃ t', k'.find id = some t' ∧ Survives t t' := by
  induction h with
  | refl => exact ⟨t, found, .refl t⟩
  | tail _ change ih =>
    obtain ⟨t', found', first⟩ := ih
    obtain ⟨t'', found'', second⟩ := change.survives found'
    exact ⟨t'', found'', first.trans second⟩

end Genrt
