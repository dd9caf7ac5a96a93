import Genrt.Sched.Transition
import Genrt.Sched.Within

/-!
# Specifications of the scheduler's building blocks

Each rule says what a block of the scheduler does to a state in which its guards
hold, as an equivalence or as an implication with the final state spelled out.
The transitions are put together from them.
-/

namespace Genrt

open Effect Kernel

/-- Faults that do not witness a broken kernel invariant. -/
abbrev Contract (panic : Panic) : Prop := panic.contract = true

namespace Kernel

variable {k : Kernel} {c : CpuId}

variable {state : CpuSchedulerState} {index : Nat} {f : Thread → Thread} {event : Event}

variable {state' : CpuSchedulerState}

@[simp] theorem setCpu_setCpu : (k.setCpu c state).setCpu c state' = k.setCpu c state' := by
  simp [setCpu]

@[simp] theorem modifyThread_setCpu :
    (k.setCpu c state).modifyThread index f = (k.modifyThread index f).setCpu c state := rfl

@[simp] theorem dispatched_setCpu {id : ThreadId} :
    (k.setCpu c state).dispatched c id state' = k.dispatched c id state' := by
  simp [dispatched]

@[simp] theorem modifyThread_log :
    (k.log event).modifyThread index f = (k.modifyThread index f).log event := rfl

@[simp] theorem setCpu_log : (k.log event).setCpu c state = (k.setCpu c state).log event := rfl

@[simp] theorem dispatched_log {id : ThreadId} :
    (k.log event).dispatched c id state = (k.dispatched c id state).log event := rfl

theorem threadAt_modifyThread {t : Thread} (found : k.threadAt index = some t) :
    (k.modifyThread index f).threadAt index = some (f t) := by
  simp only [threadAt, Option.bind_eq_some_iff] at found
  obtain ⟨slot, present, occupant⟩ := found
  simp [threadAt, modifyThread, modifySlot, setSlots, present, occupant]

@[simp] theorem setCpu_self : k.setCpu c (k.cpu c) = k := by
  simp [setCpu, cpu]

@[simp] theorem ready_setCpu_self : (k.setCpu c state).ready c = state.readyQueue.items := by
  rw [ready, cpu_setCpu_self]

end Kernel

namespace Selected

variable {k : Kernel} {c : CpuId} {id other : ThreadId} {t u : Thread}
  {rest : BoundedQueue ThreadId}

/-- The selection depends on the selected thread, the queue and the idle thread. -/
theorem congr {k' : Kernel} (h : Selected k c id t rest) (found : k'.find id = k.find id)
    (queue : (k'.cpu c).readyQueue = (k.cpu c).readyQueue)
    (idle : (k'.cpu c).idle = (k.cpu c).idle) : Selected k' c id t rest := by
  obtain ⟨live, state, home, choice, capacity, worker⟩ := h
  refine ⟨found.trans live, state, home, ?_, queue ▸ capacity, ?_⟩
  · rw [ready, queue, idle]
    exact choice
  · rw [ready, queue, idle]
    exact worker

theorem modifyThread (h : Selected k c id t rest) (found : k.find other = some u)
    (apart : id ≠ other) (f : Thread → Thread) :
    Selected (k.modifyThread other.index f) c id t rest :=
  h.congr (find_modifyThread_other found apart) rfl rfl

/-- With an empty queue nothing is taken from it. -/
theorem rest_eq (h : Selected k c id t rest) (empty : k.ready c = []) :
    rest = (k.cpu c).readyQueue := by
  have items : rest.items = (k.cpu c).readyQueue.items := by
    rcases h.choice with head | ⟨_, none, _⟩
    · rw [empty] at head
      cases head
    · exact none.trans empty.symm
  have capacity := h.capacity
  cases rest
  cases queue : (k.cpu c).readyQueue
  simp_all

end Selected

namespace Coherent

variable {k : Kernel} {c : CpuId} {id : ThreadId}

theorem idle_of_current (h : Coherent k) (running : (k.cpu c).current = some id) :
    ∃ idle, (k.cpu c).idle = some idle :=
  Option.ne_none_iff_exists'.mp (h.dispatch.started c id running)

/-- The head of a queue can be selected. -/
theorem selected_head (h : Coherent k) {rest : List ThreadId} (head : k.ready c = id :: rest) :
    ∃ t queue, Selected k c id t queue ∧ queue.items = rest ∧
      (k.cpu c).readyQueue.popFront = some (id, queue) := by
  have queued : id ∈ k.ready c ∨ id ∈ k.remote c := Or.inl (by simp [head])
  obtain ⟨t, found, home, state, worker⟩ := h.find_of_queued queued
  obtain ⟨queue, popped, items, capacity⟩ := BoundedQueue.popFront_of_cons head
  exact ⟨t, queue, ⟨found, state, home, Or.inl (by rw [items, head]), capacity, fun _ => worker⟩,
    items, popped⟩

/-- An idle thread that does not run can be selected when the queue is empty. -/
theorem selected_idle (h : Coherent k) (empty : k.ready c = []) (idle : (k.cpu c).idle = some id)
    (resting : (k.cpu c).current ≠ some id) : ∃ t, Selected k c id t (k.cpu c).readyQueue := by
  obtain ⟨t, found, home, state⟩ := h.find_idle idle
  refine ⟨t, found, ?_, home, Or.inr ⟨empty, empty, idle⟩, rfl, fun filled => absurd empty filled⟩
  refine state.resolve_right fun running => resting ?_
  exact (h.dispatch.current_iff c id).mpr (by simp [found, home, running])

/-- A processor whose current thread is not idle can always select another one. -/
theorem exists_selected (h : Coherent k) (housed : (k.cpu c).idle ≠ none)
    (resting : (k.cpu c).current ≠ (k.cpu c).idle) : ∃ next u rest, Selected k c next u rest := by
  cases queue : k.ready c with
  | cons next rest =>
    obtain ⟨u, rest, selected, _⟩ := h.selected_head queue
    exact ⟨next, u, rest, selected⟩
  | nil =>
    obtain ⟨idle, present⟩ := Option.ne_none_iff_exists'.mp housed
    obtain ⟨u, selected⟩ := h.selected_idle queue present (present ▸ resting)
    exact ⟨idle, u, _, selected⟩

end Coherent

section Rules

variable {E : Panic → Prop} {k : Kernel} {c : CpuId} {id : ThreadId} {t : Thread}
  {rest : BoundedQueue ThreadId}

variable {Q : Option ThreadId → Kernel → Prop}

@[simp] theorem wp_runningThread : WP E (runningThread c) Q k ↔ Q (k.cpu c).current k := Iff.rfl

@[simp] theorem wp_hasRunnablePeer {Q : Bool → Kernel → Prop} :
    WP E (hasRunnablePeer c) Q k ↔ Q (!(k.ready c).isEmpty) k := Iff.rfl

theorem wp_idleThread {idle : ThreadId} (present : (k.cpu c).idle = some idle)
    {Q : ThreadId → Kernel → Prop} : WP E (idleThread c) Q k ↔ Q idle k := by
  simp [idleThread, present]

theorem wp_readyPopFront_nil (empty : k.ready c = []) : WP E (readyPopFront c) Q k ↔ Q none k := by
  have none : (k.cpu c).readyQueue.popFront = none := BoundedQueue.popFront_eq_none.mpr empty
  simp [readyPopFront, none]

theorem wp_readyPopFront_cons (selected : Selected k c id t rest) (filled : k.ready c ≠ []) :
    WP E (readyPopFront c) Q k ↔ Q (some id) (k.setCpu c { k.cpu c with readyQueue := rest }) := by
  have head : k.ready c = id :: rest.items :=
    selected.choice.resolve_right fun none => filled none.1
  obtain ⟨queue, popped, items, capacity⟩ := BoundedQueue.popFront_of_cons head
  obtain rfl : queue = rest := by
    have same := capacity.trans selected.capacity.symm
    cases queue
    cases rest
    simp_all
  have fits : (k.setCpu c { k.cpu c with readyQueue := queue }).readyOn c id = true := by
    simp [readyOn, selected.found, selected.state, selected.home, selected.worker filled]
  simp [readyPopFront, popped, fits]

theorem wp_selectNext (selected : Selected k c id t rest) {Q : ThreadId → Kernel → Prop} :
    WP E (selectNext c) Q k ↔ Q id (k.setCpu c { k.cpu c with readyQueue := rest }) := by
  by_cases empty : k.ready c = []
  · have idle : (k.cpu c).idle = some id := by
      rcases selected.choice with head | ⟨_, _, idle⟩
      · rw [empty] at head
        cases head
      · exact idle
    rw [selectNext, wp_bind, wp_readyPopFront_nil empty, selected.rest_eq empty]
    change _ ↔ Q id (k.setCpu c (k.cpu c))
    rw [setCpu_self]
    simp [idleThread, idle]
  · rw [selectNext, wp_bind, wp_readyPopFront_cons selected empty]
    rfl

variable {Q : Unit → Kernel → Prop}

theorem wp_makeRunning (found : k.find id = some t) (ready : t.state = .ready)
    (home : t.homeCpu = c) : WP E (makeRunning c id) Q k ↔ Q () (k.dispatched c id (k.cpu c)) := by
  have slot := threadAt_of_find found
  simp [makeRunning, found, ready, wp_threadHomeCpu slot, home, wp_setState slot]
  rfl

theorem wp_assertCurrentRunning (running : (k.cpu c).current = some id) (found : k.find id = some t)
    (status : t.homeCpu = c ∧ t.state = .running) :
    WP E (assertCurrentRunning id) Q k ↔ Q () k := by
  simp [assertCurrentRunning, wp_thread (threadAt_of_find found), status.1, status.2, running,
    found]

/-- A live thread that is not queued enters a queue with room. -/
theorem wp_readyPushBack (found : k.find id = some t) (home : t.homeCpu = c)
    (worker : (k.cpu c).idle ≠ some id) (fresh : ∀ queued ∈ k.ready c, queued.index ≠ id.index)
    (room : (k.ready c).length < (k.cpu c).readyQueue.capacity)
    (post : ∀ queue : BoundedQueue ThreadId, queue.items = k.ready c ++ [id] →
      queue.capacity = (k.cpu c).readyQueue.capacity →
      Q () (k.setCpu c { k.cpu c with readyQueue := queue })) : WP E (readyPushBack c id) Q k := by
  obtain ⟨queue, pushed, items, capacity⟩ := BoundedQueue.pushBack_of_room room id
  have absent : ¬∃ queued ∈ (k.cpu c).readyQueue.items, queued.index = id.index := by
    rintro ⟨queued, member, same⟩
    exact fresh queued member same
  simp only [readyPushBack, wp_bind, wp_cpuState, wp_stopIf, worker, false_implies, true_and,
    not_false_eq_true, forall_const, wp_threadHomeCpu (threadAt_of_find found), home, ne_eq,
    not_true_eq_false, absent, wp_orStop, pushed, wp_modifyCpu, Option.some.injEq, forall_eq',
    reduceCtorEq, and_true]
  exact post queue items capacity

/-- An idle thread becomes ready without being queued. -/
theorem wp_makeReadyAndQueue_idle (found : k.find id = some t) (idle : (k.cpu c).idle = some id)
    {notify : Bool} : WP E (makeReadyAndQueue c id notify) Q k ↔
      Q () (k.modifyThread id.index fun t => { t with state := .ready }) := by
  simp [makeReadyAndQueue, found, wp_setState (threadAt_of_find found), idle]

/-- Any other thread becomes ready in the queue; the first one may be announced. -/
theorem wp_makeReadyAndQueue_worker (found : k.find id = some t) (home : t.homeCpu = c)
    (worker : (k.cpu c).idle ≠ some id) (fresh : ∀ queued ∈ k.ready c, queued.index ≠ id.index)
    (room : (k.ready c).length < (k.cpu c).readyQueue.capacity) {notify : Bool}
    (post : ∀ queue : BoundedQueue ThreadId, queue.items = k.ready c ++ [id] →
      queue.capacity = (k.cpu c).readyQueue.capacity →
      WP E (onlyIf (notify = true ∧ k.ready c = []) (noteRunnablePeerAvailable c)) Q
        ((k.modifyThread id.index fun t => { t with state := .ready }).setCpu c
          { k.cpu c with readyQueue := queue })) : WP E (makeReadyAndQueue c id notify) Q k := by
  have found' := find_modifyThread_self (f := fun t => { t with state := .ready }) found
  simp only [makeReadyAndQueue, wp_bind, wp_threadMatches, found, Option.isSome_some, wp_stopIf,
    reduceCtorEq, false_implies, not_false_eq_true, forall_const, true_and,
    wp_setState (threadAt_of_find found), wp_cpuState]
  refine wp_onlyIf.mpr ⟨fun _ => (wp_bind _).mpr ?_, fun same => absurd worker same⟩
  exact wp_readyPushBack found' home worker fresh room fun queue items capacity =>
    post queue items capacity

end Rules

end Genrt
