import Genrt.Sched.Validated

/-!
# Updates that keep the scheduler invariant

Each lemma takes the net effect of one transition on threads, queues and
processor state and shows that the invariant survives it. How the code arrives
at that effect is the business of the specifications that follow.

An effect is written with the updates of `Kernel`. The dispatcher's part of the
invariant is discharged by the abstract dispatcher, through the view.
-/

namespace Genrt

open Kernel Function Dispatch

variable {k k' : Kernel} {id next : ThreadId} {t u : Thread} {c d : CpuId} {f : Thread → Thread}
variable {state : CpuSchedulerState} {queue : BoundedQueue ThreadId}

/-- The invariant reads nothing outside the scheduler. -/
theorem Coherent.congr (h : Coherent k) (same : k'.scheduler = k.scheduler) : Coherent k' := by
  cases k
  cases k'
  cases same
  exact ⟨⟨h.dispatch, h.thread, h.housed, ⟨h.join.joining, h.join.unique, h.join.retired⟩,
    ⟨h.table.stack, h.table.freeNodup, h.table.freeIff, h.table.bound⟩⟩, fun cpu =>
      ⟨(h.cpu cpu).initialized, (h.cpu cpu).online, (h.cpu cpu).notified,
        (h.cpu cpu).readyCapacity, (h.cpu cpu).remoteCapacity⟩⟩

theorem Coherent.log (h : Coherent k) (event : Event) : Coherent (k.log event) :=
  h.congr rfl

theorem TableOk.congr (h : TableOk k) (same : k'.scheduler.lifecycle = k.scheduler.lifecycle) :
    TableOk k' := by
  obtain ⟨stack, nodup, iff, bound⟩ := h
  simp only [slots, freeSlots] at stack nodup iff bound
  constructor <;> simpa only [slots, freeSlots, same]

namespace Kernel

variable {k : Kernel} {c : CpuId} {id : ThreadId} {index : Nat}

variable {f : Thread → Thread}

theorem slots_modifyThread (i : Nat) :
    (k.modifyThread index f).slots[i]? = k.slots[i]?.map fun slot =>
      if index = i then { slot with thread := slot.thread.map f } else slot := by
  simp only [slots, modifyThread, modifySlot, setSlots, List.getElem?_modify]
  rfl

@[simp] theorem slots_length_modifyThread :
    (k.modifyThread index f).slots.length = k.slots.length := by
  simp [slots, modifyThread, modifySlot, setSlots]

@[simp] theorem modifyThread_modifyThread {g : Thread → Thread} :
    (k.modifyThread index f).modifyThread index g = k.modifyThread index (g ∘ f) := by
  simp only [modifyThread, modifySlot, setSlots]
  congr 3
  rw [List.modify_modify_eq]
  congr 1
  funext slot
  simp

end Kernel

theorem TableOk.modifyThread (h : TableOk k) (index : Nat) (f : Thread → Thread) :
    TableOk (k.modifyThread index f) := by
  refine ⟨?_, h.freeNodup, ?_, ?_⟩
  · intro i slot present
    rw [slots_modifyThread, Option.map_eq_some_iff] at present
    obtain ⟨old, present, rfl⟩ := present
    have := h.stack i old present
    split <;> simpa using this
  · intro i
    refine (h.freeIff i).trans ?_
    rw [slots_modifyThread]
    constructor
    · rintro ⟨slot, present, free⟩
      refine ⟨_, by rw [present, Option.map_some], ?_⟩
      split <;> simp [free]
    · rintro ⟨slot, present, free⟩
      obtain ⟨old, present', rfl⟩ := Option.map_eq_some_iff.mp present
      refine ⟨old, present', ?_⟩
      split at free <;> simpa using free
  · rw [slots_length_modifyThread]
    exact h.bound

/-! ### Handoffs -/

/-- What a processor runs next: the head of its queue, or idle when it is empty. -/
structure Selected (k : Kernel) (c : CpuId) (id : ThreadId) (t : Thread)
    (rest : BoundedQueue ThreadId) : Prop where
  found : k.find id = some t
  state : t.state = .ready
  home : t.homeCpu = c
  choice : k.ready c = id :: rest.items ∨
    k.ready c = [] ∧ rest.items = [] ∧ (k.cpu c).idle = some id
  capacity : rest.capacity = (k.cpu c).readyQueue.capacity
  worker : k.ready c ≠ [] → (k.cpu c).idle ≠ some id

namespace Kernel

/-- A thread starts on a processor and the rest of its state is replaced. -/
def dispatched (k : Kernel) (c : CpuId) (id : ThreadId) (state : CpuSchedulerState) : Kernel :=
  (k.modifyThread id.index fun t => { t with state := .running }).setCpu c
    { state with current := some id }

variable {k : Kernel} {c : CpuId} {id next : ThreadId} {t u : Thread}

@[simp] theorem update_view_idle : update k.view.idle c (k.cpu c).idle = k.view.idle :=
  update_eq_self c k.view.idle

@[simp] theorem update_view_retired : update k.view.retired c (k.cpu c).retired = k.view.retired :=
  update_eq_self c k.view.retired

@[simp] theorem update_view_current : update k.view.current c (k.cpu c).current = k.view.current :=
  update_eq_self c k.view.current

@[simp] theorem update_view_queue :
    update k.view.queue c (k.cpu c).readyQueue.items = k.view.queue :=
  update_eq_self c k.view.queue

theorem find_dispatched (found : k.find id = some t) {state : CpuSchedulerState} :
    (k.dispatched c id state).find = update k.find id (some { t with state := .running }) :=
  find_modifyThread_eq found

variable {state : CpuSchedulerState}

/-- One thread leaves a processor and another one starts. -/
theorem find_handoff (found : k.find id = some t) (live : k.find next = some u)
    (apart : next ≠ id) : ((k.modifyThread id.index f).dispatched c next state).find =
      update (update k.find id (some (f t))) next
        (some { u with state := .running }) := by
  have finds := find_modifyThread_eq (f := f) found
  have live' : (k.modifyThread id.index f).find next = some u := by
    rw [finds, update_of_ne apart, live]
  rw [find_dispatched live', finds]

theorem cpu_dispatched :
    (k.dispatched c id state).cpu d =
      if d = c then { state with current := some id } else k.cpu d :=
  update_apply ..

theorem view_dispatched (found : k.find id = some t) (home : t.homeCpu = c)
    (idle : state.idle = (k.cpu c).idle) : (k.dispatched c id state).view =
      (k.view.start c id state.readyQueue.items).retire c state.retired := by
  simp only [dispatched, view_setCpu, view_modifyThread found, State.setThread,
    State.start, State.retire, idle, home, update_view_idle]

end Kernel

theorem TableOk.dispatched (h : TableOk k) (c : CpuId) (id : ThreadId) (state : CpuSchedulerState) :
    TableOk (k.dispatched c id state) :=
  (h.modifyThread id.index _).congr rfl

/-- A ready thread may start. -/
theorem ThreadOk.start (ok : ThreadOk id t) (ready : t.state = .ready) :
    ThreadOk id { t with state := .running } := by
  obtain ⟨blocked, prepared, completed, exited, token, code, owner, detached⟩ := ok
  constructor <;> simp_all

/-- A running thread outside a wait call may be put back. -/
theorem ThreadOk.yield (ok : ThreadOk id t) (running : t.state = .running)
    (unprepared : t.wait.isPrepared = false) : ThreadOk id { t with state := .ready } := by
  obtain ⟨blocked, prepared, completed, exited, token, code, owner, detached⟩ := ok
  constructor <;> simp_all

/-- The part of the invariant that speaks of each live thread. -/
structure Tenants (k : Kernel) : Prop where
  thread : ∀ id t, k.find id = some t → ThreadOk id t
  housed : ∀ id t, k.find id = some t → (k.cpu t.homeCpu).idle ≠ none
  join : JoinOk k

theorem Core.tenants (h : Core k) : Tenants k := ⟨h.thread, h.housed, h.join⟩

/-- One identity gets, changes or loses its thread. No registered joiner is
touched, and a thread that a joiner waits for stays on its processor. -/
theorem Tenants.revise {entry : Option Thread} (h : Tenants k)
    (finds : k'.find = update k.find id entry)
    (idle : ∀ d, (k.cpu d).idle ≠ none → (k'.cpu d).idle ≠ none)
    (retired : ∀ d other, other ≠ id → (k.cpu d).retired = some other →
      (k'.cpu d).retired = some other)
    (ok : ∀ t, entry = some t → ThreadOk id t ∧ (k'.cpu t.homeCpu).idle ≠ none ∧
      (t.joiner = none ∨ t.joiner = k.joinerOf id ∧
        (t.state = .exited → (k'.cpu t.homeCpu).retired = some id)))
    (free : ∀ t, k.find id = some t → t.state = .blocked →
      ∀ other token, k.joinerOf other = some token → token.thread ≠ id) : Tenants k' := by
  obtain ⟨thread, housed, joining, unique, waits⟩ := h
  have joiners : ∀ other token, k'.joinerOf other = some token → k.joinerOf other = some token := by
    intro other token registered
    obtain ⟨t, live, named⟩ := Option.bind_eq_some_iff.mp registered
    rw [finds, update_apply] at live
    split at live
    · grind
    · exact Option.bind_eq_some_iff.mpr ⟨t, live, named⟩
  refine ⟨?_, ?_, ?_, fun one two token first second =>
    unique one two token (joiners one token first) (joiners two token second), ?_⟩
  · simp only [finds, update_apply]
    grind
  · simp only [finds, update_apply]
    grind
  · intro other token registered
    have before := joiners other token registered
    obtain ⟨j, live, waiting⟩ := joining other token before
    have apart : token.thread ≠ id := fun same =>
      free j (same ▸ live) waiting.1 other token before same
    exact ⟨j, by rw [finds, update_of_ne apart, live], waiting⟩
  · simp only [finds, update_apply]
    grind

theorem joinerOf_update {t' : Thread} (finds : k'.find = update k.find id (some t'))
    (found : k.find id = some t) (joiner : t'.joiner = t.joiner) : k'.joinerOf = k.joinerOf := by
  funext other
  simp only [joinerOf, finds]
  by_cases same : other = id
  · rw [same, update_self, found, Option.bind_some, Option.bind_some, joiner]
  · rw [update_of_ne same]

/-- A live thread changes, but not its home and joiner. -/
theorem Tenants.alter {v : Thread} (h : Tenants k) (found : k.find id = some t)
    (finds : k'.find = update k.find id (some v)) (home : v.homeCpu = t.homeCpu)
    (ok : ThreadOk id v) (joiner : v.joiner = t.joiner)
    (idle : ∀ d, (k'.cpu d).idle = (k.cpu d).idle)
    (retired : ∀ d other, (k.cpu d).retired = some other → (k'.cpu d).retired = some other)
    (awaited : v.state = .exited → t.state = .exited ∨ (k'.cpu t.homeCpu).retired = some id)
    (free : t.state = .blocked → ∀ other token, k.joinerOf other = some token → token.thread ≠ id) :
    Tenants k' := by
  have housed := h.housed id t found
  have before := h.join.retired id t found
  refine h.revise finds (fun d => (idle d).symm ▸ fun present => present)
    (fun d other _ => retired d other) ?_ ?_
  · rintro _ ⟨⟩
    refine ⟨ok, by rwa [home, idle], ?_⟩
    rw [joiner, joinerOf, found, home]
    grind
  · rw [found]
    rintro _ ⟨⟩
    exact free

section

variable (h : Core k) (running : (k.cpu c).current = some id) (found : k.find id = some t)

include h running found

/-- The current thread of a processor runs there. -/
theorem Core.current_status : t.homeCpu = c ∧ t.state = .running := by
  have := (h.dispatch.current_iff c id).mp running
  simpa [found] using this

/-- The running thread leaves and another one starts. What the dispatcher makes
of it is a separate obligation. -/
theorem Core.swap (home : (f t).homeCpu = c) (ok : ThreadOk id (f t))
    (joiner : (f t).joiner = t.joiner) (found' : k.find next = some u) (ready : u.state = .ready)
    (home' : u.homeCpu = c) (idle : state.idle = (k.cpu c).idle)
    (retired : state.retired = (k.cpu c).retired ∧ (f t).state ≠ .exited ∨
      state.retired = some id ∧ (k.cpu c).retired = none) (dispatch : Consistent
      (((k.view.leave c id (f t).state).start c next state.readyQueue.items).retire c
        state.retired)) : Core ((k.modifyThread id.index f).dispatched c next state) := by
  have status := h.current_status running found
  have apart := ne_of_state found' found (by simp [ready, status.2])
  have foundNext : (k.modifyThread id.index f).find next = some u := by
    rw [find_modifyThread_other found apart, found']
  -- The processor's own state changes with the first of the two threads.
  have left : Tenants ((k.modifyThread id.index f).setCpu c
      { state with current := some next }) := by
    refine h.tenants.alter found (find_modifyThread_eq found) (home.trans status.1.symm) ok joiner
      ?_ ?_ ?_ (by simp [status.2]) <;> simp only [cpu_setCpu, cpu_modifyThread] <;> grind
  obtain ⟨thread, housed, join⟩ : Tenants ((k.modifyThread id.index f).dispatched c next state) :=
    left.alter (v := { u with state := .running }) foundNext (find_dispatched foundNext) rfl
      ((h.thread next u found').start ready) rfl
      (fun _ => rfl) (fun _ _ same => same) (by simp) (by simp [ready])
  refine ⟨?_, thread, housed, join, (h.table.modifyThread _ f).dispatched c next _⟩
  rw [view_dispatched foundNext home' idle, view_modifyThread found, home]
  simpa only [State.leave, State.start, State.setThread,
    State.retire, update_idem] using dispatch

/-- The running thread blocks or exits and the selected thread starts. -/
theorem Core.handoff (home : (f t).homeCpu = c) (ok : ThreadOk id (f t))
    (joiner : (f t).joiner = t.joiner) (worker : (k.cpu c).idle ≠ some id)
    (selected : Selected k c next u state.readyQueue) (idle : state.idle = (k.cpu c).idle)
    (leaves : (f t).state = .blocked ∧ state.retired = (k.cpu c).retired ∨
      (f t).state = .exited ∧ state.retired = some id ∧ (k.cpu c).retired = none) :
    Core ((k.modifyThread id.index f).dispatched c next state) := by
  obtain ⟨found', ready, home', choice, _, _⟩ := selected
  refine h.swap running found home ok joiner found' ready home' idle ?_ ?_
  · rcases leaves with ⟨state, kept⟩ | ⟨_, retires⟩
    · exact Or.inl ⟨kept, by simp [state]⟩
    · exact Or.inr retires
  · have parks : (f t).state = .blocked ∨ (f t).state = .exited := leaves.imp And.left And.left
    refine (h.dispatch.handoff running parks worker choice).retire fun other retired => ?_
    have status := h.current_status running found
    have exited := h.dispatch.retired_ok c other
    simp only [view_retired, view_thread, Option.map_eq_some_iff] at exited
    simp only [State.leave, State.start, update_apply,
      view_thread]
    grind

/-- The running thread stays ready and the head of the queue starts. An idle
thread is not queued. -/
theorem Core.rotate {rest : List ThreadId} (unprepared : t.wait.isPrepared = false)
    (head : k.ready c = next :: rest) (idle : state.idle = (k.cpu c).idle)
    (retired : state.retired = (k.cpu c).retired)
    (queue : (k.cpu c).idle ≠ some id ∧ state.readyQueue.items = rest ++ [id] ∨
      (k.cpu c).idle = some id ∧ state.readyQueue.items = rest) :
    Core ((k.modifyThread id.index fun t => { t with state := .ready }).dispatched c next
      state) := by
  obtain ⟨home, state'⟩ := h.current_status running found
  obtain ⟨status, worker⟩ := (h.dispatch.queued_iff c next).mp (Or.inl (by simp [head]))
  simp only [view_thread, Option.map_eq_some_iff, Prod.mk.injEq] at status
  obtain ⟨u, found', home', ready⟩ := status
  have settle : ∀ s, Consistent s → s.retired = k.view.retired →
      Consistent (s.retire c state.retired) := by
    intro s consistent same
    have : state.retired = s.retired c := by rw [same, retired, view_retired]
    rwa [this, State.retire, update_eq_self]
  refine h.swap running found home ((h.thread id t found).yield state' unprepared) rfl found' ready
    home' idle (Or.inl ⟨retired, by simp⟩) ?_
  rcases queue with ⟨worker, queue⟩ | ⟨isIdle, queue⟩
  · have moved := settle _ (h.dispatch.rotate running worker head) rfl
    rw [queue]
    simpa only [State.leave, State.start, State.enqueue,
      State.retire, update_idem] using moved
  · have left := h.dispatch.leave running .ready (Or.inr (Or.inr ⟨rfl, isIdle⟩))
      fun other => absurd rfl other
    have moved := settle _
      (left.start_queued (update_self ..) head (h.dispatch.started c id running)) rfl
    rwa [queue]

end

/-! ### Room in the queues -/

/-- Live identities have distinct slots of the table. -/
theorem Kernel.length_le_slots {ids : List ThreadId} (distinct : ids.Nodup)
    (live : ∀ id ∈ ids, ∃ t, k.find id = some t) : ids.length ≤ k.slots.length := by
  have distinct' : (ids.map ThreadId.index).Nodup := by
    refine List.Nodup.map_on ?_ distinct
    intro a ha b hb same
    obtain ⟨t, found⟩ := live a ha
    obtain ⟨u, found'⟩ := live b hb
    exact find_unique found found' same
  have bound : ids.map ThreadId.index ⊆ List.range k.slots.length := by
    intro index member
    obtain ⟨id, listed, rfl⟩ := List.mem_map.mp member
    obtain ⟨t, found⟩ := live id listed
    obtain ⟨slot, present, _⟩ := find_eq_some.mp found
    exact List.mem_range.mpr (List.getElem?_eq_some_iff.mp present).1
  simpa using (List.subperm_of_subset distinct' bound).length_le

/-- A live thread outside a queue and the idle thread leave room in it. -/
theorem Core.room {queue : List ThreadId} (h : Core k) (found : k.find id = some t)
    (worker : (k.cpu c).idle ≠ some id) (housed : (k.cpu c).idle ≠ none) (outside : id ∉ queue)
    (distinct : queue.Nodup) (queued : ∀ other ∈ queue, other ∈ k.ready c ∨ other ∈ k.remote c) :
    queue.length + 2 ≤ k.slots.length := by
  obtain ⟨idle, present⟩ := Option.ne_none_iff_exists'.mp housed
  obtain ⟨v, live⟩ : ∃ v, k.find idle = some v := by
    have := h.dispatch.idle_ok c idle present
    simp only [view_thread, Option.map_eq_some_iff] at this
    rcases this with ⟨v, live, _⟩ | ⟨v, live, _⟩ <;> exact ⟨v, live⟩
  have ready := fun other member => (h.dispatch.queued_iff c other).mp (queued other member)
  change (id :: idle :: queue).length ≤ k.slots.length
  refine length_le_slots ?_ ?_
  · refine List.nodup_cons.mpr ⟨?_, List.nodup_cons.mpr ⟨?_, distinct⟩⟩
    · rw [List.mem_cons, not_or]
      exact ⟨fun same => worker (same ▸ present), outside⟩
    · exact fun member => (ready idle member).2 present
  · intro other member
    rcases List.mem_cons.mp member with rfl | member
    · exact ⟨t, found⟩
    rcases List.mem_cons.mp member with rfl | member
    · exact ⟨v, live⟩
    · have := (ready other member).1
      simp only [view_thread, Option.map_eq_some_iff] at this
      obtain ⟨w, live', _⟩ := this
      exact ⟨w, live'⟩

/-! ### Processor flags -/

/-- The flags of a processor are checked against what changed there. -/
theorem CpuOk.keep (h : CpuOk k d) (cpu : k'.cpu d = k.cpu d)
    (remote : (k'.scheduler.remoteReady d).capacity = (k.scheduler.remoteReady d).capacity)
    (notified : k'.remote d ≠ [] ∨ (k.cpu d).retired ≠ none →
      k'.scheduler.schedulerIpiPending d = true) (slots : k'.slots.length = k.slots.length) :
    CpuOk k' d := by
  obtain ⟨initialized, online, _, ready, ingress⟩ := h
  constructor <;> simp only [cpu, slots, remote]
  · exact initialized
  · exact online
  · exact notified
  · exact ready
  · exact ingress

/-- Only one processor's scheduling state was replaced. -/
theorem CpuOk.keep_local (h : ∀ d, CpuOk k d) (others : ∀ d, d ≠ c → k'.cpu d = k.cpu d)
    (remote : k'.scheduler.remoteReady = k.scheduler.remoteReady)
    (pending : k'.scheduler.schedulerIpiPending = k.scheduler.schedulerIpiPending)
    (slots : k'.slots.length = k.slots.length) (own : CpuOk k' c) (d : CpuId) : CpuOk k' d := by
  by_cases same : d = c
  · exact same ▸ own
  · refine (h d).keep (others d same) (by rw [remote]) ?_ slots
    rw [Kernel.remote, remote, pending]
    exact (h d).notified

theorem CpuOk.modifyThread (h : CpuOk k d) (index : Nat) (f : Thread → Thread) :
    CpuOk (k.modifyThread index f) d :=
  h.keep rfl rfl h.notified slots_length_modifyThread

theorem CpuOk.setPending (h : CpuOk k d) (c : CpuId) : CpuOk (k.setPending c true) d := by
  refine h.keep rfl rfl (fun work => ?_) rfl
  simp only [Kernel.setPending, update_apply]
  split
  · rfl
  · exact h.notified work

theorem Core.setPending (h : Core k) (c : CpuId) (pending : Bool) : Core (k.setPending c pending) :=
  ⟨h.dispatch, h.thread, h.housed, ⟨h.join.joining, h.join.unique, h.join.retired⟩,
    h.table.congr rfl⟩

/-- A processor's queue, idle or retired thread changes, but not what it runs. -/
theorem CpuOk.setCpu (h : ∀ d, CpuOk k d) (current : state.current = (k.cpu c).current)
    (initialized : state.initialized = (k.cpu c).initialized)
    (online : state.online = (k.cpu c).online)
    (retired : state.retired = (k.cpu c).retired ∨ state.retired = none)
    (capacity : state.readyQueue.capacity = (k.cpu c).readyQueue.capacity) (d : CpuId) :
    CpuOk (k.setCpu c state) d := by
  refine CpuOk.keep_local (c := c) h (fun d apart => cpu_setCpu_of_ne apart) (by rfl)
    (by rfl) (by rfl) ?_ d
  obtain ⟨flag, entered, notified, ready, ingress⟩ := h c
  refine ⟨?_, ?_, ?_, ?_, ingress⟩ <;> rw [cpu_setCpu_self]
  · rw [initialized, current]
    exact flag
  · rw [online, initialized]
    exact entered
  · rcases retired with same | none
    · rw [same]
      exact notified
    · rw [none]
      exact fun work => notified (Or.inl (work.resolve_right (· rfl)))
  · rw [capacity]
    exact ready

/-- An ingress changes and its processor is notified. -/
theorem CpuOk.setRemote (h : ∀ d, CpuOk k d)
    (capacity : queue.capacity = (k.scheduler.remoteReady c).capacity) (d : CpuId) :
    CpuOk ((k.setRemote c queue).setPending c true) d := by
  refine (h d).keep rfl ?_ ?_ rfl
  · simp only [Kernel.setPending, Kernel.setRemote, update_apply]
    split
    · next same => rw [same, capacity]
    · rfl
  · simp only [Kernel.setPending, Kernel.setRemote, update_apply, Kernel.remote]
    split
    · exact fun _ => rfl
    · exact (h d).notified

/-- A processor that starts a thread is initialized. -/
theorem CpuOk.dispatched (h : ∀ d, CpuOk k d) (initialized : state.initialized = true)
    (capacity : state.readyQueue.capacity = (k.cpu c).readyQueue.capacity)
    (notified : k.remote c ≠ [] ∨ state.retired ≠ none → k.scheduler.schedulerIpiPending c = true)
    (d : CpuId) : CpuOk (k.dispatched c id state) d := by
  have slots : (k.dispatched c id state).slots.length = k.slots.length :=
    slots_length_modifyThread
  refine CpuOk.keep_local (c := c) h (fun d apart => ?_) (by rfl) (by rfl) slots ?_ d
  · rw [cpu_dispatched, if_neg apart]
  · refine ⟨?_, ?_, ?_, ?_, ?_⟩ <;> simp only [cpu_dispatched, if_true, slots]
    · simpa using initialized
    · exact fun _ => initialized
    · exact notified
    · rw [capacity]
      exact (h c).readyCapacity
    · exact (h c).remoteCapacity

/-! ### Threads and queues -/

/-- A blocked thread of a processor, which no join waits with, becomes ready as `t'`. -/
structure Awakens (k : Kernel) (c : CpuId) (id : ThreadId) (t t' : Thread) : Prop where
  found : k.find id = some t
  blocked : t.state = .blocked
  here : t.homeCpu = c
  home : t'.homeCpu = t.homeCpu
  ready : t'.state = .ready
  ok : ThreadOk id t'
  joiner : t'.joiner = t.joiner
  free : ∀ other token, k.joinerOf other = some token → token.thread ≠ id

theorem Core.awaken (h : Core k) (woken : Awakens k c id t (f t))
    (finds : k'.find = update k.find id (some (f t))) (idle : ∀ d, (k'.cpu d).idle = (k.cpu d).idle)
    (retired : ∀ d, (k'.cpu d).retired = (k.cpu d).retired) (table : TableOk k')
    (dispatch : Consistent k'.view) : Core k' := by
  obtain ⟨found, blocked, _, home, ready, ok, joiner, free⟩ := woken
  obtain ⟨thread, housed, join⟩ := h.tenants.alter found finds home ok joiner idle
    (fun d _ same => (retired d).trans same) (by simp [ready]) (fun _ => free)
  exact ⟨dispatch, thread, housed, join, table⟩

namespace Coherent

variable {k : Kernel} {c : CpuId} {id next : ThreadId} {t u : Thread} {f : Thread → Thread}
  {state : CpuSchedulerState}

theorem initialized (h : Coherent k) (running : (k.cpu c).current = some id) :
    (k.cpu c).initialized = true := (h.cpu c).initialized.mpr (by simp [running])

section

variable (h : Coherent k) (running : (k.cpu c).current = some id) (found : k.find id = some t)
  (idle : state.idle = (k.cpu c).idle) (flag : state.initialized = (k.cpu c).initialized)

include h running found idle flag

/-- The running thread goes behind the head of the queue. -/
theorem rotate (unprepared : t.wait.isPrepared = false) {rest : List ThreadId}
    (head : k.ready c = next :: rest) (retired : state.retired = (k.cpu c).retired)
    (capacity : state.readyQueue.capacity = (k.cpu c).readyQueue.capacity)
    (queue : (k.cpu c).idle ≠ some id ∧ state.readyQueue.items = rest ++ [id] ∨
      (k.cpu c).idle = some id ∧ state.readyQueue.items = rest) :
    Coherent
      ((k.modifyThread id.index fun t => { t with state := .ready }).dispatched c next state) := by
  refine ⟨h.toCore.rotate running found unprepared head idle retired queue,
    CpuOk.dispatched (fun d => (h.cpu d).modifyThread _ _) ?_ capacity ?_⟩
  · rw [flag, h.initialized running]
  · rw [retired]
    exact (h.cpu c).notified

variable (home : (f t).homeCpu = c) (ok : ThreadOk id (f t)) (joiner : (f t).joiner = t.joiner)
  (worker : (k.cpu c).idle ≠ some id) (selected : Selected k c next u state.readyQueue)

include home ok joiner worker selected

/-- The running thread blocks. -/
theorem block (blocked : (f t).state = .blocked) (retired : state.retired = (k.cpu c).retired) :
    Coherent ((k.modifyThread id.index f).dispatched c next state) := by
  refine ⟨h.handoff running found home ok joiner worker selected idle (Or.inl ⟨blocked, retired⟩),
    CpuOk.dispatched (fun d => (h.cpu d).modifyThread _ _) ?_ selected.capacity ?_⟩
  · rw [flag, h.initialized running]
  · rw [retired]
    exact (h.cpu c).notified

/-- The running thread exits and its processor is told to finalize it. -/
theorem exit (exited : (f t).state = .exited) (retired : state.retired = some id)
    (vacant : (k.cpu c).retired = none) :
    Coherent (((k.modifyThread id.index f).dispatched c next state).setPending c true) := by
  refine ⟨(h.handoff running found home ok joiner worker selected idle
    (Or.inr ⟨exited, retired, vacant⟩)).setPending c true, ?_⟩
  refine CpuOk.dispatched (k := (k.modifyThread id.index f).setPending c true)
    (fun d => ((h.cpu d).modifyThread _ _).setPending c) ?_ selected.capacity fun _ => ?_
  · rw [flag, h.initialized running]
  · exact update_self ..

end

/-- A thread that is not blocked changes, but not its home, state or joiner. -/
theorem touch (h : Coherent k) (found : k.find id = some t) (home : (f t).homeCpu = t.homeCpu)
    (same : (f t).state = t.state) (ok : ThreadOk id (f t)) (joiner : (f t).joiner = t.joiner)
    (awake : t.state ≠ .blocked) : Coherent (k.modifyThread id.index f) := by
  obtain ⟨thread, housed, join⟩ := h.tenants.alter found (find_modifyThread_eq found) home ok joiner
    (fun _ => rfl) (fun _ _ same => same) (fun gone => Or.inl (same ▸ gone))
    (fun blocked => absurd blocked awake)
  refine ⟨⟨?_, thread, housed, join, h.table.modifyThread _ f⟩,
    fun d => (h.cpu d).modifyThread _ _⟩
  rw [view_modifyThread_of_same found home same]
  exact h.dispatch

/-- A blocked thread becomes ready in the queue of its own processor. -/
theorem wake (h : Coherent k) (woken : Awakens k c id t (f t))
    {queue : BoundedQueue ThreadId} (items : queue.items = k.ready c ++ [id])
    (capacity : queue.capacity = (k.cpu c).readyQueue.capacity)
    (shape : state = { k.cpu c with readyQueue := queue }) :
    Coherent ((k.modifyThread id.index f).setCpu c state) := by
  subst shape
  refine ⟨h.awaken woken (find_modifyThread_eq woken.found) ?_ ?_
    ((h.table.modifyThread _ f).congr rfl) ?_,
    CpuOk.setCpu (fun d => (h.cpu d).modifyThread _ _) rfl rfl rfl (Or.inl rfl) capacity⟩
  · simp only [cpu_setCpu, cpu_modifyThread]
    grind
  · simp only [cpu_setCpu, cpu_modifyThread]
    grind
  · have moved := h.dispatch.enqueue (c := c) (t := id)
      (Or.inr ⟨c, by simp [woken.found, woken.here, woken.blocked]⟩)
    simp only [view_setCpu, view_modifyThread woken.found, woken.home, woken.here,
      woken.ready, items]
    simpa [State.setThread, State.enqueue] using moved

/-- A blocked thread becomes ready in the ingress of its home processor. -/
theorem post (h : Coherent k) (woken : Awakens k c id t (f t))
    (items : queue.items = k.remote c ++ [id])
    (capacity : queue.capacity = (k.scheduler.remoteReady c).capacity) :
    Coherent (((k.modifyThread id.index f).setRemote c queue).setPending c true) := by
  have core : Core ((k.modifyThread id.index f).setRemote c queue) := by
    refine h.awaken woken (find_modifyThread_eq woken.found) (fun _ => rfl) (fun _ => rfl)
      ((h.table.modifyThread _ f).congr rfl) ?_
    have moved := h.dispatch.post (c := c) (t := id)
      (Or.inr ⟨c, by simp [woken.found, woken.here, woken.blocked]⟩)
    simp only [view_setRemote, view_modifyThread woken.found, woken.home, woken.here,
      woken.ready, items]
    simpa [State.setThread, State.post] using moved
  exact ⟨core.setPending c true, CpuOk.setRemote (fun d => (h.cpu d).modifyThread _ _) capacity⟩

/-- A retired thread is taken off its processor together with its joiner. -/
theorem unretire (h : Coherent k) (retired : (k.cpu c).retired = some id)
    (found : k.find id = some t) (shape : state = { k.cpu c with retired := none }) :
    Coherent ((k.setCpu c state).modifyThread id.index fun t => { t with joiner := none }) := by
  subst shape
  have flags : ∀ d, CpuOk (k.setCpu c { k.cpu c with retired := none }) d :=
    CpuOk.setCpu h.cpu rfl rfl rfl (Or.inr rfl) rfl
  have found' : (k.setCpu c { k.cpu c with retired := none }).find id = some t := found
  have exited : t.homeCpu = c ∧ t.state = .exited := by
    have := h.dispatch.retired_ok c id retired
    simpa [found] using this
  obtain ⟨thread, housed, join⟩ :
      Tenants ((k.setCpu c { k.cpu c with retired := none }).modifyThread id.index fun t =>
        { t with joiner := none }) := by
    refine h.tenants.revise (find_modifyThread_eq found') ?_ ?_ ?_ ?_
    · simp only [cpu_modifyThread, cpu_setCpu]
      grind
    · simp only [cpu_modifyThread, cpu_setCpu]
      grind
    · rintro _ ⟨⟩
      have housed := h.housed id t found
      obtain ⟨blocked, prepared, completed, gone, token, code, owner, detached⟩ :=
        h.thread id t found
      refine ⟨⟨blocked, prepared, completed, gone, token, code, owner, fun off =>
        ⟨(detached off).1, rfl⟩⟩, ?_, Or.inl rfl⟩
      simp only [cpu_modifyThread, cpu_setCpu]
      grind
    · rw [found]
      rintro _ ⟨⟩
      simp [exited.2]
  refine ⟨⟨?_, thread, housed, join, (h.table.modifyThread id.index _).congr rfl⟩,
    fun d => (flags d).modifyThread _ _⟩
  rw [view_modifyThread_of_same found' rfl rfl, view_setCpu]
  have moved : Consistent (k.view.retire c none) :=
    h.dispatch.retire (fun _ none => nomatch none)
  simpa [State.retire] using moved

/-- The head of a notified ingress moves behind the local queue. -/
theorem receive (h : Coherent k) {ready : BoundedQueue ThreadId}
    (notified : k.scheduler.schedulerIpiPending c = true) (head : k.remote c = id :: queue.items)
    (capacity : queue.capacity = (k.scheduler.remoteReady c).capacity)
    (items : ready.items = k.ready c ++ [id])
    (room : ready.capacity = (k.cpu c).readyQueue.capacity)
    (shape : state = { k.cpu c with readyQueue := ready }) :
    Coherent ((k.setRemote c queue).setCpu c state) := by
  subst shape
  refine ⟨⟨?_, h.thread, ?_, ⟨h.join.joining, h.join.unique, ?_⟩, h.table.congr rfl⟩,
    CpuOk.setCpu (fun d => (h.cpu d).keep rfl ?_ ?_ rfl) rfl rfl rfl (Or.inl rfl) room⟩
  · have moved := h.dispatch.receive head
    simp only [view_setCpu, view_setRemote, items]
    simpa [State.receive] using moved
  · intro other t live
    have housed := h.housed other t live
    rw [cpu_setCpu]
    split
    · next same => exact same ▸ housed
    · exact housed
  · intro other t live exited joined
    have before := h.join.retired other t live exited joined
    rw [cpu_setCpu]
    split
    · next same => exact same ▸ before
    · exact before
  · simp only [setRemote, update_apply]
    split
    · next same => rw [same, capacity]
    · rfl
  · simp only [setRemote, remote, update_apply]
    split
    · next same => exact fun _ => same ▸ notified
    · exact (h.cpu d).notified

/-- A processor with nothing left to do for others needs no notification. -/
theorem acknowledge (h : Coherent (k.setPending c true)) (drained : k.remote c = [])
    (finalized : (k.cpu c).retired = none) : Coherent k := by
  refine ⟨⟨h.dispatch, h.thread, h.housed, ⟨h.join.joining, h.join.unique, h.join.retired⟩,
    h.table.congr rfl⟩, fun d => ?_⟩
  refine (h.cpu d).keep rfl rfl (fun work => ?_) rfl
  by_cases same : d = c
  · subst same
    exact absurd work (by simp [drained, finalized])
  · have := (h.cpu d).notified work
    rwa [pending_setPending, if_neg same] at this

/-- A processor without a current thread starts its first one. -/
theorem start (h : Coherent k) (vacant : (k.cpu c).current = none)
    (selected : Selected k c next u state.readyQueue) (idle : state.idle = (k.cpu c).idle)
    (retired : state.retired = (k.cpu c).retired) (flag : state.initialized = true) :
    Coherent (k.dispatched c next state) := by
  obtain ⟨found, ready, home, choice, capacity, _⟩ := selected
  obtain ⟨thread, housed, join⟩ : Tenants (k.dispatched c next state) := by
    refine h.tenants.alter (v := { u with state := .running }) found (find_dispatched found) rfl
      ((h.thread next u found).start ready) rfl ?_ ?_ (by simp) (by simp [ready]) <;>
      simp only [cpu_dispatched] <;> grind
  refine ⟨⟨?_, thread, housed, join, h.table.dispatched c next state⟩,
    CpuOk.dispatched h.cpu flag capacity (by rw [retired]; exact (h.cpu c).notified)⟩
  have started : Consistent (k.view.start c next state.readyQueue.items) := by
    rcases choice with head | ⟨empty, rest, isIdle⟩
    · exact h.dispatch.start_queued vacant head (home ▸ h.housed next u found)
    · have := h.dispatch.start_idle vacant isIdle
      rwa [rest, ← empty]
  rw [view_dispatched found home idle, State.retire, retired]
  simpa [State.start] using started

/-- A blocked thread registers to receive the outcome of another one. -/
theorem register (h : Coherent k) {j : Thread} {token : WaitToken} (found : k.find id = some t)
    (joinable : t.joinable = true) (fresh : ∀ other, k.joinerOf other ≠ some token)
    (live : k.find token.thread = some j) (joining : Joining j token)
    (retired : t.state = .exited → (k.cpu t.homeCpu).retired = some id) :
    Coherent (k.modifyThread id.index fun t => { t with joiner := some token }) := by
  have finds := find_modifyThread_eq (f := fun t => { t with joiner := some token }) found
  have joiners : ∀ other token',
      (k.modifyThread id.index fun t => { t with joiner := some token }).joinerOf other =
        some token' → k.joinerOf other = some token' ∨ other = id ∧ token' = token := by
    intro other token'
    simp only [joinerOf, finds, update_apply]
    grind
  refine ⟨⟨?_, ?_, ?_, ⟨?_, ?_, ?_⟩, h.table.modifyThread _ _⟩, fun d => (h.cpu d).modifyThread _ _⟩
  · rw [view_modifyThread_of_same found rfl rfl]
    exact h.dispatch
  · obtain ⟨blocked, prepared, completed, gone, named, code, owner, detached⟩ :=
      h.thread id t found
    have ok : ThreadOk id { t with joiner := some token } :=
      ⟨blocked, prepared, completed, gone, named, code, owner, by simp [joinable]⟩
    have thread := h.thread
    simp only [finds, update_apply]
    grind
  · have housed := h.housed
    simp only [finds, cpu_modifyThread, update_apply]
    grind
  · intro other token' registered
    have waiting : ∃ j, k.find token'.thread = some j ∧ Joining j token' := by
      rcases joiners other token' registered with before | ⟨_, rfl⟩
      · exact h.join.joining other token' before
      · exact ⟨j, live, joining⟩
    obtain ⟨j', live', joining'⟩ := waiting
    simp only [finds, update_apply]
    split
    · next same =>
      rw [same, found] at live'
      cases live'
      exact ⟨_, rfl, joining'⟩
    · exact ⟨j', live', joining'⟩
  · intro one two token' first second
    have unique := h.join.unique one two token'
    rcases joiners one token' first with before | ⟨rfl, rfl⟩ <;>
      rcases joiners two token' second with before' | ⟨rfl, same⟩
    · exact unique before before'
    · exact absurd (same ▸ before) (fresh one)
    · exact absurd before' (fresh two)
    · rfl
  · have before := h.join.retired
    simp only [finds, cpu_modifyThread, update_apply]
    grind

end Coherent

end Genrt
