import Genrt.Sched.Select

/-!
# Deadline queues and the scheduler

Every queued wait deadline belongs to a registration that it may still end, and
every processor has at most one quantum event. Since a thread has one
registration at a time, a queue never holds more than one event per thread and
one more, far below its reservation: scheduling always finds room.

A processor that executes threads has the quantum event of its current thread
exactly while another thread waits in its queue.
-/

namespace Genrt

open Effect Kernel TimeState Function

/-- The queue of processor `c` and what its events refer to. -/
structure QueueOk (k : Kernel) (c : CpuId) (queue : DeadlineQueue) : Prop where
  wellFormed : queue.WellFormed
  capacity : queue.capacity = kernelThreadCapacity * timedEventCapacityPerThread
  wait : ∀ owner token, .waitDeadline owner token ∈ queue.events →
    owner = c ∧ token.cpu = c ∧ k.Pending token
  quantum : ∀ owner id, .quantumExpired owner id ∈ queue.events → owner = c
  single : ∀ id other, .quantumExpired c id ∈ queue.events →
    .quantumExpired c other ∈ queue.events → id = other

/-- All deadline queues are in order. -/
def TimeOk (k : Kernel) : Prop :=
  ∀ c state, k.clocks.states c = some state → QueueOk k c state.queue

/-- Quantum events name the current thread of a processor with waiting peers. -/
def QuantumSound (k : Kernel) (c : CpuId) : Prop :=
  ∀ id, .quantumExpired c id ∈ k.events c → (k.cpu c).current = some id ∧ k.ready c ≠ []

/-- The quantum event exists exactly when it is needed. -/
def QuantumExact (k : Kernel) (c : CpuId) : Prop :=
  ∀ id, .quantumExpired c id ∈ k.events c ↔
    (k.cpu c).online = true ∧ (k.cpu c).current = some id ∧ k.ready c ≠ []

namespace QueueOk

variable {k : Kernel} {c : CpuId} {queue : DeadlineQueue}

/-- The threads whose waits have a deadline in the queue. -/
def waiters (queue : DeadlineQueue) : List ThreadId :=
  queue.events.filterMap fun
    | .waitDeadline _ token => some token.thread
    | .quantumExpired _ _ => none

/-- The threads that have a quantum event in the queue. -/
def quanta (queue : DeadlineQueue) : List ThreadId :=
  queue.events.filterMap fun
    | .waitDeadline _ _ => none
    | .quantumExpired _ id => some id

theorem length_eq (queue : DeadlineQueue) :
    queue.entries.length = (waiters queue).length + (quanta queue).length := by
  have count : ∀ events : List TimedEvent, events.length =
      (events.filterMap fun
        | .waitDeadline _ token => some token.thread
        | .quantumExpired _ _ => none).length +
      (events.filterMap fun
        | .waitDeadline _ _ => none
        | .quantumExpired _ id => some id).length := by
    intro events
    induction events with
    | nil => rfl
    | cons event rest ih =>
      cases event with
      | waitDeadline owner token => simp [ih]; omega
      | quantumExpired owner id => simp [ih]; omega
  rw [waiters, quanta, ← count, DeadlineQueue.events, List.length_map]

section

variable (h : QueueOk k c queue)

include h

/-- Two deadlines of one thread are the same event. -/
theorem waiters_nodup : (waiters queue).Nodup := by
  refine List.pairwise_filterMap.mpr (List.Pairwise.imp_of_mem ?_ h.wellFormed.distinct)
  intro event event' member member' apart id first id' second same
  cases event with
  | quantumExpired owner id => cases first
  | waitDeadline owner token =>
    cases event' with
    | quantumExpired owner id => cases second
    | waitDeadline owner' token' =>
      cases first
      cases second
      obtain ⟨rfl, _, ⟨w, active, _⟩, _⟩ := h.wait owner token member
      obtain ⟨rfl, _, ⟨w', active', _⟩, _⟩ := h.wait owner' token' member'
      obtain ⟨t, found, stored, rfl⟩ := registration_eq_some.mp active
      obtain ⟨t', found', stored', rfl⟩ := registration_eq_some.mp active'
      rw [same, found'] at found
      obtain rfl := Option.some.inj found
      rw [stored'] at stored
      obtain rfl := Option.some.inj stored
      exact apart rfl

theorem waiters_live : ∀ id ∈ waiters queue, ∃ t, k.find id = some t := by
  intro id member
  obtain ⟨event, queued, named⟩ := List.mem_filterMap.mp member
  cases event with
  | quantumExpired owner id => cases named
  | waitDeadline owner token =>
    cases named
    obtain ⟨_, _, ⟨w, active, _⟩, _⟩ := h.wait owner token queued
    obtain ⟨t, found, _⟩ := registration_eq_some.mp active
    exact ⟨t, found⟩

theorem quanta_length : (quanta queue).length ≤ 1 := by
  have owned : ∀ id ∈ quanta queue, .quantumExpired c id ∈ queue.events := by
    intro id member
    obtain ⟨event, queued, named⟩ := List.mem_filterMap.mp member
    cases event with
    | waitDeadline owner token => cases named
    | quantumExpired owner id =>
      cases named
      obtain rfl := h.quantum owner id queued
      exact queued
  have distinct : (quanta queue).Nodup := by
    refine List.pairwise_filterMap.mpr (List.Pairwise.imp_of_mem ?_ h.wellFormed.distinct)
    intro event event' member member' apart id first id' second same
    cases event with
    | waitDeadline owner token => cases first
    | quantumExpired owner id =>
      cases event' with
      | waitDeadline owner token => cases second
      | quantumExpired owner' id' =>
        cases first
        cases second
        obtain rfl := h.quantum owner _ member
        obtain rfl := h.quantum owner' _ member'
        exact apart (by rw [same])
  cases shape : quanta queue with
  | nil => exact Nat.zero_le 1
  | cons first rest =>
    cases rest with
    | nil => exact Nat.le_refl 1
    | cons second rest =>
      rw [shape] at distinct owned
      have same := h.single first second (owned first (by simp)) (owned second (by simp))
      subst same
      exact absurd distinct (by simp)

/-- At most one event per live thread, and one quantum event. -/
theorem length_le : queue.entries.length ≤ k.slots.length + 1 := by
  rw [length_eq]
  exact Nat.add_le_add (length_le_slots h.waiters_nodup h.waiters_live) h.quanta_length

/-- A queue always has room for another event. -/
theorem room (table : TableOk k) : queue.entries.length ≠ queue.capacity := by
  have length := h.length_le
  have bound := table.bound
  rw [h.capacity]
  simp only [kernelThreadCapacity, timedEventCapacityPerThread] at bound ⊢
  omega

end

end QueueOk

/-- Only the clock of processor `c` changed; `queued` tells what its queue holds
now. -/
structure Reclocked (c : CpuId) (queued : TimedEvent → Prop) (k k' : Kernel) : Prop where
  scheduler : k'.scheduler = k.scheduler
  sent : k'.ipisSent = k.ipisSent
  others : ∀ d, d ≠ c → k'.clocks.states d = k.clocks.states d
  events : ∀ event, event ∈ k'.events c ↔ queued event
  queue : ∀ state, k'.clocks.states c = some state → state.queue.WellFormed ∧
    state.queue.capacity = kernelThreadCapacity * timedEventCapacityPerThread

namespace Reclocked

variable {c : CpuId} {queued : TimedEvent → Prop} {k k' : Kernel}

section

variable (h : Reclocked c queued k k')

include h

theorem cpu (d : CpuId) : k'.cpu d = k.cpu d := by
  rw [Kernel.cpu, h.scheduler, Kernel.cpu]

theorem ready (d : CpuId) : k'.ready d = k.ready d := by
  rw [Kernel.ready, h.cpu, Kernel.ready]

theorem coherent (before : Coherent k) : Coherent k' :=
  before.congr h.scheduler

/-- The queues stay in order when the new events are. -/
theorem time (before : TimeOk k) (wait : ∀ owner token, queued (.waitDeadline owner token) →
      owner = c ∧ token.cpu = c ∧ k.Pending token)
    (quantum : ∀ owner id, queued (.quantumExpired owner id) → owner = c)
    (single : ∀ id other, queued (.quantumExpired c id) → queued (.quantumExpired c other) →
      id = other) : TimeOk k' := by
  intro d state present
  by_cases same : d = c
  · subst same
    have events := h.events
    rw [events_of_some present] at events
    refine ⟨(h.queue state present).1, (h.queue state present).2, ?_, ?_, ?_⟩
    · intro owner token member
      obtain ⟨own, home, pending⟩ := wait owner token ((events _).mp member)
      exact ⟨own, home, pending.congr h.scheduler⟩
    · exact fun owner id member => quantum owner id ((events _).mp member)
    · exact fun id other first second => single id other ((events _).mp first)
        ((events _).mp second)
  · rw [h.others d same] at present
    obtain ⟨wf, capacity, wait, quantum, single⟩ := before d state present
    refine ⟨wf, capacity, fun owner token member => ?_, quantum, single⟩
    obtain ⟨own, home, pending⟩ := wait owner token member
    exact ⟨own, home, pending.congr h.scheduler⟩

end

end Reclocked

/-- The transfer buffers are untouched as well. -/
structure Retimed (c : CpuId) (queued : TimedEvent → Prop) (k k' : Kernel) : Prop
    extends Reclocked c queued k k' where
  buffers : ∀ d, (k'.clocks.states d).map TimeState.expired =
    (k.clocks.states d).map TimeState.expired

namespace Retimed

variable {c : CpuId} {queued queued' : TimedEvent → Prop} {k k' k'' : Kernel}

theorem frame (h : Retimed c queued k k') : Frame c k k' := by
  refine ⟨fun d _ => h.cpu d, h.others, h.buffers, by rw [h.cpu], fun d => ?_, fun d raised => ?_⟩
  · rw [h.sent]
  · rw [h.scheduler] at raised
    exact Or.inl raised

variable {touched : WaitToken → Prop}

theorem closed (h : Retimed c queued k k') : Closed c touched k k' where
  toFrame := h.frame
  pending _ _ pending := pending.congr h.scheduler
  owned _ _ joined := Or.inl (joinerOf_congr h.scheduler ▸ joined)
  held _ w _ active phase := ⟨w, registration_congr h.scheduler ▸ active, rfl, phase⟩
  foreign _ _ _ active _ := registration_congr h.scheduler ▸ active
  settled _ _ active _ := registration_congr h.scheduler ▸ active

theorem quiet (h : Retimed c queued k k') (timed : ∀ owner token,
      queued (.waitDeadline owner token) → .waitDeadline owner token ∈ k.events c) :
    Quiet c touched k k' :=
  ⟨h.closed, fun owner token member => timed owner token ((h.events _).mp member),
    fun _ _ joined => joinerOf_congr h.scheduler ▸ joined⟩

theorem refl (time : TimeOk k) : Retimed c (fun event => event ∈ k.events c) k k :=
  ⟨⟨rfl, rfl, fun _ _ => rfl, fun _ => Iff.rfl, fun state present =>
    ⟨(time c state present).wellFormed, (time c state present).capacity⟩⟩, fun _ => rfl⟩

theorem trans (first : Retimed c queued k k') (second : Retimed c queued' k' k'') :
    Retimed c queued' k k'' where
  scheduler := second.scheduler.trans first.scheduler
  sent := second.sent.trans first.sent
  others d apart := (second.others d apart).trans (first.others d apart)
  buffers d := (second.buffers d).trans (first.buffers d)
  events := second.events
  queue := second.queue

theorem congr (h : Retimed c queued k k') (same : ∀ event, queued event ↔ queued' event) :
    Retimed c queued' k k' :=
  { h with events := fun event => (h.events event).trans (same event) }

end Retimed

variable {k : Kernel}

/-- What the queue of a processor in order tells about its events. -/
theorem TimeOk.events (time : TimeOk k) (c : CpuId) :
    (∀ owner token, .waitDeadline owner token ∈ k.events c →
      owner = c ∧ token.cpu = c ∧ k.Pending token) ∧
    (∀ owner id, .quantumExpired owner id ∈ k.events c → owner = c) ∧
    ∀ id other, .quantumExpired c id ∈ k.events c → .quantumExpired c other ∈ k.events c →
      id = other := by
  cases present : k.clocks.states c with
  | none => simp [Kernel.events, present]
  | some state =>
    obtain ⟨_, _, wait, quantum, single⟩ := time c state present
    rw [events_of_some present]
    exact ⟨wait, quantum, single⟩

variable {token : WaitToken}

/-- A deadline is queued on the processor of its token or nowhere. -/
theorem TimeOk.untimed (time : TimeOk k) (absent : .waitDeadlineOf token ∉ k.events token.cpu)
    (c d : CpuId) : .waitDeadline d token ∉ k.events c := by
  intro member
  obtain ⟨rfl, rfl, _⟩ := (time.events c).1 d token member
  exact absent member

variable {c : CpuId} {k' : Kernel} {touched : WaitToken → Prop}

/-- Queues that did not change stay in order while the waits that ended had no
deadline in them. -/
theorem TimeOk.carry (time : TimeOk k) (within : Within c touched k k')
    (clocks : k'.clocks = k.clocks)
    (untimed : ∀ token, touched token → ∀ d, .waitDeadline d token ∉ k.events d) : TimeOk k' := by
  intro d state present
  rw [clocks] at present
  obtain ⟨wf, capacity, wait, quantum, single⟩ := time d state present
  refine ⟨wf, capacity, fun owner token member => ?_, quantum, single⟩
  obtain ⟨rfl, home, pending⟩ := wait owner token member
  refine ⟨rfl, home, within.pending token (fun ended => untimed token ended owner ?_) pending⟩
  rw [events_of_some present]
  exact member

/-- In particular when no wait ended. -/
theorem TimeOk.keep (time : TimeOk k) (within : Within c (fun _ => False) k k')
    (clocks : k'.clocks = k.clocks) : TimeOk k' :=
  time.carry within clocks fun _ no => no.elim

/-- The scheduler invariant together with the deadline queues, as processor `c`
finds it when it enters a section and leaves it at the end. -/
structure Steady (c : CpuId) (k : Kernel) : Prop extends Coherent k where
  time : TimeOk k
  exact : QuantumExact k c

/-- Sections that leave the clock alone keep the quantum event in step as long as
the queue does not become empty or stop being empty. -/
theorem Steady.carry (h : Steady c k) (coherent : Coherent k')
    (within : Within c (fun _ => False) k k') (clocks : k'.clocks = k.clocks)
    (current : (k'.cpu c).current = (k.cpu c).current) (ready : k'.ready c = [] ↔ k.ready c = []) :
    Steady c k' := by
  refine ⟨coherent, h.time.keep within clocks, fun id => ?_⟩
  rw [events_congr clocks, h.exact id, within.online, current, ne_eq, ne_eq, ready]

theorem Steady.aside (h : Steady c k) (same : Aside k k') : Steady c k' := by
  refine h.carry (h.toCoherent.congr same.scheduler) same.quiet.toWithin same.clocks ?_ ?_
  · rw [same.cpu]
  · rw [ready, same.cpu, ready]

/-- A section of `c` left it steady and ended no wait. -/
structure Settled (c : CpuId) (k k' : Kernel) : Prop where
  steady : Steady c k'
  quiet : Calm c k k'

/-- What a call of a running thread does. -/
abbrev Settles (c : CpuId) (k : Kernel) {α : Type} (call : KernelM α) : Prop :=
  WP Contract call (fun _ => Settled c k) k

/-- The token is the one that the running thread of the processor prepares next. -/
def Kernel.Next (k : Kernel) (c : CpuId) (token : WaitToken) : Prop :=
  ∃ t, (k.cpu c).current = some token.thread ∧ k.find token.thread = some t ∧
    token.sequence = t.wait.nextSequence + 1

/-- A section of `c` in which the running thread may have blocked: deadlines and
joiners are new for its next wait only. -/
structure Waited (c : CpuId) (k k' : Kernel) : Prop where
  steady : Steady c k'
  closed : Closed c (fun _ => False) k k'
  timed : ∀ owner token, .waitDeadline owner token ∈ k'.events c →
    .waitDeadline owner token ∈ k.events c ∨ k.Next c token
  joined : ∀ id token, k'.joinerOf id = some token → k.joinerOf id = some token ∨ k.Next c token

/-- What a call that may block does. -/
abbrev Waits (c : CpuId) (k : Kernel) {α : Type} (call : KernelM α) : Prop :=
  WP Contract call (fun _ => Waited c k) k

theorem Settled.waited (h : Settled c k k') : Waited c k k' :=
  ⟨h.steady, h.quiet.toClosed, fun owner token queued => Or.inl (h.quiet.timed owner token queued),
    fun id token joined => Or.inl (h.quiet.joined id token joined)⟩

theorem Settled.refl (h : Steady c k) : Settled c k k :=
  ⟨h, Quiet.refl k⟩

theorem Settles.after {α : Type} {call : KernelM α} (h : Settles c k' call) (first : Calm c k k') :
    WP Contract call (fun _ => Settled c k) k' :=
  h.mono fun _ _ done => ⟨done.steady, first.trans done.quiet⟩

/-! ### Operations on the executing processor's clock -/

section Rules

variable {k : Kernel} {c : CpuId} {α : Type}

/-- The kernel after processor `c` replaced its own cell. -/
def Kernel.retimed (k : Kernel) (c : CpuId) (cell : TimeCell) : Kernel :=
  { k with clocks := k.clocks.put c c cell }

theorem wp_onOwnClock {operation : CellM α} {Q : α → Kernel → Prop}
    (post : ∀ state, k.clocks.states c = some state →
      WP Contract operation (fun value cell => Q value (k.retimed c cell))
        ⟨state, k.clocks.timer c⟩) :
    WP Contract (onClocks (Clocks.withTimeMut c c operation)) Q k :=
  wp_onClocks.mpr (Clocks.wp_withTimeMut.mpr ⟨fun _ => rfl, post⟩)

variable {cell : TimeCell}

theorem Kernel.states_retimed :
    (k.retimed c cell).clocks.states = update k.clocks.states c (some cell.state) := rfl

variable {queued : TimedEvent → Prop}

/-- A new cell changes the queue of its processor only. -/
theorem Reclocked.of_cell (wf : cell.state.queue.WellFormed)
    (capacity : cell.state.queue.capacity = kernelThreadCapacity * timedEventCapacityPerThread)
    (events : ∀ event, event ∈ cell.state.queue.events ↔ queued event) :
    Reclocked c queued k (k.retimed c cell) where
  scheduler := rfl
  sent := rfl
  others d apart := update_of_ne apart ..
  events event := by
    have states : (k.retimed c cell).clocks.states c = some cell.state := update_self ..
    rw [events_of_some states]
    exact events event
  queue after eq := by
    rw [states_retimed, update_self] at eq
    rw [← Option.some.inj eq]
    exact ⟨wf, capacity⟩

theorem Retimed.of_cell {state : TimeState} (present : k.clocks.states c = some state)
    (expired : cell.state.expired = state.expired) (wf : cell.state.queue.WellFormed)
    (capacity : cell.state.queue.capacity = kernelThreadCapacity * timedEventCapacityPerThread)
    (events : ∀ event, event ∈ cell.state.queue.events ↔ queued event) :
    Retimed c queued k (k.retimed c cell) where
  toReclocked := .of_cell wf capacity events
  buffers d := by
    rw [states_retimed, update_apply]
    split
    · next same => rw [same, present, Option.map_some, Option.map_some, expired]
    · rfl

/-- Rearming touches neither the queue nor the buffer. -/
theorem wp_rearm {Q : Unit → TimeCell → Prop}
    (post : ∀ after : TimeCell, after.state.queue = cell.state.queue →
      after.state.expired = cell.state.expired → Q () after) :
    WP Contract rearmUnlessDispatching Q cell :=
  wp_rearmUnlessDispatching.mpr ⟨fun _ => wp_rearmTimer.mpr (post _ rfl rfl),
    fun _ => post _ rfl rfl⟩

variable {event : TimedEvent}

variable {deadline : Nat}

theorem wp_scheduleOwn (time : TimeOk k) (table : TableOk k) (own : event.cpu = c)
    {Q : Unit → Kernel → Prop}
    (post : ∀ k', Retimed c (fun other => other = event ∨ other ∈ k.events c) k k' → Q () k') :
    WP Contract (onClocks (Clocks.scheduleEvent c deadline event)) Q k := by
  refine wp_onClocks.mpr (.bind (wp_stopIf.mpr ⟨fun away => absurd own away, fun _ => ?_⟩))
  refine wp_onClocks.mp (wp_onOwnClock fun state present => ?_)
  have ok := time c state present
  rw [wp_bind]
  refine wp_scheduleEvent ok.wellFormed
    (fun _ full => absurd full (ok.room table)) fun queue wf capacity perm => ?_
  refine wp_rearm fun after queue' expired => post _ (.of_cell present ?_ ?_ ?_ ?_)
  · exact expired
  · rw [queue']
    exact wf
  · rw [queue']
    exact capacity.trans ok.capacity
  · intro other
    rw [queue', events_of_some present]
    exact DeadlineQueue.mem_events_of_perm_cons perm other

theorem wp_cancelOwn (time : TimeOk k) (own : event.cpu = c) {Q : Bool → Kernel → Prop}
    (post : ∀ canceled k',
      Retimed c (fun other => other ∈ k.events c ∧ other ≠ event) k k' → Q canceled k') :
    WP Contract (onClocks (Clocks.cancelEvent c event)) Q k := by
  rw [Clocks.cancelEvent, own]
  refine wp_onOwnClock fun state present => ?_
  have ok := time c state present
  refine wp_cancelEvent ok.wellFormed fun queue wf capacity perm canceled => ?_
  have done : ∀ after : TimeCell, after.state.queue = queue →
      after.state.expired = state.expired → Q canceled (k.retimed c after) := by
    intro after queue' expired
    refine post _ _ (.of_cell present expired (queue' ▸ wf) ?_ ?_)
    · rw [queue']
      exact capacity.trans ok.capacity
    · intro other
      rw [queue', events_of_some present]
      exact DeadlineQueue.mem_events_of_perm_others perm other
  exact wp_onlyIf.mpr ⟨fun _ => wp_rearm done, fun _ => done _ rfl rfl⟩

/-- A sleep replaces the quantum of its thread by its deadline. -/
theorem wp_publishSleepOwn (time : TimeOk k) (table : TableOk k) (own : token.cpu = c)
    {Q : Unit → Kernel → Prop} (post : ∀ k', Retimed c (fun other => other = .waitDeadlineOf token ∨
      other ∈ k.events c ∧ other ≠ .quantumExpired c token.thread) k k' → Q () k') :
    WP Contract (onClocks (Clocks.publishSleep c deadline token)) Q k := by
  refine wp_onClocks.mpr (.bind (wp_stopIf.mpr ⟨fun away => absurd own away, fun _ => ?_⟩))
  rw [own]
  refine wp_onClocks.mp (wp_onOwnClock fun state present => ?_)
  have ok := time c state present
  rw [publishSleep, wp_bind, own]
  refine wp_cancelEvent ok.wellFormed fun shorter wf capacity perm canceled => ?_
  refine wp_onlyIf.mpr ⟨fun rearms => absurd rearms.2 (by decide), fun _ => (wp_bind _).mpr ?_⟩
  refine wp_scheduleEvent wf (fun _ full => ?_) fun queue wf' capacity' perm' => ?_
  · have fewer : shorter.entries.length ≤ state.queue.entries.length := by
      rw [perm.length_eq]
      exact List.length_filter_le ..
    have length := ok.length_le
    have bound := table.bound
    change shorter.entries.length = shorter.capacity at full
    rw [full, capacity, ok.capacity] at fewer
    simp only [kernelThreadCapacity, timedEventCapacityPerThread] at bound fewer
    omega
  · refine wp_rearm fun after queue' expired =>
      post _ (.of_cell present expired (queue' ▸ wf') ?_ ?_)
    · rw [queue']
      exact capacity'.trans (capacity.trans ok.capacity)
    · intro other
      rw [queue', events_of_some present]
      refine (DeadlineQueue.mem_events_of_perm_cons perm' other).trans ?_
      exact or_congr Iff.rfl (DeadlineQueue.mem_events_of_perm_others perm other)

theorem wp_eventPendingOwn (time : TimeOk k) (own : event.cpu = c) {Q : Bool → Kernel → Prop}
    (post : ∀ k', Retimed c (fun other => other ∈ k.events c) k k' →
      Q (decide (event ∈ k.events c)) k') :
    WP Contract (onClocks (Clocks.eventPending c event)) Q k := by
  rw [Clocks.eventPending, own]
  refine wp_onOwnClock fun state present => ?_
  have ok := time c state present
  have answer : state.queue.eventPending event = decide (event ∈ k.events c) := by
    rw [events_of_some present, Bool.eq_iff_iff, decide_eq_true_eq]
    exact DeadlineQueue.eventPending_iff
  rw [wp_bind, wp_get, wp_pure, answer]
  refine post _ (.of_cell present rfl ok.wellFormed ok.capacity fun other => ?_)
  rw [events_of_some present]

/-- The kernel after the counter was read. -/
def Kernel.ticked (k : Kernel) : Kernel := { k with counterReads := k.counterReads + 1 }

theorem Retimed.tick (h : Retimed c queued k k') : Retimed c queued k k'.ticked :=
  { h with }

/-- The queued events and the quantum event the current thread needs. -/
def Kernel.Ensured (k : Kernel) (c : CpuId) (event : TimedEvent) : Prop :=
  event ∈ k.events c ∨
    ∃ id, event = .quantumExpired c id ∧ (k.cpu c).current = some id ∧ k.ready c ≠ []

theorem wp_ensureQuantumEvent (time : TimeOk k) (table : TableOk k) {Q : Unit → Kernel → Prop}
    (post : ∀ k', Retimed c (k.Ensured c) k k' → Q () k') :
    WP Contract (ensureQuantumEvent c) Q k := by
  have unneeded : (∀ id, (k.cpu c).current = some id → k.ready c = []) → Q () k := by
    refine fun none => post k ((Retimed.refl time).congr fun event => ?_)
    refine ⟨Or.inl, fun ensured => ensured.resolve_right ?_⟩
    rintro ⟨id, _, running, peer⟩
    exact peer (none id running)
  rw [ensureQuantumEvent, wp_bind, wp_runningThread]
  cases running : (k.cpu c).current with
  | none => exact unneeded fun id some => absurd (running.symm.trans some) (by simp)
  | some id =>
    rw [wp_bind, wp_hasRunnablePeer]
    split
    · next alone => exact unneeded fun _ _ => by simpa using alone
    · next peer =>
      rw [wp_bind]
      refine wp_eventPendingOwn time rfl fun k₁ seen => ?_
      have time₁ : TimeOk k₁ := seen.time time (time.events c).1 (time.events c).2.1
        (time.events c).2.2
      have needed : k.ready c ≠ [] := by simpa using peer
      split
      · next queued =>
        refine post k₁ (seen.congr fun event => ⟨Or.inl, ?_⟩)
        rintro (member | ⟨other, rfl, same, _⟩)
        · exact member
        · rw [running] at same
          cases same
          exact of_decide_eq_true queued
      · have ticked := seen.tick
        have time₂ : TimeOk k₁.ticked := ticked.time time (time.events c).1
          (time.events c).2.1 (time.events c).2.2
        rw [wp_bind, wp_nowCounter]
        refine .bind (.bind (wp_get.mpr (wp_pure _ |>.mpr ?_)))
        refine wp_scheduleOwn time₂ (table.congr (by rw [ticked.scheduler])) rfl
          fun k₂ done => post k₂ ((ticked.trans done).congr fun event => ?_)
        rw [ticked.events]
        constructor
        · rintro (rfl | member)
          · exact Or.inr ⟨id, rfl, running, needed⟩
          · exact Or.inl member
        · rintro (member | ⟨other, rfl, same, _⟩)
          · exact Or.inr member
          · rw [running] at same
            cases same
            exact Or.inl rfl

/-- A request for a reschedule leaves scheduler and clocks alone. -/
theorem Retimed.request {state : PreemptionState} {d : CpuId}
    (h : Retimed c queued (k.setPreemption d state) k') : Retimed c queued k k' :=
  { h with }

theorem wp_noteRunnablePeerAvailable (time : TimeOk k) (table : TableOk k)
    {Q : Unit → Kernel → Prop} (post : ∀ k', Retimed c (k.Ensured c) k k' → Q () k') :
    WP Contract (noteRunnablePeerAvailable c) Q k := by
  rw [noteRunnablePeerAvailable, wp_bind, wp_runningThread, wp_bind, wp_hasRunnablePeer, wp_onlyIf]
  refine ⟨fun _ => ?_, fun unneeded => ?_⟩
  · rw [wp_bind]
    change WP Contract (ensureQuantumEvent c) Q (k.setPreemption c (k.preemption c).request)
    refine wp_ensureQuantumEvent (fun d state present => ?_) (table.congr (by rfl))
      fun k' done => post k' done.request
    obtain ⟨wf, capacity, wait, quantum, single⟩ := time d state present
    exact ⟨wf, capacity, wait, quantum, single⟩
  · refine post k ((Retimed.refl time).congr fun event => ⟨Or.inl, fun ensured => ?_⟩)
    refine ensured.resolve_right ?_
    rintro ⟨id, _, running, peer⟩
    exact unneeded ⟨by rw [running]; rfl, by simpa using peer⟩

/-- Ensuring the event keeps the queues in order when every quantum event names
the current thread. -/
theorem Retimed.time_ensured (h : Retimed c (k.Ensured c) k k') (time : TimeOk k)
    (current : ∀ id, .quantumExpired c id ∈ k.events c → (k.cpu c).current = some id) :
    TimeOk k' := by
  obtain ⟨wait, quantum, _⟩ := time.events c
  refine h.time time ?_ ?_ ?_
  · rintro owner token (member | ⟨id, other, _⟩)
    · exact wait owner token member
    · cases other
  · rintro owner id (member | ⟨other, same, _⟩)
    · exact quantum owner id member
    · cases same
      rfl
  · have named : ∀ id, k.Ensured c (.quantumExpired c id) → (k.cpu c).current = some id := by
      rintro id (member | ⟨other, same, running, _⟩)
      · exact current id member
      · cases same
        exact running
    intro id other first second
    exact Option.some.inj ((named id first).symm.trans (named other second))

/-- After ensuring, the quantum event exists exactly when there is a peer. -/
theorem Retimed.quantum_ensured (h : Retimed c (k.Ensured c) k k') (sound : QuantumSound k c)
    (id : ThreadId) :
    .quantumExpired c id ∈ k'.events c ↔ (k.cpu c).current = some id ∧ k.ready c ≠ [] := by
  rw [h.events]
  constructor
  · rintro (member | ⟨other, same, needed⟩)
    · exact sound id member
    · cases same
      exact needed
  · exact fun needed => Or.inr ⟨id, rfl, needed⟩

/-- Only quantum events are ensured. -/
theorem Retimed.quiet_ensured (h : Retimed c (k.Ensured c) k k') : Quiet c touched k k' := by
  refine h.quiet ?_
  rintro owner token (before | ⟨id, other, _⟩)
  · exact before
  · cases other

/-- A processor whose queue grew by one announces the first peer of its current
thread. -/
theorem wp_announce {m : Kernel} {id : ThreadId} (exact : QuantumExact k c)
    (online : (k.cpu c).online = true) (coherent : Coherent m) (time : TimeOk m)
    (clocks : m.clocks = k.clocks)
    (cpu : m.cpu c = { k.cpu c with readyQueue := (m.cpu c).readyQueue })
    (ready : m.ready c = k.ready c ++ [id]) {first : Prop} [Decidable first]
    (empty : first ↔ k.ready c = []) {Q : Unit → Kernel → Prop}
    (post : ∀ k', k'.scheduler = m.scheduler → Calm c m k' → Steady c k' → Q () k') :
    WP Contract (onlyIf first (noteRunnablePeerAvailable c)) Q m := by
  refine wp_onlyIf.mpr ⟨fun alone => ?_, fun accompanied => ?_⟩
  · have none : ∀ id, .quantumExpired c id ∉ m.events c := by
      intro id member
      rw [events_congr clocks] at member
      exact ((exact id).mp member).2.2 (empty.mp alone)
    refine wp_noteRunnablePeerAvailable time coherent.table fun k' noted => ?_
    refine post k' noted.scheduler noted.quiet_ensured ⟨noted.coherent coherent,
      noted.time_ensured time fun id member => absurd member (none id), fun id => ?_⟩
    rw [noted.quantum_ensured (fun id member => absurd member (none id)), noted.cpu, noted.ready,
      cpu]
    simp [online]
  · refine post m rfl (.refl m) ⟨coherent, time, fun id => ?_⟩
    have filled : k.ready c ≠ [] := fun none => accompanied (empty.mpr none)
    rw [events_congr clocks, exact id, cpu, ready]
    simp [filled]

/-- The quantum event of a thread that left is replaced. -/
theorem wp_replaceQuantumEvent (time : TimeOk k) (table : TableOk k) {obsolete : ThreadId}
    {Q : Unit → Kernel → Prop} (only : ∀ id, .quantumExpired c id ∈ k.events c → id = obsolete)
    (post : ∀ k', Retimed c (fun event => event ∈ k'.events c) k k' → Calm c k k' → TimeOk k' →
      (∀ id, .quantumExpired c id ∈ k'.events c ↔ (k.cpu c).current = some id ∧ k.ready c ≠ []) →
      Q () k') : WP Contract (replaceQuantumEvent c obsolete) Q k := by
  obtain ⟨wait, quantum, single⟩ := time.events c
  rw [replaceQuantumEvent, wp_bind]
  refine wp_cancelOwn time rfl fun _ k₁ canceled => ?_
  have time₁ : TimeOk k₁ := canceled.time time (fun owner token member => wait owner token member.1)
    (fun owner id member => quantum owner id member.1)
    fun id other first second => single id other first.1 second.1
  have none : ∀ id, .quantumExpired c id ∉ k₁.events c := by
    intro id member
    obtain ⟨queued, apart⟩ := (canceled.events _).mp member
    exact apart (by rw [only id queued])
  refine wp_ensureQuantumEvent time₁ (table.congr (by rw [canceled.scheduler])) fun k₂ ensured => ?_
  have sound : QuantumSound k₁ c := fun id member => absurd member (none id)
  refine post k₂ ((canceled.trans ensured).congr fun event => (ensured.events event).symm)
    ((canceled.quiet fun _ _ queued => queued.1).trans ensured.quiet_ensured)
    (ensured.time_ensured time₁ fun id member => absurd member (none id)) fun id => ?_
  rw [ensured.quantum_ensured sound, canceled.cpu, canceled.ready]

end Rules

end Genrt
