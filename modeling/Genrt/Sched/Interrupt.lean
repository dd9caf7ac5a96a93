import Genrt.Sched.Boot
import Genrt.Time.DeadlineMap

/-!
# Specifications of the timer interrupt

The first section moves the expired events into the transfer buffer, the second
one completes their waits and may hand the processor over, and the last one
applies the change of the quantum event that follows from it. Between them the
quantum event of the processor may be missing, but a queued one still names the
current thread.
-/

namespace Genrt

open Effect Kernel Function

variable {k k' : Kernel} {c : CpuId} {expired : ExpiredEvents}

/-! ### Collecting the batch -/

/-- The buffer of a processor that dispatches no timer interrupt. -/
def Kernel.BufferReady (k : Kernel) (c : CpuId) : Prop :=
  ∀ state, k.clocks.states c = some state →
    state.expired = some (.empty (kernelThreadCapacity * timedEventCapacityPerThread))

/-- The events that processor `c` collected and has not dispatched yet. -/
structure Batched (c : CpuId) (expired : ExpiredEvents) (k : Kernel) : Prop where
  capacity : expired.capacity = kernelThreadCapacity * timedEventCapacityPerThread
  wait : ∀ owner token, .waitDeadline owner token ∈ expired.items →
    owner = c ∧ token.cpu = c ∧ ∀ id, k.joinerOf id ≠ some token
  quantum : ∀ owner id, .quantumExpired owner id ∈ expired.items → owner = c
  gone : ∀ event ∈ expired.items, event ∉ k.events c

variable {now : Nat} {ensure : Option (Nat × TimedEvent)} {m : Kernel} {id : ThreadId}

/-- The first section of a timer interrupt splits the queue. -/
theorem wp_beginTimerInterrupt (time : TimeOk k) (table : TableOk k) (buffer : k.BufferReady c)
    {Q : Option ExpiredEvents → Kernel → Prop}
    (absent : ∀ k', Retimed c (fun event => event ∈ k.events c) k k' → Q none k')
    (collected : ∀ expired k',
      Reclocked c (fun event => event ∈ k.events c ∧ event ∉ expired.items) k k' →
      Batched c expired k' → Q (some expired) k') :
    WP Contract (onClocks (Clocks.beginTimerInterrupt c now)) Q k := by
  obtain ⟨wait, quantum, _⟩ := time.events c
  refine wp_onClocks.mpr ?_
  simp only [WP, Clocks.beginTimerInterrupt]
  cases present : k.clocks.states c with
  | none =>
    refine absent _ ⟨⟨rfl, rfl, fun _ _ => rfl, fun _ => Iff.rfl, fun state some => ?_⟩,
      fun _ => rfl⟩
    cases present.symm.trans some
  | some state =>
    have ok := time c state present
    have events := events_of_some present
    have room : ([] : List TimedEvent).length + state.queue.entries.length ≤
        kernelThreadCapacity * timedEventCapacityPerThread := by
      have := ok.length_le
      have := table.bound
      simp only [kernelThreadCapacity, timedEventCapacityPerThread, List.length_nil] at this ⊢
      omega
    have own : ∀ event ∈ state.queue.events, event.cpu = c := by
      rintro (⟨owner, token⟩ | ⟨owner, id⟩) member
      · exact (ok.wait owner token member).1
      · exact ok.quantum owner id member
    obtain ⟨map, rep⟩ : ∃ map, state.queue.Represents map := ⟨_, ok.wellFormed.represents⟩
    have queued : ∀ event, map.Expired now event → event ∈ state.queue.events := by
      rintro event ⟨deadline, found, -⟩
      exact List.mem_map_of_mem ((rep.entry event deadline).mp found)
    have collects := @TimeState.popExpiredLoop_collects c now _ _ _ rep le_rfl (.empty _) room
    refine wp_map _ |>.mpr (Clocks.wp_withTimeMut.mpr ⟨fun none => ?_, fun state' same => ?_⟩)
    · cases present.symm.trans none
    obtain rfl := Option.mem_unique present same
    simp only [WP, TimeState.takeExpired, buffer state present]
    cases run : TimeState.popExpiredLoop c now state.queue.entries.length state.queue
        (.empty (kernelThreadCapacity * timedEventCapacityPerThread)) with
    | error panic =>
      rw [run] at collects
      obtain ⟨_, event, expired, other⟩ := collects
      exact absurd (own event (queued event expired)) other
    | ok result =>
      rw [run] at collects
      obtain ⟨rest, batch⟩ := result
      obtain ⟨popped, items, size, listed, kept, capacity, _⟩ := collects
      dsimp only
      rw [BoundedQueue.empty_items, List.nil_append] at items
      subst items
      have left : ∀ event, event ∈ rest.events ↔ event ∈ k.events c ∧ event ∉ batch.items := by
        intro event
        rw [events, ← not_iff_not, ← kept.absent_iff, DeadlineMap.expire_eq_none_iff,
          rep.absent_iff, ← listed.exactly, not_and_or, not_not]
      have before : ∀ event ∈ batch.items, event ∈ k.events c :=
        fun event member => events ▸ queued event ((listed.exactly event).mp member)
      have retimed : Reclocked c (fun event => event ∈ k.events c ∧ event ∉ batch.items) k
          (k.retimed c ⟨{ state with queue := rest, dispatchingIrq := true, expired := none },
            k.clocks.timer c⟩) := .of_cell kept.wellFormed (capacity.trans ok.capacity) left
      refine collected batch _ retimed ⟨size, ?_, ?_, ?_⟩
      · intro owner token member
        obtain ⟨own, home, _, unowned⟩ := wait owner token (before _ member)
        exact ⟨own, home, unowned⟩
      · exact fun owner id member => quantum owner id (before _ member)
      · exact fun event member queued => ((retimed.events event).mp queued).2 member

/-! ### Rearming -/

/-- What a queue holds after an update of the quantum event. -/
def QuantumUpdate.Applied (quantum : QuantumUpdate) (events : List TimedEvent)
    (event : TimedEvent) : Prop :=
  event ∈ events ∧ quantum.obsolete ≠ some event ∨
    ∃ deadline, quantum.ensure = some (deadline, event)

/-- Applying the update to the queue makes the quantum event exact. -/
structure Restores (c : CpuId) (quantum : QuantumUpdate) (k : Kernel) : Prop where
  obsolete : ∀ event, quantum.obsolete = some event → ∃ id, event = .quantumExpired c id
  ensure : ∀ deadline event, quantum.ensure = some (deadline, event) →
    ∃ id, event = .quantumExpired c id
  exact : ∀ id, quantum.Applied (k.events c) (.quantumExpired c id) ↔
    (k.cpu c).online = true ∧ (k.cpu c).current = some id ∧ k.ready c ≠ []

/-- The last section of a timer interrupt puts the quantum event in step. -/
theorem wp_endTimerInterrupt (time : TimeOk k) (table : TableOk k) {quantum : QuantumUpdate}
    (restores : Restores c quantum k)
    (size : expired.capacity = kernelThreadCapacity * timedEventCapacityPerThread)
    {Q : Unit → Kernel → Prop}
    (post : ∀ k', Reclocked c (quantum.Applied (k.events c)) k k' → k'.BufferReady c → TimeOk k' →
      QuantumExact k' c → Q () k') :
    WP Contract (onClocks (Clocks.endTimerInterrupt c quantum expired)) Q k := by
  obtain ⟨wait, queued, _⟩ := time.events c
  refine wp_onOwnClock fun state present => ?_
  have ok := time c state present
  simp only [TimeState.finishDispatch, wp_bind, wp_modify]
  refine TimeState.wp_cancelObsolete ok.wellFormed fun shorter kept capacity fewer left => ?_
  have room : shorter.entries.length < shorter.capacity := by
    have := ok.length_le
    have := table.bound
    rw [capacity]
    have total : state.queue.capacity = kernelThreadCapacity * timedEventCapacityPerThread :=
      ok.capacity
    simp only [kernelThreadCapacity, timedEventCapacityPerThread] at this total fewer ⊢
    omega
  refine TimeState.wp_ensureEvent kept (fun full => absurd full room.ne)
    fun queue kept' capacity' events => ?_
  rw [TimeState.wp_rearmTimer]
  have applied : ∀ event, event ∈ queue.events ↔ quantum.Applied (k.events c) event := by
    intro event
    rw [events event, QuantumUpdate.Applied, events_of_some present]
    exact or_congr (left event) Iff.rfl
  have retimed : Reclocked c (quantum.Applied (k.events c)) k (k.retimed c
      ⟨⟨queue, queue.nextDeadline, false, some expired.clear⟩,
        (k.clocks.timer c).program queue.nextDeadline⟩) :=
    .of_cell kept' (capacity'.trans (capacity.trans ok.capacity)) applied
  refine post _ retimed (fun after same => ?_) (retimed.time time ?_ ?_ ?_) fun id => ?_
  · rw [states_retimed, update_self] at same
    rw [← Option.some.inj same, BoundedQueue.clear, size]
  · rintro owner token (⟨member, _⟩ | ⟨deadline, requested⟩)
    · exact wait owner token member
    · obtain ⟨_, other⟩ := restores.ensure _ _ requested
      cases other
  · rintro owner id (⟨member, _⟩ | ⟨deadline, requested⟩)
    · exact queued owner id member
    · obtain ⟨_, same⟩ := restores.ensure _ _ requested
      cases same
      rfl
  · intro id other first second
    have running := ((restores.exact id).mp first).2.1
    exact Option.mem_unique running (((restores.exact other).mp second).2.1)
  · rw [retimed.events, restores.exact, retimed.cpu, retimed.ready]

/-! ### Remote cancellation -/

/-- A completer on another processor may remove a deadline. -/
theorem wp_cancelRemote (time : TimeOk k) {event : TimedEvent} {Q : Bool → Kernel → Prop}
    (post : ∀ canceled k', Retimed event.cpu
      (fun other => other ∈ k.events event.cpu ∧ other ≠ event) k k' → Q canceled k') :
    WP Contract (onClocks (Clocks.cancelEvent c event)) Q k := by
  refine wp_onClocks.mpr (Clocks.wp_withTimeMut.mpr ⟨fun _ => rfl, fun state present => ?_⟩)
  have ok := time event.cpu state present
  refine TimeState.wp_cancelEvent ok.wellFormed fun queue kept capacity perm canceled => ?_
  have done : ∀ cell : TimeCell, cell.state.queue = queue → cell.state.expired = state.expired →
      Q canceled { k with clocks := k.clocks.put c event.cpu cell } := by
    rintro cell rfl buffer
    have states : (k.clocks.put c event.cpu cell).states event.cpu = some cell.state :=
      update_self ..
    refine post _ _ ⟨⟨rfl, rfl, fun d apart => update_of_ne apart .., fun other => ?_,
      fun after same => ?_⟩, fun d => ?_⟩
    · rw [events_of_some states, events_of_some present]
      exact DeadlineQueue.mem_events_of_perm_others perm other
    · rw [← Option.mem_unique states same]
      exact ⟨kept, capacity.trans ok.capacity⟩
    · change (update k.clocks.states event.cpu (some cell.state) d).map _ = _
      rw [update_apply]
      split
      · next same => rw [same, present, Option.map_some, Option.map_some, buffer]
      · rfl
  exact wp_onlyIf.mpr ⟨fun _ => wp_rearm done, fun _ => done _ rfl rfl⟩

/-! ### Dispatching the batch -/

/-- The queues stay in order: the ended waits have no deadline in them. -/
theorem Batched.time (batch : Batched c expired k) (time : TimeOk k)
    (within : Within c (fun token => .waitDeadlineOf token ∈ expired.items) k k')
    (clocks : k'.clocks = k.clocks) : TimeOk k' := by
  refine time.carry within clocks fun token ended d queued => ?_
  obtain ⟨own, _, _⟩ := batch.wait _ token ended
  obtain ⟨_, home, _⟩ := (time.events d).1 d token queued
  refine batch.gone _ ended ?_
  rw [← own, TimedEvent.waitDeadlineOf, home]
  exact queued

/-- Registrations with exiting threads may disappear. -/
theorem Batched.carry (batch : Batched c expired k) (clocks : k'.clocks = k.clocks)
    (joins : ∀ id token, k'.joinerOf id = some token → k.joinerOf id = some token) :
    Batched c expired k' := by
  refine ⟨batch.capacity, fun owner token member => ?_, batch.quantum, fun event member => ?_⟩
  · obtain ⟨own, home, unjoined⟩ := batch.wait owner token member
    exact ⟨own, home, fun id joined => unjoined id (joins id token joined)⟩
  · rw [events_congr clocks]
    exact batch.gone event member

/-- More peers leave a queued quantum event justified. -/
theorem QuantumSound.carry (sound : QuantumSound k c) (clocks : k'.clocks = k.clocks)
    (current : (k'.cpu c).current = (k.cpu c).current)
    (ready : ∃ more, k'.ready c = k.ready c ++ more) : QuantumSound k' c := by
  intro id member
  rw [events_congr clocks] at member
  obtain ⟨running, peers⟩ := sound id member
  obtain ⟨more, ready⟩ := ready
  exact ⟨current.trans running, by rw [ready]; simp [peers]⟩

/-- What processor `c` leaves behind after dispatching events of its batch. -/
structure Dispatched (c : CpuId) (expired : ExpiredEvents) (k k' : Kernel) : Prop where
  coherent : Coherent k'
  quiet : Quiet c (fun token => .waitDeadlineOf token ∈ expired.items) k k'
  clocks : k'.clocks = k.clocks
  cpu : k'.cpu c = { k.cpu c with readyQueue := (k'.cpu c).readyQueue }
  ready : ∃ more, k'.ready c = k.ready c ++ more

namespace Dispatched

variable {m m' : Kernel}

theorem refl (h : Coherent k) : Dispatched c expired k k :=
  ⟨h, .refl k, rfl, rfl, ⟨[], (List.append_nil _).symm⟩⟩

theorem aside (h : Dispatched c expired k m) (same : Aside m m') : Dispatched c expired k m' where
  coherent := h.coherent.congr same.scheduler
  quiet := h.quiet.trans same.quiet
  clocks := same.clocks.trans h.clocks
  cpu := by
    rw [same.cpu]
    exact h.cpu
  ready := by
    rw [Kernel.ready, same.cpu]
    exact h.ready

theorem filled (h : Dispatched c expired k m) (peers : k.ready c ≠ []) : m.ready c ≠ [] := by
  obtain ⟨more, ready⟩ := h.ready
  rw [ready]
  simp [peers]

theorem current (h : Dispatched c expired k m) : (m.cpu c).current = (k.cpu c).current := by
  rw [h.cpu]

end Dispatched

theorem wp_dispatchExpired (batch : Batched c expired k) (h : Dispatched c expired k m)
    {event : TimedEvent} (member : event ∈ expired.items) :
    WP Contract (dispatchExpired c event) (fun _ m' => Dispatched c expired k m') m := by
  cases event with
  | waitDeadline owner token =>
    obtain ⟨rfl, home, unjoined⟩ := batch.wait owner token member
    rw [dispatchExpired, wp_bind, wp_stopIf]
    refine ⟨fun away => absurd away (by simp [home]), fun _ => ?_⟩
    rw [wp_bind]
    refine wp_completeWaitForTimer h.coherent
      (fun id joined => unjoined id (h.quiet.joined id token joined))
      fun result m' done clocks => ?_
    have own : .waitDeadlineOf token ∈ expired.items := by rwa [TimedEvent.waitDeadlineOf, home]
    refine ⟨done.coherent, h.quiet.trans (done.quiet.mono fun _ same => same ▸ own),
      clocks.trans h.clocks, by rw [done.cpu, h.cpu], ?_⟩
    obtain ⟨more, first⟩ := h.ready
    obtain ⟨more', second⟩ := done.ready
    exact ⟨more ++ more', by rw [second, first, List.append_assoc]⟩
  | quantumExpired owner id =>
    obtain rfl := batch.quantum owner id member
    rw [dispatchExpired, wp_bind, wp_stopIf]
    refine ⟨fun away => absurd rfl away, fun _ => ?_⟩
    rw [noteQuantumExpired, wp_bind, wp_runningThread]
    exact wp_onlyIf.mpr ⟨fun _ => h.aside .setPreemption, fun _ => h⟩

theorem wp_dispatchAll (h : Coherent k) (batch : Batched c expired k) :
    WP Contract (forEach expired.items (dispatchExpired c))
      (fun _ m => Dispatched c expired k m) k := by
  refine (wp_forEach (fun rest m => Dispatched c expired k m ∧
      ∀ event ∈ rest, event ∈ expired.items) ?_ expired.items k
    ⟨.refl h, fun _ member => member⟩).mono fun _ m done => done.1
  rintro event rest m ⟨done, left⟩
  refine (wp_dispatchExpired batch done (left event (.head _))).mono fun _ m' done' => ?_
  exact ⟨done', fun other member => left other (.tail _ member)⟩

/-- The time owner is asked for the event that the selected thread needs. -/
def Requests (c : CpuId) (id : ThreadId) (ensure : Option (Nat × TimedEvent)) (k : Kernel) : Prop :=
  ∀ event, (∃ deadline, ensure = some (deadline, event)) ↔
    event = .quantumExpired c id ∧ k.ready c ≠ []

theorem wp_quantumToEnsure (running : (k.cpu c).current = some id)
    {Q : Option (Nat × TimedEvent) → Kernel → Prop}
    (post : ∀ ensure, Requests c id ensure k → Q ensure k) :
    WP Contract (quantumToEnsure c now) Q k := by
  rw [quantumToEnsure, wp_bind, wp_hasRunnablePeer]
  split
  · next peer =>
    have filled : k.ready c ≠ [] := by simpa using peer
    rw [wp_bind, wp_runningThread, wp_bind, wp_orStop_some running]
    refine .bind (.bind (wp_get.mpr (post _ fun event => ?_)))
    simp [filled, eq_comm]
  · next alone =>
    have empty : k.ready c = [] := by simpa using alone
    exact post none fun event => by simp [empty]

/-- No checkpoint: the current thread stays and may need a quantum event now. -/
theorem Restores.of_stay (sound : QuantumSound k c) (online : (k.cpu c).online = true)
    (running : (k.cpu c).current = some id) (h : Dispatched c expired k m)
    (requests : Requests c id ensure m) : Restores c ⟨none, ensure⟩ m := by
  refine ⟨fun event none => (by cases none), fun deadline event same =>
    ⟨id, ((requests event).mp ⟨deadline, same⟩).1⟩, fun other => ?_⟩
  rw [QuantumUpdate.Applied, requests, h.current, running, h.quiet.online, online,
    events_congr h.clocks]
  constructor
  · rintro (⟨member, _⟩ | ⟨same, peers⟩)
    · obtain ⟨current, peers⟩ := sound other member
      exact ⟨rfl, running.symm.trans current, h.filled peers⟩
    · cases same
      exact ⟨rfl, rfl, peers⟩
  · rintro ⟨_, same, peers⟩
    exact Or.inr ⟨by rw [Option.some.inj same], peers⟩

/-- A checkpoint: the event of the thread that ran before is obsolete. -/
theorem Restores.of_switch {next : ThreadId} (sound : QuantumSound k c)
    (online : (m.cpu c).online = true) (running : (k.cpu c).current = some id)
    (selected : (m.cpu c).current = some next) (clocks : m.clocks = k.clocks)
    (requests : Requests c next ensure m) : Restores c ⟨some (.quantumExpired c id), ensure⟩ m := by
  refine ⟨fun event same => ⟨id, (Option.some.inj same).symm⟩, fun deadline event same =>
    ⟨next, ((requests event).mp ⟨deadline, same⟩).1⟩, fun other => ?_⟩
  rw [QuantumUpdate.Applied, requests, selected, online, events_congr clocks]
  constructor
  · rintro (⟨member, kept⟩ | ⟨same, peers⟩)
    · have current := (sound other member).1
      exact absurd (by rw [Option.mem_unique running current]) kept
    · cases same
      exact ⟨rfl, rfl, peers⟩
  · rintro ⟨_, same, peers⟩
    exact Or.inr ⟨by rw [Option.some.inj same], peers⟩

/-- The scheduler's part of a timer interrupt, for a batch that goes through the
ready queue. -/
theorem wp_dispatchBatch (h : Coherent k) (time : TimeOk k) (batch : Batched c expired k)
    (before : k.Unprepared c) (sound : QuantumSound k c) (online : (k.cpu c).online = true)
    (running : (k.cpu c).current = some id) {Q : QuantumUpdate → Kernel → Prop}
    (post : ∀ quantum k', Coherent k' → TimeOk k' →
      Quiet c (fun token => .waitDeadlineOf token ∈ expired.items) k k' → k'.clocks = k.clocks →
      Restores c quantum k' → Q quantum k') : WP Contract (dispatchBatch c now id expired) Q k := by
  rw [dispatchBatch, wp_bind]
  refine (wp_dispatchAll h batch).mono fun _ m₁ done₁ => ?_
  rw [wp_bind, wp_cpuState, wp_bind, wp_hasRunnablePeer, wp_bind]
  have rest : ∀ m₂, Dispatched c expired k m₂ → WP Contract (do
      let online := (← cpuState c).online
      let checkpoint ← consumeCheckpointOn c online
      onlyIf (checkpoint = true) (handoffOptional c)
      let ensure ← quantumToEnsure c now
      pure ⟨if checkpoint then some (.quantumExpired c id) else none, ensure⟩) Q m₂ := by
    intro m₂ done₂
    have done : Dispatched c expired k (m₂.setPreemption c
      ((m₂.preemption c).consumeCheckpoint (m₂.cpu c).online).2) := done₂.aside .setPreemption
    rw [wp_bind, wp_cpuState, wp_bind, consumeCheckpointOn, wp_modifyGet]
    have current := done.current.trans running
    cases checkpoint : ((m₂.preemption c).consumeCheckpoint (m₂.cpu c).online).1 with
    | false =>
      refine .bind (wp_onlyIf.mpr ⟨fun never => (by cases never), fun _ => ?_⟩)
      rw [wp_bind]
      refine wp_quantumToEnsure current fun ensure requests => ?_
      exact post _ _ done.coherent (batch.time time done.quiet.toWithin done.clocks) done.quiet
        done.clocks (.of_stay sound online running done requests)
    | true =>
      refine .bind (wp_onlyIf.mpr ⟨fun _ => ?_, fun never => absurd rfl never⟩)
      refine wp_handoffOptional done.coherent (done.quiet.unprepared before) current
        fun m coherent quiet clocks selected _ => ?_
      obtain ⟨next, selected⟩ := selected
      rw [wp_bind]
      refine wp_quantumToEnsure selected fun ensure requests => ?_
      refine post _ _ coherent
        ((batch.time time done.quiet.toWithin done.clocks).keep quiet.toWithin clocks)
        (done.quiet.trans quiet.lift) (clocks.trans done.clocks) ?_
      refine .of_switch sound ?_ running selected (clocks.trans done.clocks) requests
      rw [quiet.online, done.quiet.online, online]
  exact wp_onlyIf.mpr ⟨fun _ => rest _ (done₁.aside .setPreemption), fun _ => rest _ done₁⟩

/-! ### Waking from idle -/

/-- The woken thread took over from the idle thread without passing the queue. -/
def Kernel.resumed (k : Kernel) (c : CpuId) (idle id : ThreadId) (wait : WaitMetadata) : Kernel :=
  ((k.modifyThread id.index fun t => { t with wait := wait, state := .ready }).modifyThread
    idle.index fun t => { t with state := .ready }).dispatched c id (k.cpu c)

/-- That is what waking it through the queue and switching to it gives. -/
theorem Kernel.rotated_woken {idle : ThreadId} {wait : WaitMetadata}
    {queue rest : BoundedQueue ThreadId} (same : rest = (k.cpu c).readyQueue) :
    (k.woken c id wait queue).rotated c idle id rest = k.resumed c idle id wait := by
  simp [woken, rotated, resumed, dispatched, same]

/-- What the direct wake requires of the processor and of the thread. -/
structure SoleWake (c : CpuId) (token : WaitToken) (idle : ThreadId) (t : Thread)
    (k : Kernel) : Prop where
  running : (k.cpu c).current = some idle
  idling : (k.cpu c).idle = some idle
  ready : k.ready c = []
  found : k.find token.thread = some t
  home : t.homeCpu = c
  blocked : t.state = .blocked

theorem Kernel.soleWake_true {token : WaitToken} {current : ThreadId}
    (sole : k.soleWake c current token = true) (running : (k.cpu c).current = some current) :
    ∃ t, SoleWake c token current t k := by
  simp only [soleWake, Bool.and_eq_true, decide_eq_true_eq, List.isEmpty_iff] at sole
  obtain ⟨⟨⟨⟨idle, ready⟩, _⟩, _⟩, last⟩ := sole
  cases found : k.find token.thread with
  | none => simp [found] at last
  | some t =>
    simp only [found, Bool.and_eq_true, decide_eq_true_eq] at last
    exact ⟨t, running, idle, ready, found, last.1, last.2⟩

/-- The kernel without its history. -/
def Kernel.forget (k : Kernel) : Kernel := { k with history := [] }

theorem Kernel.forget_log {event : Event} : (k.log event).forget = k.forget := rfl

theorem Aside.of_forget (same : k'.forget = k.forget) : Aside k k' := by
  cases k
  cases k'
  cases same
  exact ⟨rfl, rfl, rfl⟩

section DirectWake

variable {E : Panic → Prop} {token : WaitToken} {idle : ThreadId} {t : Thread}

/-- The wait of a sole sleeper is registered under some token. -/
theorem SoleWake.active (sole : SoleWake c token idle t k) (h : Coherent k) :
    ∃ named consumption, t.wait.active = some ⟨named, .blocked, consumption⟩ := by
  have blocked := (h.thread _ t sole.found).blocked.mp sole.blocked
  cases active : t.wait.active with
  | none => simp [WaitMetadata.isBlocked, active] at blocked
  | some w =>
    obtain ⟨named, phase, consumption⟩ := w
    cases phase with
    | blocked => exact ⟨named, consumption, rfl⟩
    | prepared | completed => simp [WaitMetadata.isBlocked, active] at blocked

theorem SoleWake.apart (sole : SoleWake c token idle t k) (h : Coherent k) :
    token.thread ≠ idle := by
  rintro rfl
  have := (h.current_status sole.running sole.found).2
  cases sole.blocked.symm.trans this

variable {Q : Option SwitchOutcome → Kernel → Prop}

/-- The direct wake is declined without a trace or ends in the resumed state. -/
theorem wp_transitionTimedWakeFromIdle (h : Coherent k)
    (declined : ∀ k', k'.forget = k.forget → Q none k')
    (taken : ∀ idle t consumption, SoleWake c token idle t k →
      t.wait.active = some ⟨token, .blocked, consumption⟩ →
      WP E (do validateAfterTransition; pure (some (.switch idle token.thread))) Q
        ((k.resumed c idle token.thread (t.wait.complete token .timeout).2).reported token
          .timeout)) :
    WP E (transitionTimedWakeFromIdle c token) Q k := by
  rw [transitionTimedWakeFromIdle, wp_bind, wp_runningThread]
  cases running : (k.cpu c).current with
  | none => exact declined k rfl
  | some current =>
    rw [wp_bind, wp_get, wp_ite]
    refine ⟨fun _ => declined k rfl, fun sole => ?_⟩
    obtain ⟨t, sole⟩ := soleWake_true (Bool.not_eq_false _ ▸ sole) running
    obtain ⟨named, consumption, active⟩ := sole.active h
    obtain ⟨u, found, status⟩ := h.find_current running
    have slot := threadAt_of_find sole.found
    rw [wp_bind, wp_assertCurrentRunning running found status, wp_bind, wp_threadWait slot, wp_bind,
      wp_record, wp_ite]
    by_cases same : named = token
    · subst same
      refine ⟨fun lost => absurd (complete_blocked active) lost, fun _ => ?_⟩
      have done := taken current t consumption sole active
      have waiting : (k.stored named .timeout t).find named.thread =
          some { t with wait := (t.wait.complete named .timeout).2 } :=
        find_modifyThread_self sole.found
      have other : (k.modifyThread named.thread.index fun t' => { t' with
          wait := (t.wait.complete named .timeout).2, state := .ready }).find current = some u := by
        rw [find_modifyThread_other sole.found (sole.apart h).symm, found]
      have resumes : ((k.modifyThread named.thread.index fun t' => { t' with
          wait := (t.wait.complete named .timeout).2, state := .ready }).modifyThread current.index
          fun t' => { t' with state := .ready }).find named.thread =
            some { t with wait := (t.wait.complete named .timeout).2, state := .ready } := by
        rw [find_modifyThread_other other (sole.apart h),
          find_modifyThread_self sole.found]
      rw [complete_blocked active]
      refine .bind ((wp_setState (t := { t with
        wait := (t.wait.complete named .timeout).2 }) ?_).mpr (.bind (wp_record.mpr ?_)))
      · exact threadAt_of_find waiting
      refine .bind ((wp_makeReadyAndQueue_idle (t := u) ?_ ?_).mpr
        (.bind ((wp_makeRunning (t := { t with
          wait := (t.wait.complete named .timeout).2, state := .ready }) ?_ rfl sole.home).mpr ?_)))
      · simpa [comp_def] using other
      · exact sole.idling
      · simpa [comp_def] using resumes
      · simpa [resumed, comp_def] using done
    · have stale : t.wait.complete token .timeout = (.stale, t.wait) := by
        simp [WaitMetadata.complete, active, same]
      rw [stale]
      refine ⟨fun _ => declined _ ?_, fun woke => absurd (by simp) woke⟩
      rw [forget_log, modifyThread_eq_self slot rfl]

variable {consumption : WaitConsumption}

/-- The thread woken through the queue. -/
theorem SoleWake.completed (sole : SoleWake c token idle t k) (h : Coherent k)
    (active : t.wait.active = some ⟨token, .blocked, consumption⟩)
    (free : ∀ other, k.joinerOf other ≠ some token) :
    ∃ queue : BoundedQueue ThreadId, queue.items = [token.thread] ∧
      queue.capacity = (k.cpu c).readyQueue.capacity ∧ Completed c token .timeout k .wokeBlocked
        (k.woken c token.thread (t.wait.complete token .timeout).2 queue) := by
  have sleeper := h.sleeper sole.found active free
  have ok := (h.thread _ t sole.found).ready_of_complete .timeout active
  have room := sleeper.ready_room h
  rw [sole.home] at room
  obtain ⟨queue, _, items, capacity⟩ := (k.cpu c).readyQueue.pushBack_of_room room token.thread
  have woken : Coherent (k.woken c token.thread (t.wait.complete token .timeout).2 queue) :=
    h.wake ⟨sole.found, sole.blocked, sole.home, rfl, rfl, ok, rfl, sleeper.free⟩ items capacity rfl
  have alone : queue.items = k.ready c ++ [token.thread] := items
  rw [sole.ready] at alone
  refine ⟨queue, alone, capacity,
    .of_update sole.found active (by simp) (find_modifyThread_eq sole.found) woken
      (Frame.modifyThread.trans (.setCpu rfl)) rfl ?_ ⟨[token.thread], ?_⟩ fun _ => ⟨rfl, rfl⟩⟩
  · rw [Kernel.woken, cpu_setCpu_self]
  · rw [ready_woken]
    exact items

/-- Both ways of waking end in a state that satisfies the invariant. -/
theorem SoleWake.resumed (sole : SoleWake c token idle t k) (h : Coherent k)
    (active : t.wait.active = some ⟨token, .blocked, consumption⟩)
    (free : ∀ other, k.joinerOf other ≠ some token) (before : k.Unprepared c) :
    Coherent (k.resumed c idle token.thread (t.wait.complete token .timeout).2) ∧
      Quiet c (· = token) k (k.resumed c idle token.thread (t.wait.complete token .timeout).2) := by
  obtain ⟨queue, items, capacity, completed⟩ := sole.completed h active free
  obtain ⟨u, found, home, state⟩ := h.find_current sole.running
  have found' := (completed.others idle (sole.apart h).symm).trans found
  obtain ⟨_, woken⟩ := completed.woke t consumption sole.found active
  have unprepared := h.unprepared before found home
  have running : ((k.woken c token.thread (t.wait.complete token .timeout).2 queue).cpu c).current =
      some idle := by
    rw [completed.cpu]
    exact sole.running
  have head : (k.woken c token.thread (t.wait.complete token .timeout).2 queue).ready c =
      token.thread :: [] := by
    rw [ready_woken, items]
  have shape : (k.woken c token.thread (t.wait.complete token .timeout).2 queue).rotated c idle
      token.thread (k.cpu c).readyQueue = k.resumed c idle token.thread _ := rotated_woken rfl
  rw [← shape]
  refine ⟨completed.coherent.rotate running found' rfl rfl unprepared head rfl ?_ (Or.inr ⟨?_, ?_⟩),
    completed.quiet.trans (.rotated found' woken (sole.apart h))⟩
  · rw [Kernel.woken, cpu_setCpu_self]
    exact capacity.symm
  · rw [completed.cpu]
    exact sole.idling
  · exact sole.ready

theorem wp_directWake (h : Coherent k) (batch : Batched c expired k) (before : k.Unprepared c)
    (declined : ∀ k', Aside k k' → Q none k')
    (taken : ∀ idle id u k', (k.cpu c).current = some idle → k.ready c = [] → Coherent k' →
      Quiet c (fun token => .waitDeadlineOf token ∈ expired.items) k k' → k'.clocks = k.clocks →
      k'.ready c = [] → k'.find id = some u → Q (some (.switch idle id)) k') :
    WP Contract (directWake c expired) Q k := by
  rw [directWake]
  cases single : expired.single with
  | none => exact declined k ⟨rfl, rfl, rfl⟩
  | some event =>
    have member : event ∈ expired.items := by
      rw [ExpiredEvents.single] at single
      split at single
      · next items =>
        cases single
        simp [items]
      · cases single
    cases event with
    | quantumExpired owner id => exact declined k ⟨rfl, rfl, rfl⟩
    | waitDeadline owner token =>
      obtain ⟨rfl, home, unjoined⟩ := batch.wait owner token member
      rw [wp_bind, wp_stopIf]
      refine ⟨fun away => absurd away (by simp [home]), fun _ => ?_⟩
      rw [wp_bind, wp_get, wp_ite]
      refine ⟨fun _ => declined k ⟨rfl, rfl, rfl⟩, fun _ => ?_⟩
      refine wp_transitionTimedWakeFromIdle h (fun k' same => declined k' (.of_forget same)) ?_
      intro idle t consumption sole active
      obtain ⟨coherent, quiet⟩ := sole.resumed h active unjoined before
      have ended : ∀ named, named = token → .waitDeadlineOf named ∈ expired.items := by
        rintro _ rfl
        rwa [TimedEvent.waitDeadlineOf, home]
      have running : ((k.resumed owner idle token.thread (t.wait.complete token .timeout).2).cpu
          owner).current = some token.thread := by
        rw [resumed, cpu_dispatched, if_pos rfl]
      obtain ⟨u, found, _⟩ := coherent.find_current running
      rw [wp_bind, ((coherent.log _).log _).wp_validateAfterTransition]
      refine taken idle token.thread u _ sole.running sole.ready ((coherent.log _).log _)
        ((quiet.mono ended).trans (.trans .log .log)) rfl ?_ found
      rw [ready, cpu_log, cpu_log, resumed, cpu_dispatched,
        if_pos rfl]
      exact sole.ready

/-- The scheduler's part of a timer interrupt. -/
theorem wp_finishTimerInterrupt {now : Nat} (h : Coherent k) (time : TimeOk k)
    (batch : Batched c expired k) (before : k.Unprepared c) (sound : QuantumSound k c)
    (online : (k.cpu c).online = true) {Q : QuantumUpdate → Kernel → Prop}
    (post : ∀ quantum k', Coherent k' → TimeOk k' →
      Quiet c (fun token => .waitDeadlineOf token ∈ expired.items) k k' → k'.clocks = k.clocks →
      Restores c quantum k' → Q quantum k') :
    WP Contract (finishTimerInterrupt c now expired) Q k := by
  rw [finishTimerInterrupt, wp_bind]
  refine (wp_finalizeRetired (.silent k.clocks) h ⟨time, rfl⟩).mono fun _ k₁ done => ?_
  obtain ⟨finalized, time₁, clocks₁⟩ := done
  have current₁ : (k₁.cpu c).current = (k.cpu c).current := by rw [finalized.cpu]
  have online₁ : (k₁.cpu c).online = true := by rw [finalized.quiet.online, online]
  have batch₁ := batch.carry clocks₁ finalized.quiet.joined
  have sound₁ := sound.carry clocks₁ current₁ finalized.ready
  have before₁ := finalized.quiet.unprepared before
  have lifted : Quiet c (fun token => .waitDeadlineOf token ∈ expired.items) k k₁ :=
    finalized.quiet.lift
  rw [wp_bind, wp_cpuState, wp_ite]
  refine ⟨fun off => absurd online₁ (by simp [off]), fun _ => ?_⟩
  cases running : (k₁.cpu c).current with
  | none => exact absurd running ((finalized.coherent.cpu c).initialized.mp
      ((finalized.coherent.cpu c).online online₁))
  | some current =>
    rw [wp_bind]
    refine wp_directWake finalized.coherent batch₁ before₁ (fun k₂ same => ?_) ?_
    · have aside : Calm c k₁ k₂ := same.quiet
      refine wp_dispatchBatch (finalized.coherent.congr same.scheduler)
        (time₁.keep aside.toWithin same.clocks) (batch₁.carry same.clocks fun id token joined => ?_)
        (aside.unprepared before₁) (sound₁.carry same.clocks (by rw [same.cpu]) ⟨[], ?_⟩)
        (by rw [same.cpu, online₁]) (by rw [same.cpu, running]) ?_
      · rwa [joinerOf_congr same.scheduler] at joined
      · rw [List.append_nil, ready, same.cpu, ready]
      · intro quantum k' coherent time' quiet clocks restores
        exact post quantum k' coherent time' ((lifted.trans same.quiet).trans quiet)
          ((clocks.trans same.clocks).trans clocks₁) restores
    · intro idle id u k₂ _ empty coherent₂ quiet₂ clocks₂ ready₂ found₂
      rw [wp_bind, consumeCheckpointOn, wp_modifyGet, wp_bind]
      change WP Contract (activateThreadAddressSpace c id) _
        (k₂.setPreemption c ((k₂.preemption c).consumeCheckpoint true).2)
      refine wp_activateThreadAddressSpace (t := u) ?_ fun k₃ same => ?_
      · exact found₂
      have rest : Aside k₂ k₃ := Aside.trans .setPreemption same
      have quiet₃ := quiet₂.trans rest.quiet
      have clocks₃ := rest.clocks.trans clocks₂
      refine post ⟨none, none⟩ k₃ (coherent₂.congr rest.scheduler)
        (batch₁.time time₁ quiet₃.toWithin clocks₃) (lifted.trans quiet₃) (clocks₃.trans clocks₁)
        ⟨fun _ none => (by cases none), fun _ _ none => (by cases none), fun other => ?_⟩
      have ready₃ : k₃.ready c = [] := by rw [ready, rest.cpu, ← ready, ready₂]
      rw [QuantumUpdate.Applied, events_congr clocks₃, ready₃]
      refine ⟨?_, fun needed => absurd rfl needed.2.2⟩
      rintro (⟨member, _⟩ | ⟨_, none⟩)
      · exact absurd empty (sound₁ other member).2
      · cases none

end DirectWake

end Genrt
