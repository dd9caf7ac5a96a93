import Genrt.Foundation.Machine
import Genrt.Time.State

/-!
# The deadline queue as a finite map

A deadline queue stands for a finite map from events to deadlines. The abstract
operations are those of the map: scheduling sets one value, cancelling removes
one and says whether it was there, and an expiry removes every deadline that has
passed and lists their events in the order of the queue.

The refinement is over whole runs of one processor's time state. A run that does
not halt answers as the map does and ends in a queue that represents the map; the
kernel halts only on a new event in a full queue or on an expired event that
belongs to another processor.
-/

namespace Genrt

open Effect Function TimeState

/-- What a deadline queue stands for. -/
abbrev DeadlineMap := TimedEvent → Option Nat

inductive QueueOp where
  | schedule (deadline : Nat) (event : TimedEvent)
  | cancel (event : TimedEvent)
  | takeExpired (now : Nat)
deriving DecidableEq, Repr

inductive QueueAnswer where
  | scheduled
  | canceled (present : Bool)
  | expired (events : List TimedEvent)
deriving DecidableEq, Repr

/-! ### The abstract operations -/

namespace DeadlineMap

def Expired (map : DeadlineMap) (now : Nat) (event : TimedEvent) : Prop :=
  ∃ deadline, map event = some deadline ∧ deadline ≤ now

/-- The map without the deadlines that have passed. -/
def expire (map : DeadlineMap) (now : Nat) : DeadlineMap := fun event =>
  (map event).filter (fun deadline => now < deadline)

/-- The second event does not come before the first by deadline and sort key. -/
def InOrder (map : DeadlineMap) (first second : TimedEvent) : Prop :=
  ∀ deadline later, map first = some deadline → map second = some later →
    DeadlineEntry.less ⟨later, second⟩ ⟨deadline, first⟩ = false

/-- All expired events, each once and in order. -/
structure Batch (map : DeadlineMap) (now : Nat) (events : List TimedEvent) : Prop where
  exactly (event : TimedEvent) : event ∈ events ↔ map.Expired now event
  distinct : events.Nodup
  ordered : events.Pairwise map.InOrder

/-- What an operation answers and makes of the map. -/
inductive Step (map : DeadlineMap) : QueueOp → QueueAnswer → DeadlineMap → Prop where
  | schedule (deadline : Nat) (event : TimedEvent) :
      Step map (.schedule deadline event) .scheduled (update map event (some deadline))
  | cancel (event : TimedEvent) :
      Step map (.cancel event) (.canceled (map event).isSome) (update map event none)
  | takeExpired (now : Nat) {events : List TimedEvent} (batch : map.Batch now events) :
      Step map (.takeExpired now) (.expired events) (map.expire now)

/-- The map has `count` events. -/
def Holds (map : DeadlineMap) (count : Nat) : Prop :=
  ∃ events : List TimedEvent, events.Nodup ∧ events.length = count ∧
    ∀ event, event ∈ events ↔ map event ≠ none

/-- The operations that halt the kernel. -/
inductive Halts (map : DeadlineMap) (capacity : Nat) (cpu : CpuId) : QueueOp → Panic → Prop where
  | full {deadline : Nat} {event : TimedEvent} (absent : map event = none)
      (full : map.Holds capacity) : Halts map capacity cpu (.schedule deadline event)
        .deadlineQueueFull
  | foreign {now : Nat} {event : TimedEvent} (expired : map.Expired now event)
      (other : event.cpu ≠ cpu) : Halts map capacity cpu (.takeExpired now) .expiredEventOfOtherCpu

/-- The map after a log of operations and answers, newest first. -/
inductive Run : List (QueueOp × QueueAnswer) → DeadlineMap → Prop where
  | nil : Run [] (fun _ => none)
  | cons {log : List (QueueOp × QueueAnswer)} {map next : DeadlineMap} {op : QueueOp}
      {answer : QueueAnswer} (before : Run log map) (step : map.Step op answer next) :
      Run ((op, answer) :: log) next

variable {event : TimedEvent}

theorem expire_update_none {map : DeadlineMap} {now : Nat} (expired : map.Expired now event) :
    expire (update map event none) now = map.expire now := by
  obtain ⟨deadline, found, passed⟩ := expired
  funext other
  by_cases same : other = event
  · subst same
    have gone : Option.filter (fun deadline => decide (now < deadline)) (some deadline) = none := by
      simpa using passed
    simp [expire, found, gone]
  · simp [expire, update_of_ne same]

theorem expire_eq_none_iff {map : DeadlineMap} {now : Nat} :
    map.expire now event = none ↔ map event = none ∨ map.Expired now event := by
  unfold expire Expired
  cases map event <;> simp

theorem expired_update_none {map : DeadlineMap} {now : Nat} {other : TimedEvent} :
    Expired (update map event none) now other ↔ other ≠ event ∧ map.Expired now other := by
  unfold Expired
  by_cases same : other = event
  · subst same
    simp
  · simp [same]

/-- An event that nothing precedes goes in front of the batch of the others. -/
theorem Batch.cons {map : DeadlineMap} {now : Nat} {events : List TimedEvent}
    (rest : Batch (update map event none) now events) (expired : map.Expired now event)
    (first : ∀ other, map.InOrder event other) : map.Batch now (event :: events) where
  exactly other := by
    rw [List.mem_cons, rest.exactly other, expired_update_none]
    constructor
    · rintro (rfl | ⟨_, later⟩)
      · exact expired
      · exact later
    · intro later
      by_cases same : other = event
      · exact .inl same
      · exact .inr ⟨same, later⟩
  distinct := by
    refine List.nodup_cons.mpr ⟨fun member => ?_, rest.distinct⟩
    exact (expired_update_none.mp ((rest.exactly event).mp member)).1 rfl
  ordered := by
    refine List.pairwise_cons.mpr ⟨fun other _ => first other, ?_⟩
    refine rest.ordered.imp_of_mem fun {a b} memberA memberB ordered deadline later atA atB => ?_
    have apartA := (expired_update_none.mp ((rest.exactly a).mp memberA)).1
    have apartB := (expired_update_none.mp ((rest.exactly b).mp memberB)).1
    refine ordered deadline later ?_ ?_
    · rwa [update_of_ne apartA]
    · rwa [update_of_ne apartB]

end DeadlineMap

/-! ### Queues that represent a map -/

namespace DeadlineQueue

/-- A well-formed queue whose entries are those of the map. -/
structure Represents (q : DeadlineQueue) (map : DeadlineMap) : Prop where
  wellFormed : q.WellFormed
  entry (event : TimedEvent) (deadline : Nat) :
    map event = some deadline ↔ ⟨deadline, event⟩ ∈ q.entries

variable {q next : DeadlineQueue} {map : DeadlineMap} {event : TimedEvent} {deadline : Nat}

/-- A well-formed queue is the map that its entries list. -/
theorem WellFormed.represents (wf : q.WellFormed) :
    q.Represents fun event => (q.entries.find? (·.event = event)).map (·.deadline) := by
  refine ⟨wf, fun event deadline => ?_⟩
  rw [Option.map_eq_some_iff]
  constructor
  · rintro ⟨entry, found, rfl⟩
    have same : entry.event = event := by simpa using List.find?_some found
    exact same ▸ List.mem_of_find?_eq_some found
  · intro member
    cases found : q.entries.find? (·.event = event) with
    | none => exact absurd (List.find?_eq_none.mp found _ member) (by simp)
    | some entry =>
      have same : entry.event = event := by simpa using List.find?_some found
      have listed := List.mem_of_find?_eq_some found
      exact ⟨entry, rfl, by rw [List.inj_on_of_nodup_map wf.distinct listed member same]⟩

section

variable (rep : q.Represents map)

include rep

theorem Represents.absent_iff : map event = none ↔ event ∉ q.events := by
  rw [Option.eq_none_iff_forall_ne_some]
  constructor
  · intro absent member
    obtain ⟨⟨deadline, _⟩, present, rfl⟩ := List.mem_map.mp member
    exact absent deadline ((rep.entry _ deadline).mpr present)
  · intro absent deadline found
    exact absent (List.mem_map.mpr ⟨_, (rep.entry event deadline).mp found, rfl⟩)

theorem Represents.holds : map.Holds q.entries.length := by
  refine ⟨q.events, rep.wellFormed.distinct, List.length_map _, fun event => ?_⟩
  rw [ne_eq, rep.absent_iff, not_not]

theorem Represents.of_perm_cons (wf : next.WellFormed)
    (perm : next.entries.Perm (⟨deadline, event⟩ :: q.others event)) :
    next.Represents (update map event (some deadline)) := by
  refine ⟨wf, fun other value => ?_⟩
  rw [perm.mem_iff, List.mem_cons, mem_others, ← rep.entry]
  by_cases same : other = event
  · subst same
    simp [eq_comm]
  · simp [same]

theorem Represents.of_perm_others (wf : next.WellFormed)
    (perm : next.entries.Perm (q.others event)) : next.Represents (update map event none) := by
  refine ⟨wf, fun other value => ?_⟩
  rw [perm.mem_iff, mem_others, ← rep.entry]
  by_cases same : other = event
  · subst same
    simp
  · simp [same]

/-- Scheduling sets one value of the map, unless a new event meets a full queue. -/
theorem Represents.schedule (fits : q.entries.length ≤ q.capacity) (deadline : Nat)
    (event : TimedEvent) :
    (q.schedule deadline event = .error .deadlineQueueFull ∧ map event = none ∧
      map.Holds q.capacity) ∨ ∃ next, q.schedule deadline event = .ok next ∧
      next.Represents (update map event (some deadline)) ∧
      next.capacity = q.capacity ∧ next.entries.length ≤ q.capacity := by
  by_cases stuck : event ∉ q.events ∧ q.entries.length = q.capacity
  · obtain ⟨absent, full⟩ := stuck
    exact .inl ⟨schedule_full absent full, rep.absent_iff.mpr absent, full ▸ rep.holds⟩
  · obtain ⟨next, run, wf, capacity, perm⟩ :=
      rep.wellFormed.schedule deadline fun absent same => stuck ⟨absent, same⟩
    refine .inr ⟨next, run, rep.of_perm_cons wf perm, capacity, ?_⟩
    have length := perm.length_eq
    rw [List.length_cons] at length
    by_cases absent : event ∉ q.events
    · have room : q.entries.length ≠ q.capacity := fun full => stuck ⟨absent, full⟩
      rw [others_of_not_mem absent] at length
      omega
    · obtain ⟨⟨old, _⟩, member, rfl⟩ := List.mem_map.mp (not_not.mp absent)
      have whole := (rep.wellFormed.perm_others member).length_eq
      rw [List.length_cons] at whole
      omega

theorem Represents.cancel_length : (q.cancel event).2.entries.length ≤ q.entries.length := by
  obtain ⟨_, _, perm⟩ := rep.wellFormed.cancel event
  rw [perm.length_eq]
  exact List.length_filter_le _ _

theorem Represents.cancel_answer : (q.cancel event).1 = (map event).isSome := by
  cases found : map event with
  | none => exact cancel_eq_false_iff.mpr (rep.absent_iff.mp found)
  | some deadline =>
    refine Bool.not_eq_false _ ▸ fun missing => ?_
    have absent := rep.absent_iff.mpr (cancel_eq_false_iff.mp missing)
    rw [found] at absent
    cases absent

end

variable {now : Nat}

/-- The popped event is expired and precedes every other. -/
theorem Represents.popExpired_some (rep : q.Represents map)
    (popped : q.popExpired now = some (event, next)) :
    next.Represents (update map event none) ∧ map.Expired now event ∧
      ∀ other, map.InOrder event other := by
  obtain ⟨wf, _, perm, deadline, member, passed⟩ := rep.wellFormed.popExpired_some popped
  have found := (rep.entry event deadline).mpr member
  refine ⟨rep.of_perm_others wf perm, ⟨deadline, found, passed⟩, fun other first later at_event
    at_other => ?_⟩
  obtain rfl : deadline = first := Option.mem_unique found at_event
  unfold popExpired at popped
  cases shape : q.entries.head? with
  | none => simp [shape] at popped
  | some top =>
    simp only [shape] at popped
    split at popped
    · cases popped
    · cases popped
      have head : q.entries[0]? = some top := by rwa [← List.head?_eq_getElem?]
      obtain ⟨index, present⟩ := List.getElem?_of_mem ((rep.entry other later).mp at_other)
      have same : top.deadline = deadline := by
        have mine := (rep.entry top.event top.deadline).mpr (List.mem_of_getElem? head)
        exact Option.mem_unique mine found
      have least := rep.wellFormed.ordered.root_le DeadlineEntry.less_strictWeak head present
      rwa [← same]

theorem Represents.popExpired_none (rep : q.Represents map) (stop : q.popExpired now = none) :
    map.Batch now [] ∧ map.expire now = map := by
  have waiting : ∀ event deadline, map event = some deadline → now < deadline :=
    fun event deadline found => rep.wellFormed.popExpired_none stop ((rep.entry _ _).mp found)
  refine ⟨⟨fun event => ?_, List.nodup_nil, List.Pairwise.nil⟩, ?_⟩
  · refine iff_of_false List.not_mem_nil ?_
    rintro ⟨deadline, found, passed⟩
    have := waiting event deadline found
    omega
  · funext event
    cases found : map event with
    | none => simp [DeadlineMap.expire, found]
    | some deadline => simp [DeadlineMap.expire, found, waiting event deadline found]

theorem WellFormed.popExpired_length (wf : q.WellFormed)
    (popped : q.popExpired now = some (event, next)) :
    next.entries.length + 1 = q.entries.length ∧ next.capacity = q.capacity := by
  obtain ⟨_, capacity, perm, deadline, member, _⟩ := wf.popExpired_some popped
  have whole := (wf.perm_others member).length_eq
  rw [List.length_cons, ← perm.length_eq] at whole
  exact ⟨whole.symm, capacity⟩

theorem Represents.nextDeadline_iff (rep : q.Represents map) (deadline : Nat) :
    q.nextDeadline = some deadline ↔ IsLeast {d | ∃ event, map event = some d} deadline := by
  constructor
  · intro head
    cases shape : q.entries with
    | nil => simp [nextDeadline, shape] at head
    | cons top rest =>
      obtain rfl : top.deadline = deadline := by simpa [nextDeadline, shape] using head
      refine ⟨⟨top.event, (rep.entry _ _).mpr (by simp [shape])⟩, ?_⟩
      rintro other ⟨event, found⟩
      obtain ⟨first, found_first, le⟩ :=
        rep.wellFormed.nextDeadline_le ((rep.entry _ _).mp found)
      obtain rfl := Option.mem_unique head found_first
      exact le
  · rintro ⟨⟨event, found⟩, least⟩
    obtain ⟨first, head, le⟩ := rep.wellFormed.nextDeadline_le ((rep.entry _ _).mp found)
    obtain ⟨top, top_mem, rfl⟩ : ∃ top ∈ q.entries, top.deadline = first := by
      cases shape : q.entries with
      | nil => simp [nextDeadline, shape] at head
      | cons top rest => exact ⟨top, by simp, by simpa [nextDeadline, shape] using head⟩
    have back := least ⟨top.event, (rep.entry _ _).mpr top_mem⟩
    rw [head, Nat.le_antisymm le back]

end DeadlineQueue

/-! ### Runs of one processor's time state -/

namespace TimeState

open DeadlineQueue

/-- The pops of a dispatch collect the batch, or meet an event of another
processor. -/
theorem popExpiredLoop_collects {cpu : CpuId} {now : Nat} (fuel : Nat) {q : DeadlineQueue}
    {map : DeadlineMap} (rep : q.Represents map) (enough : q.entries.length ≤ fuel)
    (buffer : ExpiredEvents) (room : buffer.items.length + q.entries.length ≤ buffer.capacity) :
    match popExpiredLoop cpu now fuel q buffer with
    | .error panic => panic = .expiredEventOfOtherCpu ∧
        ∃ event, map.Expired now event ∧ event.cpu ≠ cpu
    | .ok (rest, expired) => ∃ events, expired.items = buffer.items ++ events ∧
        expired.capacity = buffer.capacity ∧ map.Batch now events ∧
        rest.Represents (map.expire now) ∧ rest.capacity = q.capacity ∧
        rest.entries.length ≤ q.entries.length := by
  induction fuel generalizing q map buffer with
  | zero =>
    have empty : q.entries = [] := List.length_eq_zero_iff.mp (Nat.le_zero.mp enough)
    have stop : q.popExpired now = none := by simp [popExpired, empty]
    obtain ⟨batch, same⟩ := rep.popExpired_none stop
    exact ⟨[], by simp, rfl, batch, same.symm ▸ rep, rfl, le_rfl⟩
  | succ fuel ih =>
    rw [popExpiredLoop]
    cases popped : q.popExpired now with
    | none =>
      obtain ⟨batch, same⟩ := rep.popExpired_none popped
      exact ⟨[], by simp, rfl, batch, same.symm ▸ rep, rfl, le_rfl⟩
    | some outcome =>
      obtain ⟨event, rest⟩ := outcome
      obtain ⟨rest_rep, expired, first⟩ := rep.popExpired_some popped
      obtain ⟨shorter, capacity⟩ := rep.wellFormed.popExpired_length popped
      by_cases other : event.cpu ≠ cpu
      · simp only [if_pos other]
        exact ⟨trivial, event, expired, other⟩
      · have roomy : buffer.items.length < buffer.capacity := by omega
        obtain ⟨pushed, push, items, same_capacity⟩ :=
          BoundedQueue.pushBack_of_room roomy event
        have rounds := ih rest_rep (by omega) pushed (by
          rw [items, same_capacity, List.length_append, List.length_singleton]
          omega)
        simp only [if_neg other, push]
        cases run : popExpiredLoop cpu now fuel rest pushed with
        | error panic =>
          rw [run] at rounds
          obtain ⟨rfl, later, late, elsewhere⟩ := rounds
          exact ⟨rfl, later, (DeadlineMap.expired_update_none.mp late).2, elsewhere⟩
        | ok result =>
          rw [run] at rounds
          obtain ⟨events, collected, kept, batch, represented, cap, length⟩ := rounds
          refine ⟨event :: events, ?_, kept.trans same_capacity, batch.cons expired first,
            ?_, cap.trans capacity, by omega⟩
          · rw [collected, items, List.append_assoc, List.singleton_append]
          · rwa [DeadlineMap.expire_update_none expired] at represented

end TimeState

/-- Perform an operation inside the time lock. An expiry is a timer dispatch
that leaves the quantum alone. -/
def QueueOp.perform (cpu : CpuId) : QueueOp → CellM QueueAnswer
  | .schedule deadline event => do
      scheduleEvent deadline event
      pure .scheduled
  | .cancel event => do
      let canceled ← cancelEvent event true
      pure (.canceled canceled)
  | .takeExpired now => do
      let expired ← TimeState.takeExpired cpu now
      finishDispatch ⟨none, none⟩ expired
      pure (.expired expired.items)

/-- The cell's queue represents the map within its reservation, and the transfer
buffer is at home and empty. -/
structure TimeCell.Sound (cell : TimeCell) (capacity : Nat) (map : DeadlineMap) : Prop where
  represents : cell.state.queue.Represents map
  reserved : cell.state.queue.capacity = capacity
  fits : cell.state.queue.entries.length ≤ capacity
  buffer : ∃ buffer, cell.state.expired = some buffer ∧ buffer.items = [] ∧
    buffer.capacity = capacity

namespace QueueOp

variable {cpu : CpuId} {capacity : Nat} {map : DeadlineMap} {cell : TimeCell}

/-- An operation does what the map does, or halts for a reason the map shows. -/
def Simulates (cpu : CpuId) (capacity : Nat) (map : DeadlineMap) (op : QueueOp) (cell : TimeCell) :
    Prop :=
  WP (map.Halts capacity cpu op) (op.perform cpu)
    (fun answer after => ∃ next, map.Step op answer next ∧ after.Sound capacity next) cell

theorem simulates_schedule (sound : cell.Sound capacity map) (deadline : Nat)
    (event : TimedEvent) : Simulates cpu capacity map (.schedule deadline event) cell := by
  obtain ⟨rep, rfl, fits, buffer⟩ := sound
  rw [Simulates, perform, wp_bind]
  simp only [WP, scheduleEvent]
  rcases rep.schedule fits deadline event with ⟨run, absent, full⟩ | ⟨next, run, rep', same, fits'⟩
  · rw [run]
    exact .full absent full
  · rw [run]
    exact ⟨_, .schedule deadline event, rep', same, fits', buffer⟩

theorem simulates_cancel (sound : cell.Sound capacity map) (event : TimedEvent) :
    Simulates cpu capacity map (.cancel event) cell := by
  obtain ⟨rep, rfl, fits, buffer⟩ := sound
  obtain ⟨wf, same, perm⟩ := rep.wellFormed.cancel event
  have sound' : TimeCell.Sound
      { cell with state := { cell.state with queue := (cell.state.queue.cancel event).2 } }
      cell.state.queue.capacity (update map event none) :=
    ⟨rep.of_perm_others wf perm, same, Nat.le_trans rep.cancel_length fits, buffer⟩
  have answered : map.Step (.cancel event) (.canceled (cell.state.queue.cancel event).1)
      (update map event none) := by
    rw [rep.cancel_answer]
    exact .cancel event
  simp only [Simulates, perform, wp_bind, cancelEvent, wp_get, wp_set, wp_pure,
    wp_onlyIf, wp_rearmUnlessDispatching, wp_rearmTimer]
  exact ⟨fun _ => ⟨fun _ => ⟨_, answered, sound'.represents, sound'.reserved, sound'.fits,
    sound'.buffer⟩, fun _ => ⟨_, answered, sound'⟩⟩, fun _ => ⟨_, answered, sound'⟩⟩

theorem simulates_takeExpired (sound : cell.Sound capacity map) (now : Nat) :
    Simulates cpu capacity map (.takeExpired now) cell := by
  obtain ⟨rep, rfl, fits, buffer, home, items, reserved⟩ := sound
  have room : buffer.items.length + cell.state.queue.entries.length ≤ buffer.capacity := by
    rw [items, reserved]
    simpa using fits
  have rounds := @TimeState.popExpiredLoop_collects cpu now _ _ _ rep le_rfl buffer room
  simp only [Simulates, perform, wp_bind]
  simp only [WP, TimeState.takeExpired, home]
  cases run : TimeState.popExpiredLoop cpu now cell.state.queue.entries.length cell.state.queue
      buffer with
  | error panic =>
    rw [run] at rounds
    obtain ⟨rfl, event, expired, other⟩ := rounds
    exact .foreign expired other
  | ok result =>
    rw [run] at rounds
    obtain ⟨events, collected, kept, batch, represented, same, length⟩ := rounds
    rw [items, List.nil_append] at collected
    refine ⟨map.expire now, ?_, ?_⟩
    · rw [collected]
      exact .takeExpired now batch
    · exact ⟨represented, same, Nat.le_trans length fits,
        _, rfl, rfl, kept.trans reserved⟩

theorem simulates (op : QueueOp) (sound : cell.Sound capacity map) :
    Simulates cpu capacity map op cell := by
  cases op with
  | schedule deadline event => exact simulates_schedule sound deadline event
  | cancel event => exact simulates_cancel sound event
  | takeExpired now => exact simulates_takeExpired sound now

end QueueOp

/-- A time state and the log of what was performed on it, newest first. -/
structure QueueRun where
  cell : TimeCell
  log : List (QueueOp × QueueAnswer)

namespace QueueRun

def move (cpu : CpuId) (s : QueueRun) (op : QueueOp) : Except Panic (Option QueueRun) :=
  match op.perform cpu s.cell with
  | .error panic => .error panic
  | .ok (answer, cell) => .ok (some ⟨cell, (op, answer) :: s.log⟩)

/-- Any sequence of operations on the queue that boot reserves. -/
def machine (cpu : CpuId) (capacity : Nat) : Machine QueueRun QueueOp where
  initial s := s.cell.state = tryNew capacity ∧ s.log = []
  step s op t := move cpu s op = .ok (some t)

/-- The log is a run of a map that the queue represents. -/
def Refines (capacity : Nat) (s : QueueRun) : Prop :=
  ∃ map, DeadlineMap.Run s.log map ∧ s.cell.Sound capacity map

variable {cpu : CpuId} {capacity : Nat}

variable {s : QueueRun}

theorem refines_of_initial (start : (machine cpu capacity).initial s) : s.Refines capacity := by
  obtain ⟨⟨state, timer⟩, log⟩ := s
  obtain ⟨rfl, rfl⟩ := start
  refine ⟨_, .nil, ⟨DeadlineQueue.wellFormed_tryWithCapacity capacity, fun event deadline => ?_⟩,
    rfl, Nat.zero_le _, _, rfl, rfl, rfl⟩
  simp [tryNew, DeadlineQueue.tryWithCapacity]

theorem refines_step {t : QueueRun} {op : QueueOp} (refines : s.Refines capacity)
    (taken : (machine cpu capacity).step s op t) : t.Refines capacity := by
  obtain ⟨map, log, sound⟩ := refines
  have simulated : QueueOp.Simulates cpu capacity map op s.cell := op.simulates sound
  simp only [machine, move] at taken
  unfold QueueOp.Simulates WP at simulated
  cases run : op.perform cpu s.cell with
  | error panic => simp [run] at taken
  | ok outcome =>
    rw [run] at simulated taken
    cases taken
    obtain ⟨next, step, sound'⟩ := simulated
    exact ⟨next, log.cons step, sound'⟩

theorem refines_of_reachable (reached : (machine cpu capacity).Reachable s) : s.Refines capacity :=
  reached.invariant (fun _ => refines_of_initial) fun _ _ _ _ => refines_step

/-- The deadline queue refines a finite map. After every sequence of operations
the entries are in heap order and name distinct events, the answers given are
those of a map whose entries are the queue's, the next deadline is the map's
least one, and an operation that halts is one that cannot be served. -/
theorem deadline_queue_refines_map (cpu : CpuId) (capacity : Nat) (s : QueueRun)
    (reached : (machine cpu capacity).Reachable s) :
    ∃ map : DeadlineMap, DeadlineMap.Run s.log map ∧
      Heap.Ordered DeadlineEntry.less s.cell.state.queue.entries ∧
      (s.cell.state.queue.entries.map DeadlineEntry.event).Nodup ∧ (∀ event deadline,
        map event = some deadline ↔ ⟨deadline, event⟩ ∈ s.cell.state.queue.entries) ∧
      (∀ deadline, s.cell.state.queue.nextDeadline = some deadline ↔
        IsLeast {d | ∃ event, map event = some d} deadline) ∧
      ∀ op panic, op.perform cpu s.cell = .error panic → map.Halts capacity cpu op panic := by
  obtain ⟨map, log, sound⟩ := refines_of_reachable reached
  refine ⟨map, log, sound.represents.wellFormed.ordered, sound.represents.wellFormed.distinct,
    sound.represents.entry, sound.represents.nextDeadline_iff, fun op panic halted => ?_⟩
  have simulated : QueueOp.Simulates cpu capacity map op s.cell := op.simulates sound
  unfold QueueOp.Simulates WP at simulated
  rwa [halted] at simulated

/-- The second of two quanta is moved before the first, then both expire. -/
theorem deadline_queue_refines_map_moved : ∃ s : QueueRun, s.log.head? = some (.takeExpired 7,
        .expired [.quantumExpired 0 ⟨2, 1⟩, .quantumExpired 0 ⟨1, 1⟩]) ∧
      ∃ map : DeadlineMap, DeadlineMap.Run s.log map ∧ ∀ event deadline,
          map event = some deadline ↔ ⟨deadline, event⟩ ∈ s.cell.state.queue.entries := by
  let first : QueueRun := ⟨⟨.tryNew 4, ⟨none, id, 0⟩⟩, []⟩
  let early : TimedEvent := .quantumExpired 0 ⟨1, 1⟩
  let late : TimedEvent := .quantumExpired 0 ⟨2, 1⟩
  have start : (machine 0 4).initial first := ⟨rfl, rfl⟩
  have moves : ∀ s op t, move 0 s op = .ok (some t) → (machine 0 4).step s op t :=
    fun _ _ _ taken => taken
  obtain ⟨s, reached, shown⟩ := Machine.exists_executed moves start
    [.schedule 5 early, .schedule 9 late, .schedule 3 late, .takeExpired 7]
    (fun s => s.log.head? = some (.takeExpired 7, .expired [late, early])) (by decide +kernel)
  obtain ⟨map, log, _, _, entries, _⟩ := deadline_queue_refines_map 0 4 s reached
  exact ⟨s, of_decide_eq_true shown, map, log, entries⟩

end QueueRun

end Genrt
