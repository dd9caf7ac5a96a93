import Genrt.Foundation.Heap
import Genrt.Sched.Wait

/-!
# The deadline queue of one processor

Timed events are kept in a binary heap ordered by deadline and, among equal
deadlines, by a key that tells events apart. An event is queued at most once:
scheduling a queued event moves it to its new deadline. The storage is reserved
at boot, so inserting into a full queue halts the kernel.

The specification reads the queue as a finite map from events to deadlines.
Scheduling replaces one entry, cancelling removes one, and the entry returned by
the timer is one of the earliest.
-/

namespace Genrt

open Function

/-- The exact identity of a queued deadline. -/
inductive TimedEvent where
  | waitDeadline (cpu : CpuId) (token : WaitToken)
  | quantumExpired (cpu : CpuId) (thread : ThreadId)
deriving DecidableEq, Repr

namespace TimedEvent

/-- The deadline event of a wait, owned by the waiter's home processor. -/
def waitDeadlineOf (token : WaitToken) : TimedEvent := .waitDeadline token.cpu token

def cpu : TimedEvent → CpuId
  | .waitDeadline cpu _ => cpu
  | .quantumExpired cpu _ => cpu

def sortKey : TimedEvent → Nat × Nat × Nat × Nat
  | .waitDeadline _ token => (0, token.thread.index, token.thread.generation, token.sequence)
  | .quantumExpired _ thread => (1, thread.index, thread.generation, 0)

/-- Lexicographic order of two sort keys. -/
def keyLess (a b : Nat × Nat × Nat × Nat) : Bool :=
  a.1 < b.1 || (a.1 == b.1 && (a.2.1 < b.2.1 || (a.2.1 == b.2.1 &&
    (a.2.2.1 < b.2.2.1 || (a.2.2.1 == b.2.2.1 && a.2.2.2 < b.2.2.2)))))

end TimedEvent

structure DeadlineEntry where
  deadline : Nat
  event : TimedEvent
deriving DecidableEq, Repr

def DeadlineEntry.less (left right : DeadlineEntry) : Bool :=
  left.deadline < right.deadline ||
    (left.deadline == right.deadline &&
      TimedEvent.keyLess left.event.sortKey right.event.sortKey)

theorem DeadlineEntry.less_strictWeak : Heap.StrictWeak DeadlineEntry.less where
  asymm a b h := by
    simp only [less, TimedEvent.keyLess, Bool.or_eq_true, Bool.and_eq_true, decide_eq_true_eq,
      beq_iff_eq, Bool.or_eq_false_iff, Bool.and_eq_false_iff, decide_eq_false_iff_not,
      beq_eq_false_iff_ne] at h ⊢
    omega
  trans a b c hab hbc := by
    simp only [less, TimedEvent.keyLess, Bool.or_eq_false_iff, Bool.and_eq_false_iff,
      decide_eq_false_iff_not, beq_eq_false_iff_ne] at hab hbc ⊢
    omega

theorem DeadlineEntry.deadline_le_of_not_less {a b : DeadlineEntry} (h : a.less b = false) :
    b.deadline ≤ a.deadline := by
  simp only [less, Bool.or_eq_false_iff, decide_eq_false_iff_not] at h
  omega

/-- Heap-ordered entries in storage for `capacity` of them. -/
structure DeadlineQueue where
  capacity : Nat
  entries : List DeadlineEntry
deriving DecidableEq, Repr

namespace DeadlineQueue

def tryWithCapacity (capacity : Nat) : DeadlineQueue := ⟨capacity, []⟩

def findEventIndex (q : DeadlineQueue) (event : TimedEvent) : Option Nat :=
  q.entries.findIdx? (fun entry => entry.event = event)

def eventPending (q : DeadlineQueue) (event : TimedEvent) : Bool :=
  (q.findEventIndex event).isSome

def nextDeadline (q : DeadlineQueue) : Option Nat := q.entries.head?.map DeadlineEntry.deadline

def deadlineAt (q : DeadlineQueue) (index : Nat) : Nat :=
  (q.entries[index]?.map DeadlineEntry.deadline).getD 0

/-- Queue an event, or move it when it is already queued. -/
def schedule (q : DeadlineQueue) (deadline : Nat) (event : TimedEvent) :
    Except Panic DeadlineQueue :=
  match q.findEventIndex event with
  | some index =>
    let old := q.deadlineAt index
    let entries := q.entries.set index ⟨deadline, event⟩
    if deadline < old then
      .ok { q with entries := Heap.siftUp DeadlineEntry.less index entries index }
    else if old < deadline then
      .ok { q with entries := Heap.siftDown DeadlineEntry.less entries.length entries index }
    else .ok { q with entries := entries }
  | none =>
    if q.entries.length = q.capacity then .error .deadlineQueueFull
    else .ok { q with entries := Heap.insert DeadlineEntry.less q.entries ⟨deadline, event⟩ }

def removeAt (q : DeadlineQueue) (index : Nat) : DeadlineQueue :=
  { q with entries := Heap.removeAt DeadlineEntry.less q.entries index }

/-- Remove an event; the result says whether it was queued. -/
def cancel (q : DeadlineQueue) (event : TimedEvent) : Bool × DeadlineQueue :=
  match q.findEventIndex event with
  | none => (false, q)
  | some index => (true, q.removeAt index)

/-- Remove the first entry when its deadline has passed. -/
def popExpired (q : DeadlineQueue) (now : Nat) : Option (TimedEvent × DeadlineQueue) :=
  match q.entries.head? with
  | none => none
  | some entry => if now < entry.deadline then none else some (entry.event, q.removeAt 0)

/-- The entries are in heap order and name distinct events. -/
structure WellFormed (q : DeadlineQueue) : Prop where
  ordered : Heap.Ordered DeadlineEntry.less q.entries
  distinct : (q.entries.map DeadlineEntry.event).Nodup

/-- The queued events. -/
def events (q : DeadlineQueue) : List TimedEvent := q.entries.map DeadlineEntry.event

/-- All entries but the one of `event`. -/
def others (q : DeadlineQueue) (event : TimedEvent) : List DeadlineEntry :=
  q.entries.filter (fun entry => entry.event ≠ event)

variable {q next : DeadlineQueue} {event : TimedEvent} {entry : DeadlineEntry}
variable {index deadline : Nat}

theorem mem_others : entry ∈ q.others event ↔ entry ∈ q.entries ∧ entry.event ≠ event := by
  simp [others]

theorem wellFormed_of_nil (empty : q.entries = []) : q.WellFormed where
  ordered i _ := Heap.less_of_length_le (by simp [empty])
  distinct := by simp [empty]

theorem wellFormed_tryWithCapacity (capacity : Nat) : (tryWithCapacity capacity).WellFormed :=
  wellFormed_of_nil rfl

theorem findEventIndex_some (found : q.findEventIndex event = some index) :
    ∃ deadline, q.entries[index]? = some ⟨deadline, event⟩ := by
  obtain ⟨bound, matched, _⟩ := List.findIdx?_eq_some_iff_getElem.mp found
  refine ⟨q.entries[index].deadline, ?_⟩
  rw [List.getElem?_eq_getElem bound, ← of_decide_eq_true matched]

theorem findEventIndex_none : q.findEventIndex event = none ↔ event ∉ q.events := by
  simp [findEventIndex, events, List.findIdx?_eq_none_iff]

theorem eventPending_iff : q.eventPending event = true ↔ event ∈ q.events := by
  rw [eventPending, Option.isSome_iff_ne_none, ne_eq, findEventIndex_none, not_not]

theorem others_of_not_mem (absent : event ∉ q.events) : q.others event = q.entries := by
  refine List.filter_eq_self.mpr fun entry member => ?_
  refine decide_eq_true fun same => absent ?_
  exact List.mem_map.mpr ⟨entry, member, same⟩

/-- An entry and the others make up the queue. -/
theorem WellFormed.perm_others (wf : q.WellFormed) (member : entry ∈ q.entries) :
    q.entries.Perm (entry :: q.others entry.event) := by
  have nodup := List.Nodup.of_map _ wf.distinct
  have nodup' : (entry :: q.others entry.event).Nodup :=
    List.nodup_cons.mpr ⟨by simp [mem_others], nodup.filter _⟩
  refine (List.perm_ext_iff_of_nodup nodup nodup').mpr fun other => ?_
  rw [List.mem_cons, mem_others]
  constructor
  · intro listed
    by_cases same : other.event = entry.event
    · exact Or.inl (List.inj_on_of_nodup_map wf.distinct listed member same)
    · exact Or.inr ⟨listed, same⟩
  · rintro (rfl | ⟨listed, _⟩)
    · exact member
    · exact listed

theorem WellFormed.of_perm {entries : List DeadlineEntry} (wf : q.WellFormed)
    (perm : entries.Perm (entry :: q.others entry.event)) :
    (entries.map DeadlineEntry.event).Nodup := by
  rw [(perm.map _).nodup_iff, List.map_cons, List.nodup_cons]
  refine ⟨?_, (List.filter_sublist.map _).nodup wf.distinct⟩
  rintro member
  obtain ⟨other, present, same⟩ := List.mem_map.mp member
  exact (mem_others.mp present).2 same

theorem WellFormed.perm_set (wf : q.WellFormed) {old : DeadlineEntry}
    (present : q.entries[index]? = some old) :
    (q.entries.set index entry).Perm (entry :: q.others old.event) := by
  obtain ⟨bound, rfl⟩ := List.getElem?_eq_some_iff.mp present
  have whole := wf.perm_others (List.getElem_mem bound)
  have rest := ((List.getElem_cons_eraseIdx_perm bound).trans whole).cons_inv
  exact (List.set_perm_cons_eraseIdx bound entry).trans (rest.cons entry)

/-- Scheduling replaces the entry of the event, if there is room for a new one. -/
theorem WellFormed.schedule (wf : q.WellFormed) (deadline : Nat)
    (room : event ∉ q.events → q.entries.length ≠ q.capacity) :
    ∃ next, q.schedule deadline event = .ok next ∧ next.WellFormed ∧
      next.capacity = q.capacity ∧ next.entries.Perm (⟨deadline, event⟩ :: q.others event) := by
  have weak := DeadlineEntry.less_strictWeak
  cases found : q.findEventIndex event with
  | none =>
    have absent := findEventIndex_none.mp found
    have perm : (Heap.insert DeadlineEntry.less q.entries ⟨deadline, event⟩).Perm
        (⟨deadline, event⟩ :: q.others event) := by
      rw [others_of_not_mem absent]
      exact Heap.insert_perm q.entries ⟨deadline, event⟩
    refine ⟨{ q with entries := Heap.insert DeadlineEntry.less q.entries ⟨deadline, event⟩ },
      ?_, ⟨Heap.insert_ordered weak wf.ordered _, wf.of_perm perm⟩, rfl, perm⟩
    simp only [DeadlineQueue.schedule, found]
    exact if_neg (room absent)
  | some index =>
    obtain ⟨old, present⟩ := findEventIndex_some found
    have whole : (q.entries.set index ⟨deadline, event⟩).Perm _ := wf.perm_set present
    have at_index : q.deadlineAt index = old := by simp [deadlineAt, present]
    simp only [DeadlineQueue.schedule, found, at_index, List.length_set]
    split
    · next sooner =>
      have perm := (Heap.siftUp_perm DeadlineEntry.less index _ index).trans whole
      refine ⟨_, rfl, ⟨Heap.siftUp_set_ordered weak wf.ordered present ?_, wf.of_perm perm⟩,
        rfl, perm⟩
      simp [DeadlineEntry.less]
      omega
    · next notSooner =>
      split
      · next later =>
        have perm :=
          (Heap.siftDown_perm DeadlineEntry.less q.entries.length _ index).trans whole
        refine ⟨_, rfl,
          ⟨Heap.siftDown_set_ordered weak wf.ordered present ?_, wf.of_perm perm⟩, rfl, perm⟩
        simp [DeadlineEntry.less]
        omega
      · next notLater =>
        obtain rfl : deadline = old := by omega
        refine ⟨_, rfl, ⟨?_, wf.of_perm whole⟩, rfl, whole⟩
        have same : q.entries.set index ⟨deadline, event⟩ = q.entries := by
          obtain ⟨bound, eq⟩ := List.getElem?_eq_some_iff.mp present
          rw [← eq, List.set_getElem_self]
        rw [same]
        exact wf.ordered

theorem schedule_full (absent : event ∉ q.events) (full : q.entries.length = q.capacity) :
    q.schedule deadline event = .error .deadlineQueueFull := by
  rw [schedule, findEventIndex_none.mpr absent]
  exact if_pos full

/-- A queue that took an event is well formed and holds it beside the others. -/
theorem WellFormed.of_schedule (wf : q.WellFormed) (run : q.schedule deadline event = .ok next) :
    next.WellFormed ∧ next.entries.Perm (⟨deadline, event⟩ :: q.others event) := by
  have room : event ∉ q.events → q.entries.length ≠ q.capacity := by
    intro absent full
    cases (schedule_full absent full).symm.trans run
  obtain ⟨found, same, kept, _, perm⟩ := wf.schedule deadline room
  cases same.symm.trans run
  exact ⟨kept, perm⟩

theorem WellFormed.removeAt (wf : q.WellFormed) (present : q.entries[index]? = some entry) :
    (q.removeAt index).WellFormed ∧ (q.removeAt index).entries.Perm (q.others entry.event) := by
  obtain ⟨bound, rfl⟩ := List.getElem?_eq_some_iff.mp present
  have removed := Heap.removeAt_perm (r := DeadlineEntry.less) present
  have perm := (removed.symm.trans (wf.perm_others (List.getElem_mem bound))).cons_inv
  refine ⟨⟨Heap.removeAt_ordered DeadlineEntry.less_strictWeak wf.ordered bound, ?_⟩, perm⟩
  exact ((perm.map _).nodup_iff).mpr ((List.filter_sublist.map _).nodup wf.distinct)

/-- Cancelling removes exactly the named event. -/
theorem WellFormed.cancel (wf : q.WellFormed) (event : TimedEvent) :
    (q.cancel event).2.WellFormed ∧ (q.cancel event).2.capacity = q.capacity ∧
      (q.cancel event).2.entries.Perm (q.others event) := by
  unfold DeadlineQueue.cancel
  cases found : q.findEventIndex event with
  | none =>
    refine ⟨wf, rfl, ?_⟩
    rw [others_of_not_mem (findEventIndex_none.mp found)]
  | some index =>
    obtain ⟨deadline, present⟩ := findEventIndex_some found
    obtain ⟨kept, perm⟩ := wf.removeAt present
    exact ⟨kept, rfl, perm⟩

theorem cancel_eq_false_iff : (q.cancel event).1 = false ↔ event ∉ q.events := by
  rw [← findEventIndex_none]
  unfold cancel
  cases q.findEventIndex event with
  | none => simp
  | some index => simp

theorem mem_of_perm_others (perm : next.entries.Perm (q.others event))
    (member : entry ∈ next.entries) : entry ∈ q.entries :=
  (mem_others.mp (perm.mem_iff.mp member)).1

/-- A quantum is queued beside the deadlines of waits. -/
theorem WellFormed.schedule_quantum (wf : q.WellFormed) {cpu : CpuId} {thread : ThreadId}
    (run : q.schedule deadline (.quantumExpired cpu thread) = .ok next) :
    next.WellFormed ∧ ∀ owner token later, ⟨later, .waitDeadline owner token⟩ ∈ next.entries →
      ⟨later, .waitDeadline owner token⟩ ∈ q.entries := by
  obtain ⟨kept, perm⟩ := wf.of_schedule run
  refine ⟨kept, fun owner token later member => ?_⟩
  rcases List.mem_cons.mp (perm.mem_iff.mp member) with new | old
  · cases new
  · exact (mem_others.mp old).1

/-- The queue of one processor changes. -/
theorem WellFormed.update {queues : CpuId → DeadlineQueue} {cpu : CpuId} (wf : q.WellFormed)
    (all : ∀ cpu, (queues cpu).WellFormed) (place : CpuId) :
    (update queues cpu q place).WellFormed := by
  rw [update_apply]
  split
  · exact wf
  · exact all place

theorem mem_of_update {queues : CpuId → DeadlineQueue} {cpu : CpuId} {token : WaitToken}
    (armed : ∃ place owner, ⟨deadline, .waitDeadline owner token⟩ ∈
      (update queues cpu q place).entries) :
    (∃ place owner, ⟨deadline, .waitDeadline owner token⟩ ∈ (queues place).entries) ∨
      ∃ owner, ⟨deadline, .waitDeadline owner token⟩ ∈ q.entries := by
  obtain ⟨place, owner, member⟩ := armed
  rw [update_apply] at member
  split at member
  · exact .inr ⟨owner, member⟩
  · exact .inl ⟨place, owner, member⟩

theorem mem_events_of_perm_others {q next : DeadlineQueue} {event : TimedEvent}
    (perm : next.entries.Perm (q.others event)) (other : TimedEvent) :
    other ∈ next.events ↔ other ∈ q.events ∧ other ≠ event := by
  simp only [events, (perm.map DeadlineEntry.event).mem_iff, List.mem_map, mem_others]
  constructor
  · rintro ⟨entry, ⟨member, apart⟩, rfl⟩
    exact ⟨⟨entry, member, rfl⟩, apart⟩
  · rintro ⟨⟨entry, member, rfl⟩, apart⟩
    exact ⟨entry, ⟨member, apart⟩, rfl⟩

theorem mem_events_of_perm_cons (perm : next.entries.Perm (⟨deadline, event⟩ :: q.others event))
    (other : TimedEvent) : other ∈ next.events ↔ other = event ∨ other ∈ q.events := by
  have rest := @mem_events_of_perm_others q ⟨q.capacity, q.others event⟩ event
    (.refl _) other
  simp only [events] at rest
  simp only [events, (perm.map DeadlineEntry.event).mem_iff, List.map_cons, List.mem_cons, rest]
  constructor
  · exact Or.imp_right And.left
  · intro member
    by_cases same : other = event
    · exact Or.inl same
    · exact Or.inr ⟨member.resolve_left same, same⟩

/-- The next deadline is the earliest one. -/
theorem WellFormed.nextDeadline_le (wf : q.WellFormed) (member : entry ∈ q.entries) :
    ∃ first, q.nextDeadline = some first ∧ first ≤ entry.deadline := by
  obtain ⟨index, present⟩ := List.getElem?_of_mem member
  cases shape : q.entries with
  | nil => simp [shape] at member
  | cons first rest =>
    refine ⟨first.deadline, by simp [nextDeadline, shape], ?_⟩
    have head : q.entries[0]? = some first := by simp [shape]
    exact DeadlineEntry.deadline_le_of_not_less
      (wf.ordered.root_le DeadlineEntry.less_strictWeak head present)

/-- The timer stops popping only when nothing has expired. -/
theorem WellFormed.popExpired_none (wf : q.WellFormed) {now : Nat} (stop : q.popExpired now = none)
    (member : entry ∈ q.entries) : now < entry.deadline := by
  obtain ⟨first, head, le⟩ := wf.nextDeadline_le member
  unfold popExpired at stop
  cases shape : q.entries with
  | nil => simp [shape] at member
  | cons top rest =>
    simp [nextDeadline, shape] at head
    simp [shape] at stop
    omega

/-- A popped event was queued with an expired deadline and is gone. -/
theorem WellFormed.popExpired_some (wf : q.WellFormed) {now : Nat}
    (popped : q.popExpired now = some (event, next)) :
    next.WellFormed ∧ next.capacity = q.capacity ∧ next.entries.Perm (q.others event) ∧
      ∃ deadline, ⟨deadline, event⟩ ∈ q.entries ∧ deadline ≤ now := by
  unfold popExpired at popped
  cases shape : q.entries.head? with
  | none => simp [shape] at popped
  | some top =>
    simp only [shape] at popped
    split at popped
    · cases popped
    · next expired =>
      cases popped
      have present : q.entries[0]? = some top := by rwa [← List.head?_eq_getElem?]
      obtain ⟨kept, perm⟩ := wf.removeAt present
      exact ⟨kept, rfl, perm, top.deadline, List.mem_of_getElem? present, by omega⟩

end DeadlineQueue

end Genrt
