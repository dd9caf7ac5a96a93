import Genrt.Foundation.Machine
import Genrt.Time.State

/-!
# No deadline is left without a timer

The recorded armed deadline is a cache. Local operations refresh it, a remote
cancellation leaves it early, and a timer interrupt leaves it stale until its
last section. The invariant allows exactly these: outside a dispatch the timer
is armed no later than the earliest queued deadline. A deadline that had passed
when it was armed is written as the count after the one then read.

The machine below interleaves every operation of every processor at the
granularity of the time lock, with arbitrary deadlines, events and quantum
changes.
-/

namespace Genrt

open Effect Function

/-- The queue is well formed and, outside a dispatch, the timer was armed with the
recorded deadline, which no queued deadline precedes. -/
structure TimeCell.Armed (cell : TimeCell) : Prop where
  wellFormed : cell.state.queue.WellFormed
  covered : cell.state.dispatchingIrq = false → ∀ entry ∈ cell.state.queue.entries,
    ∃ deadline, cell.state.armedTimerDeadline = some deadline ∧
      cell.timer.comparator = some (LocalTimer.effectiveDeadline deadline cell.timer.lastReading) ∧
      deadline ≤ entry.deadline

/-- Armed, with a dispatch in progress or not as given. -/
def TimeCell.ArmedIn (cell : TimeCell) (dispatching : Bool) : Prop :=
  cell.Armed ∧ cell.state.dispatchingIrq = dispatching

/-- Removing entries keeps the timer early enough. -/
theorem TimeCell.Armed.shrink {cell : TimeCell} (armed : cell.Armed) {queue : DeadlineQueue}
    (wf : queue.WellFormed) (fewer : ∀ entry ∈ queue.entries, entry ∈ cell.state.queue.entries) :
    TimeCell.Armed { cell with state := { cell.state with queue := queue } } :=
  ⟨wf, fun idle entry member => armed.covered idle entry (fewer entry member)⟩

namespace TimeState

variable {cell : TimeCell}

theorem rearmTimer_armed (wf : cell.state.queue.WellFormed) : WP (fun _ => True) rearmTimer
      (fun _ after => after.ArmedIn cell.state.dispatchingIrq) cell := by
  refine wp_rearmTimer.mpr ⟨⟨wf, fun _ entry member => ?_⟩, rfl⟩
  obtain ⟨first, next, le⟩ := wf.nextDeadline_le member
  refine ⟨first, next, ?_, le⟩
  rw [next]
  rfl

theorem rearmUnlessDispatching_armed (wf : cell.state.queue.WellFormed) :
    WP (fun _ => True) rearmUnlessDispatching
      (fun _ after => after.ArmedIn cell.state.dispatchingIrq) cell := by
  refine wp_rearmUnlessDispatching.mpr ⟨fun _ => rearmTimer_armed wf, fun dispatching => ?_⟩
  refine ⟨⟨wf, fun idle => ?_⟩, rfl⟩
  rw [dispatching] at idle
  cases idle

theorem scheduleEvent_armed (wf : cell.state.queue.WellFormed) (deadline : Nat)
    (event : TimedEvent) :
    WP (fun _ => True) (do scheduleEvent deadline event; rearmUnlessDispatching)
      (fun _ after => after.ArmedIn cell.state.dispatchingIrq) cell := by
  rw [wp_bind]
  refine wp_scheduleEvent wf (fun _ _ => trivial) fun queue kept _ _ => ?_
  exact rearmUnlessDispatching_armed kept

theorem cancelEvent_armed (armed : cell.Armed) (event : TimedEvent) (rearm : Bool) :
    WP (fun _ => True) (cancelEvent event rearm)
      (fun _ after => after.ArmedIn cell.state.dispatchingIrq) cell := by
  refine wp_cancelEvent armed.wellFormed fun queue kept _ perm canceled => wp_onlyIf.mpr ⟨?_, ?_⟩
  · intro _
    exact rearmUnlessDispatching_armed kept
  · intro _
    refine ⟨armed.shrink kept fun entry member => ?_, rfl⟩
    exact DeadlineQueue.mem_of_perm_others perm member

/-- The collecting loop keeps the queue well formed and drops entries only. -/
theorem popExpiredLoop_spec {cpu : CpuId} {now fuel : Nat} {queue rest : DeadlineQueue}
    {buffer expired : ExpiredEvents} (wf : queue.WellFormed)
    (run : popExpiredLoop cpu now fuel queue buffer = .ok (rest, expired)) : rest.WellFormed := by
  induction fuel generalizing queue buffer with
  | zero =>
    cases run
    exact wf
  | succ fuel ih =>
    rw [popExpiredLoop] at run
    split at run
    · cases run
      exact wf
    · next event next popped =>
      have kept := (wf.popExpired_some popped).1
      split at run
      · cases run
      · split at run
        · cases run
        · exact ih kept run

theorem takeExpired_armed (wf : cell.state.queue.WellFormed) (cpu : CpuId) (now : Nat) :
    WP (fun _ => True) (takeExpired cpu now) (fun _ after => after.ArmedIn true) cell := by
  refine wp_iff.mpr ⟨fun expired after run => ?_, fun _ _ => trivial⟩
  rw [takeExpired] at run
  split at run
  · cases run
  · split at run
    · cases run
    · next queue batch loop =>
      cases run
      refine ⟨⟨popExpiredLoop_spec wf loop, ?_⟩, rfl⟩
      rintro ⟨⟩

theorem finishDispatch_armed (wf : cell.state.queue.WellFormed) (quantum : QuantumUpdate)
    (expired : ExpiredEvents) : WP (fun _ => True) (finishDispatch quantum expired)
      (fun _ after => after.ArmedIn false) cell := by
  simp only [finishDispatch, wp_bind, wp_modify]
  refine wp_cancelObsolete wf fun _ wf _ _ _ => ?_
  refine wp_ensureEvent wf (fun _ => trivial) fun _ wf _ _ => ?_
  exact rearmTimer_armed wf

end TimeState

/-- Every processor's timer covers its queue; `dispatching` tells where a timer
interrupt is between its two sections. -/
def Clocks.ArmedIn (clocks : Clocks) (dispatching : CpuId → Bool) : Prop :=
  ∀ cpu state, clocks.states cpu = some state →
    TimeCell.ArmedIn ⟨state, clocks.timer cpu⟩ (dispatching cpu)

namespace Clocks

variable {clocks : Clocks} {dispatching : CpuId → Bool} {α : Type}

/-- A local operation that keeps its own cell armed keeps the invariant. -/
theorem ArmedIn.local (armed : clocks.ArmedIn dispatching) {cpu : CpuId} {operation : CellM α}
    {phase : Bool} (keeps : ∀ state, clocks.states cpu = some state →
      WP (fun _ => True) operation (fun _ after => after.ArmedIn phase)
        ⟨state, clocks.timer cpu⟩) : WP (fun _ => True) (withTimeMut cpu cpu operation)
      (fun _ after => after.ArmedIn (update dispatching cpu phase)) clocks := by
  refine wp_withTimeMut.mpr ⟨fun _ => trivial, fun state found => ?_⟩
  refine (keeps state found).mono fun _ _ next other state found => ?_
  by_cases same : other = cpu
  · subst same
    simp only [put, update_self, Option.some.injEq] at found ⊢
    subst found
    exact next
  · simp only [put, update_of_ne same] at found ⊢
    exact armed other state found

/-- A remote cancellation removes an entry and programs no timer. -/
theorem ArmedIn.cancel_remote (armed : clocks.ArmedIn dispatching) {executing owner : CpuId}
    (event : TimedEvent) :
    WP (fun _ => True) (withTimeMut executing owner (TimeState.cancelEvent event false))
      (fun _ after => after.ArmedIn dispatching) clocks := by
  refine wp_withTimeMut.mpr ⟨fun _ => trivial, fun state found => ?_⟩
  obtain ⟨old, phase⟩ := armed owner state found
  refine TimeState.wp_cancelEvent ?_ fun queue kept _ perm _ => ?_
  · exact old.wellFormed
  refine wp_onlyIf.mpr ⟨fun ⟨_, never⟩ => Bool.noConfusion never, fun _ => ?_⟩
  intro other next present
  simp only [put, update_eq_self] at present ⊢
  by_cases same : other = owner
  · subst same
    simp only [update_self, Option.some.injEq] at present
    subst present
    refine ⟨old.shrink kept fun entry member => ?_, phase⟩
    exact DeadlineQueue.mem_of_perm_others perm member
  · rw [update_of_ne same] at present
    exact armed other next present

theorem ArmedIn.scheduleEvent (armed : clocks.ArmedIn dispatching) (executing : CpuId)
    (deadline : Nat) (event : TimedEvent) :
    WP (fun _ => True) (scheduleEvent executing deadline event)
      (fun _ after => after.ArmedIn dispatching) clocks := by
  refine .bind (wp_stopIf.mpr ⟨fun _ => trivial, fun _ => ?_⟩)
  rw [← update_eq_self executing dispatching]
  refine armed.local fun state found => ?_
  obtain ⟨old, phase⟩ := armed executing state found
  rw [← phase]
  exact TimeState.scheduleEvent_armed old.wellFormed deadline event

variable (armed : clocks.ArmedIn dispatching) (executing : CpuId)

include armed executing

theorem ArmedIn.publishSleep (deadline : Nat) (token : WaitToken) :
    WP (fun _ => True) (publishSleep executing deadline token)
      (fun _ after => after.ArmedIn dispatching) clocks := by
  refine .bind (wp_stopIf.mpr ⟨fun _ => trivial, fun here => ?_⟩)
  obtain rfl := not_ne_iff.mp here
  rw [← update_eq_self token.cpu dispatching]
  refine armed.local fun state found => ?_
  obtain ⟨old, phase⟩ := armed token.cpu state found
  rw [← phase]
  rw [TimeState.publishSleep, wp_bind]
  refine TimeState.wp_cancelEvent old.wellFormed fun queue kept _ _ _ => wp_onlyIf.mpr ⟨?_, ?_⟩
  · rintro ⟨_, never⟩
    cases never
  · intro _
    exact TimeState.scheduleEvent_armed kept deadline _

theorem ArmedIn.cancelEvent (event : TimedEvent) : WP (fun _ => True) (cancelEvent executing event)
      (fun _ after => after.ArmedIn dispatching) clocks := by
  rw [Clocks.cancelEvent]
  by_cases here : executing = event.cpu
  · obtain rfl := here
    rw [← update_eq_self event.cpu dispatching]
    refine armed.local fun state found => ?_
    obtain ⟨old, phase⟩ := armed event.cpu state found
    rw [← phase]
    exact TimeState.cancelEvent_armed old event _
  · rw [decide_eq_false here]
    exact armed.cancel_remote event

theorem ArmedIn.beginTimerInterrupt (now : Nat) :
    WP (fun _ => True) (beginTimerInterrupt executing now)
      (fun batch after => after.ArmedIn (update dispatching executing batch.isSome)) clocks := by
  simp only [WP, Clocks.beginTimerInterrupt]
  cases found : clocks.states executing with
  | none =>
    intro other state present
    have apart : other ≠ executing := by
      rintro rfl
      simp [found] at present
    simpa only [update_of_ne apart] using armed other state present
  | some state =>
    refine wp_map _ |>.mpr (armed.local fun state found => ?_)
    exact TimeState.takeExpired_armed (armed executing state found).1.wellFormed executing now

theorem ArmedIn.endTimerInterrupt (quantum : QuantumUpdate) (expired : ExpiredEvents) :
    WP (fun _ => True) (endTimerInterrupt executing quantum expired)
      (fun _ after => after.ArmedIn (update dispatching executing false)) clocks :=
  armed.local fun state found =>
    TimeState.finishDispatch_armed (armed executing state found).1.wellFormed quantum expired

end Clocks

/-- The time states with the batches of the dispatches in progress. -/
structure TimeSystem where
  clocks : Clocks
  batch : CpuId → Option ExpiredEvents

/-- The operations on time states, each executed by one processor. -/
inductive TimeOperation where
  | scheduleEvent (executing : CpuId) (deadline : Nat) (event : TimedEvent)
  | publishSleep (executing : CpuId) (deadline : Nat) (token : WaitToken)
  | cancelEvent (executing : CpuId) (event : TimedEvent)
  | beginTimerInterrupt (executing : CpuId) (now : Nat)
  | endTimerInterrupt (executing : CpuId) (quantum : QuantumUpdate)

namespace TimeSystem

/-- One operation under one time lock, if it does not halt. -/
inductive Step : TimeSystem → TimeOperation → TimeSystem → Prop where
  | scheduleEvent {s : TimeSystem} {executing : CpuId} {deadline : Nat} {event : TimedEvent}
      {clocks : Clocks} (run : Clocks.scheduleEvent executing deadline event s.clocks =
        .ok ((), clocks)) :
      Step s (.scheduleEvent executing deadline event) { s with clocks := clocks }
  | publishSleep {s : TimeSystem} {executing : CpuId} {deadline : Nat} {token : WaitToken}
      {clocks : Clocks} (run : Clocks.publishSleep executing deadline token s.clocks =
        .ok ((), clocks)) :
      Step s (.publishSleep executing deadline token) { s with clocks := clocks }
  | cancelEvent {s : TimeSystem} {executing : CpuId} {event : TimedEvent} {canceled : Bool}
      {clocks : Clocks} (run : Clocks.cancelEvent executing event s.clocks =
        .ok (canceled, clocks)) :
      Step s (.cancelEvent executing event) { s with clocks := clocks }
  | beginTimerInterrupt {s : TimeSystem} {executing : CpuId} {now : Nat}
      {batch : Option ExpiredEvents} {clocks : Clocks}
      (run : Clocks.beginTimerInterrupt executing now s.clocks = .ok (batch, clocks)) :
      Step s (.beginTimerInterrupt executing now)
        ⟨clocks, update s.batch executing batch⟩
  | endTimerInterrupt {s : TimeSystem} {executing : CpuId} {quantum : QuantumUpdate}
      {expired : ExpiredEvents} {clocks : Clocks} (dispatching : s.batch executing = some expired)
      (run : Clocks.endTimerInterrupt executing quantum expired s.clocks = .ok ((), clocks)) :
      Step s (.endTimerInterrupt executing quantum)
        ⟨clocks, update s.batch executing none⟩

/-- All interleavings of time operations after boot. -/
def machine : Machine TimeSystem TimeOperation where
  initial s := ∃ cpuCount counter, s = ⟨.initCpuStates cpuCount counter, fun _ => none⟩
  step := Step

/-- The timers of all processors cover their queues. -/
def Covered (s : TimeSystem) : Prop := s.clocks.ArmedIn fun cpu => (s.batch cpu).isSome

theorem update_isSome (batch : CpuId → Option ExpiredEvents) (cpu : CpuId)
    (value : Option ExpiredEvents) : (fun other => (update batch cpu value other).isSome) =
      update (fun other => (batch other).isSome) cpu value.isSome := by
  funext other
  by_cases same : other = cpu
  · subst same
    simp
  · simp [update_of_ne same]

theorem Covered.step {s t : TimeSystem} {operation : TimeOperation} (covered : s.Covered)
    (taken : Step s operation t) : t.Covered := by
  cases taken with
  | scheduleEvent run => exact (Clocks.ArmedIn.scheduleEvent covered _ _ _).of_ok run
  | publishSleep run => exact (Clocks.ArmedIn.publishSleep covered _ _ _).of_ok run
  | cancelEvent run => exact (Clocks.ArmedIn.cancelEvent covered _ _).of_ok run
  | beginTimerInterrupt run =>
    rw [Covered, update_isSome]
    exact (Clocks.ArmedIn.beginTimerInterrupt covered _ _).of_ok run
  | endTimerInterrupt dispatching run =>
    rw [Covered, update_isSome]
    exact (Clocks.ArmedIn.endTimerInterrupt covered _ _ _).of_ok run

theorem covered_initCpuStates (cpuCount : Nat) (counter : CpuId → Nat → Nat) :
    Covered ⟨.initCpuStates cpuCount counter, fun _ => none⟩ := by
  intro cpu state found
  simp only [Clocks.initCpuStates] at found
  split at found
  · cases found
    refine ⟨⟨DeadlineQueue.wellFormed_tryWithCapacity _, fun _ entry member => ?_⟩, rfl⟩
    cases member
  · cases found

theorem covered_of_reachable {s : TimeSystem} (reached : machine.Reachable s) : s.Covered :=
  reached.invariant (fun _ ⟨cpuCount, _, start⟩ => start ▸ covered_initCpuStates cpuCount _)
    fun _ _ _ _ covered taken => covered.step taken

/-- Whenever a processor dispatches no timer interrupt and its queue is not
empty, no queued deadline is earlier than the recorded one, and its timer was last
programmed with that deadline, or with the next count if the deadline had passed. -/
theorem timer_covers_queue {s : TimeSystem} (reached : machine.Reachable s) {cpu : CpuId}
    {state : TimeState} (present : s.clocks.states cpu = some state)
    (idle : s.batch cpu = none) (pending : state.queue.entries ≠ []) :
    ∃ deadline, state.armedTimerDeadline = some deadline ∧
      (∀ entry ∈ state.queue.entries, deadline ≤ entry.deadline) ∧
      ((s.clocks.timer cpu).lastReading < deadline →
        (s.clocks.timer cpu).comparator = some deadline) ∧
      (deadline ≤ (s.clocks.timer cpu).lastReading → (s.clocks.timer cpu).comparator =
        some (min ((s.clocks.timer cpu).lastReading + 1) (2 ^ 64 - 1))) := by
  obtain ⟨armed, phase⟩ := covered_of_reachable reached cpu state present
  simp only [idle, Option.isSome_none] at phase
  obtain ⟨first, member⟩ := List.exists_mem_of_ne_nil _ pending
  obtain ⟨deadline, recorded, programmed, _⟩ := armed.covered phase first member
  refine ⟨deadline, recorded, fun entry queued => ?_, fun ahead => ?_, fun passed => ?_⟩
  · obtain ⟨same, recorded', _, le⟩ := armed.covered phase entry queued
    obtain rfl : deadline = same := Option.mem_unique recorded recorded'
    exact le
  · rw [programmed, LocalTimer.effectiveDeadline, if_neg (Nat.not_le.mpr ahead)]
  · rw [programmed, LocalTimer.effectiveDeadline, if_pos passed]

/-- A deadline of 100 that is scheduled when the counter reads `now`. -/
theorem exists_scheduled (now : Nat) : ∃ s state, machine.Reachable s ∧
    s.clocks.states 0 = some state ∧ s.batch 0 = none ∧ state.queue.entries ≠ [] ∧
      state.armedTimerDeadline = some 100 ∧ (s.clocks.timer 0).lastReading = now ∧
      (s.clocks.timer 0).comparator = some (LocalTimer.effectiveDeadline 100 now) := by
  have boot : machine.Reachable ⟨.initCpuStates 1 fun _ _ => now, fun _ => none⟩ :=
    .initial ⟨1, _, rfl⟩
  have reached := boot.step (@Step.scheduleEvent _ 0 100 (.quantumExpired 0 ⟨1, 1⟩) _ rfl)
  exact ⟨_, _, reached, rfl, rfl, List.cons_ne_nil _ _, rfl, rfl, rfl⟩

/-- A quantum that ends after the reading is covered by exactly its deadline. -/
theorem timer_covers_first_quantum :
    ∃ s, machine.Reachable s ∧ (s.clocks.timer 0).comparator = some 100 := by
  obtain ⟨s, state, reached, present, idle, pending, recorded, reading, _⟩ := exists_scheduled 50
  obtain ⟨deadline, recorded', _, ahead, _⟩ := timer_covers_queue reached present idle pending
  obtain rfl : 100 = deadline := Option.mem_unique recorded recorded'
  exact ⟨s, reached, ahead (by rw [reading]; decide)⟩

/-- The comparator does not hold the recorded deadline if that had passed. -/
theorem timer_passed_deadline :
    ∃ s state, machine.Reachable s ∧ s.clocks.states 0 = some state ∧ s.batch 0 = none ∧
      state.queue.entries ≠ [] ∧ state.armedTimerDeadline = some 100 ∧
      (s.clocks.timer 0).comparator = some 201 := by
  obtain ⟨s, state, reached, present, idle, pending, recorded, _, programmed⟩ :=
    exists_scheduled 200
  exact ⟨s, state, reached, present, idle, pending, recorded, programmed⟩

end TimeSystem

end Genrt
