import Genrt.Foundation.BoundedQueue
import Genrt.Foundation.Effect
import Genrt.Time.Queue

/-!
# Per-processor time state and its timer

Each processor owns a deadline queue, a record of the deadline its one-shot
timer was armed with, and a buffer that carries one batch of expired events out
of the time lock. Only the processor that executes an operation can program a
timer, and it programs its own. The architecture reads the counter when it arms
the timer, and moves a deadline that has passed to the next count.

Operations on one processor's state run inside its time lock. A timer interrupt
takes that lock twice: once to collect the expired events and once to apply the
quantum change the scheduler asks for, return the buffer and rearm.
-/

namespace Genrt

open Effect Function

/-- The initialized prefix of the fixed transfer buffer. -/
abbrev ExpiredEvents := BoundedQueue TimedEvent

/-- The only event of a batch, if it has exactly one. -/
def ExpiredEvents.single (expired : ExpiredEvents) : Option TimedEvent :=
  match expired.items with
  | [event] => some event
  | _ => none

/-- The quantum change that the time owner applies after the scheduler's part. -/
structure QuantumUpdate where
  obsolete : Option TimedEvent
  ensure : Option (Nat × TimedEvent)
deriving DecidableEq, Repr

structure TimeState where
  queue : DeadlineQueue
  armedTimerDeadline : Option Nat
  dispatchingIrq : Bool
  expired : Option ExpiredEvents

/-- The one-shot timer of a processor: its comparator, unless it is disabled, and
the readings of the counter that arming it makes. -/
structure LocalTimer where
  comparator : Option Nat
  counter : Nat → Nat
  reads : Nat

namespace LocalTimer

/-- What is written for a deadline when the counter reads `now`. -/
def effectiveDeadline (deadline now : Nat) : Nat :=
  if deadline ≤ now then min (now + 1) (2 ^ 64 - 1) else deadline

def armDeadline (timer : LocalTimer) (deadline : Nat) : LocalTimer :=
  { timer with
    comparator := some (effectiveDeadline deadline (timer.counter timer.reads))
    reads := timer.reads + 1 }

def disarm (timer : LocalTimer) : LocalTimer := { timer with comparator := none }

/-- Program the next deadline, if there is one. -/
def program (timer : LocalTimer) : Option Nat → LocalTimer
  | some deadline => timer.armDeadline deadline
  | none => timer.disarm

/-- What the counter read when the timer was armed last. -/
def lastReading (timer : LocalTimer) : Nat := timer.counter (timer.reads - 1)

end LocalTimer

/-- One processor's time state with the timer that is programmed under it. -/
structure TimeCell where
  state : TimeState
  timer : LocalTimer

abbrev CellM := Effect TimeCell Panic

namespace TimeState

def tryNew (deadlineCapacity : Nat) : TimeState :=
  ⟨.tryWithCapacity deadlineCapacity, none, false, some (.empty deadlineCapacity)⟩

def scheduleEvent (deadline : Nat) (event : TimedEvent) : CellM Unit := fun cell =>
  match cell.state.queue.schedule deadline event with
  | .error panic => .error panic
  | .ok queue => .ok ((), { cell with state := { cell.state with queue := queue } })

/-- Program the timer with the next deadline and remember it. -/
def rearmTimer : CellM Unit :=
  modify fun cell =>
    let next := cell.state.queue.nextDeadline
    { state := { cell.state with armedTimerDeadline := next }, timer := cell.timer.program next }

def rearmUnlessDispatching : CellM Unit := do
  onlyIf ((← get).state.dispatchingIrq = false) rearmTimer

def cancelEvent (event : TimedEvent) (rearm : Bool) : CellM Bool := do
  let cell ← get
  let (canceled, queue) := cell.state.queue.cancel event
  set { cell with state := { cell.state with queue := queue } }
  onlyIf (canceled ∧ rearm) rearmUnlessDispatching
  pure canceled

/-- Replace the thread's quantum by its wait deadline with one timer program. -/
def publishSleep (deadline : Nat) (token : WaitToken) : CellM Unit := do
  let _ ← cancelEvent (.quantumExpired token.cpu token.thread) false
  scheduleEvent deadline (.waitDeadlineOf token)
  rearmUnlessDispatching

/-- Move expired events into the buffer, at most `fuel` of them. -/
def popExpiredLoop (cpu : CpuId) (now : Nat) :
    Nat → DeadlineQueue → ExpiredEvents → Except Panic (DeadlineQueue × ExpiredEvents)
  | 0, queue, expired => .ok (queue, expired)
  | fuel + 1, queue, expired =>
    match queue.popExpired now with
    | none => .ok (queue, expired)
    | some (event, rest) =>
      if event.cpu ≠ cpu then .error .expiredEventOfOtherCpu
      else match expired.pushBack event with
        | none => .error .expiredBufferFull
        | some expired => popExpiredLoop cpu now fuel rest expired

/-- Start a timer dispatch: take the buffer and fill it. Each round removes one
entry, so the number of entries bounds the rounds. -/
def takeExpired (cpu : CpuId) (now : Nat) : CellM ExpiredEvents := fun cell =>
  match cell.state.expired with
  | none => .error .reentrantTimerDispatch
  | some buffer =>
    match popExpiredLoop cpu now cell.state.queue.entries.length cell.state.queue buffer with
    | .error panic => .error panic
    | .ok (queue, expired) =>
      .ok (expired, { cell with state :=
        { cell.state with queue := queue, dispatchingIrq := true, expired := none } })

def cancelObsolete : Option TimedEvent → CellM Unit
  | some event => do
      let _ ← cancelEvent event false
      pure ()
  | none => pure ()

/-- Schedule an event unless it is already queued. -/
def ensureEvent : Option (Nat × TimedEvent) → CellM Unit
  | some (deadline, event) => do
      onlyIf ((← get).state.queue.eventPending event = false) (scheduleEvent deadline event)
  | none => pure ()

/-- End a timer dispatch: apply the quantum change, return the buffer, rearm. -/
def finishDispatch (quantum : QuantumUpdate) (expired : ExpiredEvents) : CellM Unit := do
  cancelObsolete quantum.obsolete
  ensureEvent quantum.ensure
  modify fun cell => { cell with state :=
    { cell.state with expired := some expired.clear, dispatchingIrq := false } }
  rearmTimer

section Specifications

variable {E : Panic → Prop} {cell : TimeCell}

variable {Q : Unit → TimeCell → Prop}

section

variable (wf : cell.state.queue.WellFormed)

include wf

/-- Scheduling replaces one entry of a well-formed queue, or finds it full. -/
theorem wp_scheduleEvent {deadline : Nat} {event : TimedEvent}
    (full : event ∉ cell.state.queue.events →
      cell.state.queue.entries.length = cell.state.queue.capacity → E .deadlineQueueFull)
    (post : ∀ queue : DeadlineQueue, queue.WellFormed →
      queue.capacity = cell.state.queue.capacity →
      queue.entries.Perm (⟨deadline, event⟩ :: cell.state.queue.others event) →
      Q () { cell with state := { cell.state with queue := queue } }) :
    WP E (scheduleEvent deadline event) Q cell := by
  by_cases stuck : event ∉ cell.state.queue.events ∧
      cell.state.queue.entries.length = cell.state.queue.capacity
  · simp only [WP, scheduleEvent, DeadlineQueue.schedule_full stuck.1 stuck.2]
    exact full stuck.1 stuck.2
  · obtain ⟨queue, run, kept, capacity, perm⟩ :=
      wf.schedule deadline fun absent same => stuck ⟨absent, same⟩
    simp only [WP, scheduleEvent, run]
    exact post queue kept capacity perm

/-- Cancelling removes one entry; it rearms only when it removed something. -/
theorem wp_cancelEvent {event : TimedEvent} {rearm : Bool} {Q : Bool → TimeCell → Prop}
    (post : ∀ queue : DeadlineQueue, queue.WellFormed →
      queue.capacity = cell.state.queue.capacity →
      queue.entries.Perm (cell.state.queue.others event) →
      ∀ canceled : Bool,
        WP E (onlyIf (canceled ∧ rearm) rearmUnlessDispatching) (fun _ => Q canceled)
          { cell with state := { cell.state with queue := queue } }) :
    WP E (cancelEvent event rearm) Q cell := by
  obtain ⟨kept, capacity, perm⟩ := wf.cancel event
  have step := post _ kept capacity perm (cell.state.queue.cancel event).1
  simpa only [cancelEvent, wp_bind, wp_get, wp_set, wp_pure] using step

/-- Removing an obsolete event never rearms. -/
theorem wp_cancelObsolete {obsolete : Option TimedEvent}
    (post : ∀ queue : DeadlineQueue, queue.WellFormed →
      queue.capacity = cell.state.queue.capacity →
      queue.entries.length ≤ cell.state.queue.entries.length →
      (∀ event, event ∈ queue.events ↔ event ∈ cell.state.queue.events ∧ obsolete ≠ some event) →
      Q () { cell with state := { cell.state with queue := queue } }) :
    WP E (cancelObsolete obsolete) Q cell := by
  cases obsolete with
  | none => exact post _ wf rfl le_rfl fun event => by simp
  | some event =>
    rw [cancelObsolete, wp_bind]
    refine wp_cancelEvent wf fun queue kept capacity perm _ => ?_
    refine wp_onlyIf.mpr ⟨fun rearms => absurd rearms.2 (by decide), fun _ => ?_⟩
    refine post queue kept capacity ?_ fun other => ?_
    · rw [perm.length_eq]
      exact List.length_filter_le ..
    · rw [DeadlineQueue.mem_events_of_perm_others perm other, ne_eq, ne_eq, Option.some.injEq,
        eq_comm (a := other)]

theorem wp_ensureEvent {ensure : Option (Nat × TimedEvent)}
    (full : cell.state.queue.entries.length = cell.state.queue.capacity → E .deadlineQueueFull)
    (post : ∀ queue : DeadlineQueue, queue.WellFormed →
      queue.capacity = cell.state.queue.capacity →
      (∀ event, event ∈ queue.events ↔
        event ∈ cell.state.queue.events ∨ ∃ deadline, ensure = some (deadline, event)) →
      Q () { cell with state := { cell.state with queue := queue } }) :
    WP E (ensureEvent ensure) Q cell := by
  cases ensure with
  | none => exact post _ wf rfl fun event => by simp
  | some request =>
    obtain ⟨deadline, event⟩ := request
    rw [ensureEvent, wp_bind, wp_get]
    refine wp_onlyIf.mpr ⟨fun _ => ?_, fun queued => ?_⟩
    · refine wp_scheduleEvent wf (fun _ => full) fun queue kept capacity perm => ?_
      refine post queue kept capacity fun other => ?_
      rw [DeadlineQueue.mem_events_of_perm_cons perm other]
      simp [or_comm, eq_comm]
    · have member : event ∈ cell.state.queue.events :=
        DeadlineQueue.eventPending_iff.mp (by simpa using queued)
      refine post _ wf rfl fun other => ⟨Or.inl, ?_⟩
      rintro (member' | ⟨_, same⟩)
      · exact member'
      · cases same
        exact member

end

theorem wp_rearmTimer :
    WP E rearmTimer Q cell ↔
      Q () ⟨{ cell.state with armedTimerDeadline := cell.state.queue.nextDeadline },
        cell.timer.program cell.state.queue.nextDeadline⟩ := Iff.rfl

theorem wp_rearmUnlessDispatching : WP E rearmUnlessDispatching Q cell ↔
      (cell.state.dispatchingIrq = false → WP E rearmTimer Q cell) ∧
      (cell.state.dispatchingIrq = true → Q () cell) := by
  rw [rearmUnlessDispatching, wp_bind, wp_get, wp_onlyIf, Bool.not_eq_false]

end Specifications

end TimeState

/-- All processors' time states and timers. -/
structure Clocks where
  states : CpuId → Option TimeState
  timer : CpuId → LocalTimer

abbrev TimeM := Effect Clocks Panic

namespace Clocks

variable {α : Type}

/-- The state after processor `executing` replaced the state of `owner` and, as
far as it programmed it, its own timer. -/
def put (clocks : Clocks) (executing owner : CpuId) (cell : TimeCell) : Clocks where
  states := update clocks.states owner (some cell.state)
  timer := update clocks.timer executing cell.timer

/-- Run an operation inside the time lock of `owner`. -/
def withTimeMut (executing owner : CpuId) (operation : CellM α) : TimeM α := fun clocks =>
  match clocks.states owner with
  | none => .error .timeUninitialized
  | some state =>
    match operation ⟨state, clocks.timer executing⟩ with
    | .error panic => .error panic
    | .ok (value, cell) => .ok (value, clocks.put executing owner cell)

/-- An operation under a time lock is judged on that processor's cell. -/
theorem wp_withTimeMut {E : Panic → Prop} {executing owner : CpuId} {operation : CellM α}
    {Q : α → Clocks → Prop} {clocks : Clocks} :
    WP E (withTimeMut executing owner operation) Q clocks ↔
      (clocks.states owner = none → E .timeUninitialized) ∧
      ∀ state, clocks.states owner = some state →
        WP E operation (fun value cell => Q value (clocks.put executing owner cell))
          ⟨state, clocks.timer executing⟩ := by
  simp only [WP, withTimeMut]
  cases clocks.states owner with
  | none => simp
  | some state =>
    cases run : operation ⟨state, clocks.timer executing⟩ with
    | error panic => simp [run]
    | ok outcome => simp [run]

/-- Publish an empty queue for each of the first `cpuCount` processors. -/
def initCpuStates (cpuCount : Nat) (counter : CpuId → Nat → Nat) : Clocks where
  states cpu := if cpu.val < cpuCount then
    some (.tryNew (kernelThreadCapacity * timedEventCapacityPerThread)) else none
  timer cpu := ⟨none, counter cpu, 0⟩

def scheduleEvent (executing : CpuId) (deadline : Nat) (event : TimedEvent) : TimeM Unit := do
  stopIf (event.cpu ≠ executing) .remoteSchedule
  withTimeMut executing executing do
    TimeState.scheduleEvent deadline event
    TimeState.rearmUnlessDispatching

def publishSleep (executing : CpuId) (deadline : Nat) (token : WaitToken) : TimeM Unit := do
  stopIf (token.cpu ≠ executing) .remoteSleep
  withTimeMut executing token.cpu (TimeState.publishSleep deadline token)

def cancelEvent (executing : CpuId) (event : TimedEvent) : TimeM Bool :=
  withTimeMut executing event.cpu (TimeState.cancelEvent event (executing = event.cpu))

def eventPending (executing : CpuId) (event : TimedEvent) : TimeM Bool :=
  withTimeMut executing event.cpu do return (← get).state.queue.eventPending event

/-- The first section of a timer interrupt. A processor whose queue does not
exist yet disarms its timer. -/
def beginTimerInterrupt (executing : CpuId) (now : Nat) : TimeM (Option ExpiredEvents) :=
  fun clocks =>
    match clocks.states executing with
    | none =>
      .ok (none,
        { clocks with timer := update clocks.timer executing (clocks.timer executing).disarm })
    | some _ =>
      ((some <$> withTimeMut executing executing (TimeState.takeExpired executing now) :
        TimeM (Option ExpiredEvents)) clocks)

/-- The last section of a timer interrupt. -/
def endTimerInterrupt (executing : CpuId) (quantum : QuantumUpdate) (expired : ExpiredEvents) :
    TimeM Unit :=
  withTimeMut executing executing (TimeState.finishDispatch quantum expired)

end Clocks

end Genrt
