import Genrt.Foundation.Machine
import Genrt.Time.Conversion
import Genrt.Time.Queue

/-!
# Sleeping

A kernel thread sleeps for a duration: it converts the duration to counts and adds
them to the counter, in wrapping arithmetic. A user process sleeps until a time or for
one: `clock_nanosleep` checks its arguments and turns them into a counter value. Both
return at once if the counter has passed that value. Otherwise the thread registers a
wait, queues the deadline on its processor and blocks until the timer has taken the
event off the queue and completed the wait.

A kernel thread does this piece by piece and consumes its wait itself. The system call
does it under the scheduler lock, in one step that also removes the quantum of the
thread; the wake consumes the wait, and the success code is stored before.

The steps of all threads, of the timers and of the clock interleave freely. The clock
does not wrap; the counter is its low word.
-/

namespace Genrt

open Function

/-! ### What is asked for -/

inductive SleepUnit where
  | us
  | ms
deriving DecidableEq, Repr

def SleepUnit.perSecond : SleepUnit → Nat
  | .us => 1000000
  | .ms => 1000

/-- A sleep of a kernel thread, and the clock when it read the counter. -/
structure Nap where
  unit : SleepUnit
  units : Nat
  started : Nat
deriving DecidableEq, Repr

/-- The duration in counts, rounded up, without a bound. -/
def Nap.duration (nap : Nap) (frequency : Nat) : Nat :=
  divCeil (nap.units * max frequency 1) nap.unit.perSecond

/-- The sum of the counter and the duration fits in a word. -/
def Nap.Fits (nap : Nap) (frequency : Nat) : Prop :=
  nap.started % u64Limit + nap.duration frequency < u64Limit

inductive ClockErrno where
  | einval
  | efault
  | eoverflow
deriving DecidableEq, Repr

def clockMonotonic : Int := 1

def timerAbstime : Nat := 1

def timeErrno : TimeConversionError → ClockErrno
  | .invalidFrequency => .einval
  | .overflow => .eoverflow

/-- The arguments of the call. `requested` is what the copy of the user's time gives:
the two signed fields, or nothing if the pointer is bad. -/
structure NanosleepRequest where
  clockId : Int
  flags : Nat
  requested : Option (Int × Int)
deriving DecidableEq, Repr

namespace NanosleepRequest

/-- The checks of the arguments, and the time that passes them. -/
def time (request : NanosleepRequest) : Except ClockErrno MonotonicTime :=
  if request.clockId ≠ clockMonotonic then .error .einval
  else if request.flags ≠ 0 ∧ request.flags ≠ timerAbstime then .error .einval
  else
    match request.requested with
    | none => .error .efault
    | some (seconds, nanoseconds) =>
      if seconds < 0 then .error .einval
      else if nanoseconds < 0 ∨ 2 ^ 32 ≤ nanoseconds then .error .einval
      else if (nanosecondsPerSecond : Int) ≤ nanoseconds then .error .einval
      else .ok ⟨seconds.toNat, nanoseconds.toNat⟩

/-- The counter value to sleep for; a relative sleep of no counts has none. -/
def deadline (request : NanosleepRequest) (frequency now : Nat) :
    Except ClockErrno (Option Nat) := do
  let time ← request.time
  let counts ← (monotonicTimeToCounterAtFrequency time.seconds time.nanoseconds frequency).mapError
    timeErrno
  if request.flags = timerAbstime then .ok (some counts)
  else if counts = 0 then .ok none
  else
    match checkedAddU64 now counts with
    | some deadline => .ok (some deadline)
    | none => .error .eoverflow

/-- The time that passes is the one the user gave, and it is normalized. -/
theorem time_eq_ok {request : NanosleepRequest} {time : MonotonicTime}
    (passed : request.time = .ok time) : time.nanoseconds < nanosecondsPerSecond ∧
      request.requested = some ((time.seconds : Int), (time.nanoseconds : Int)) := by
  unfold NanosleepRequest.time at passed
  split_ifs at passed
  split at passed
  · cases passed
  · next seconds nanoseconds found =>
    split_ifs at passed with early narrow fraction
    cases passed
    rw [found]
    dsimp only
    refine ⟨by omega, ?_⟩
    rw [Int.toNat_of_nonneg (by omega), Int.toNat_of_nonneg (by omega)]

end NanosleepRequest

/-- The deadline of an absolute call is the first counter value that shows its time. -/
theorem NanosleepRequest.deadline_absolute {request : NanosleepRequest} {frequency now : Nat}
    {deadline : Option Nat} (computed : request.deadline frequency now = .ok deadline)
    (absolute : request.flags = timerAbstime) :
    ∃ time, request.time = .ok time ∧ deadline = some (firstCounter frequency time) := by
  obtain ⟨time, passed, computed⟩ := Result.bind_eq_ok.mp computed
  obtain ⟨counts, converted, found⟩ := Result.bind_eq_ok.mp computed
  rw [if_pos absolute] at found
  cases found
  rw [firstCounter_of_ok (Result.mapError_eq_ok.mp converted)]
  exact ⟨time, passed, rfl⟩

inductive Sleep where
  | kernel (nap : Nap)
  | user (request : NanosleepRequest)
deriving DecidableEq, Repr

namespace Sleep

/-- The wait of a system call is consumed by its wake. -/
def consumption : Sleep → WaitConsumption
  | .kernel _ => .explicit
  | .user _ => .automatic

/-- What a sleep that is over promises of the clock: the duration of a nap has passed,
or the time of an absolute call has come. -/
def Over (frequency : Nat) : Sleep → Nat → Prop
  | .kernel nap, clock => nap.Fits frequency → nap.started + nap.duration frequency ≤ clock
  | .user request, clock => request.flags = timerAbstime →
    ∃ time, request.time = .ok time ∧ firstCounter frequency time ≤ clock

theorem Over.mono {frequency clock later : Nat} {sleep : Sleep} (done : sleep.Over frequency clock)
    (after : clock ≤ later) : sleep.Over frequency later := by
  cases sleep with
  | kernel nap => exact fun fits => Nat.le_trans (done fits) after
  | user request =>
    intro absolute
    obtain ⟨time, passed, come⟩ := done absolute
    exact ⟨time, passed, Nat.le_trans come after⟩

end Sleep

/-! ### Steps -/

/-- What a sleeper does next. -/
inductive SleepPc where
  | awake
  /-- Read the counter and compute the deadline. -/
  | measuring (unit : SleepUnit) (units : Nat)
  /-- Compare the deadline with the counter. -/
  | comparing (sleep : Sleep) (deadline : Nat)
  | preparing (sleep : Sleep) (deadline : Nat)
  /-- Queue the deadline of the prepared wait. -/
  | scheduling (sleep : Sleep) (deadline : Nat) (prepared : PreparedWait)
  | committing (sleep : Sleep) (prepared : PreparedWait)
  | blocked (sleep : Sleep) (token : WaitToken)

/-- The deadline a sleeper has still to use. -/
def SleepPc.deadline? : SleepPc → Option (Sleep × Nat)
  | .comparing sleep deadline | .preparing sleep deadline | .scheduling sleep deadline _ =>
    some (sleep, deadline)
  | .awake | .measuring _ _ | .committing _ _ | .blocked _ _ => none

/-- The wait a sleeper is registered for. -/
def SleepPc.token? : SleepPc → Option (Sleep × WaitToken)
  | .scheduling sleep _ prepared | .committing sleep prepared => some (sleep, prepared.token)
  | .blocked sleep token => some (sleep, token)
  | .awake | .measuring _ _ | .comparing _ _ | .preparing _ _ => none

structure SleepThread where
  cpu : CpuId
  wait : WaitMetadata
  pc : SleepPc

inductive SleepPanic where
  | staleBeforeCommit
  | finishFailed
  | kernel (panic : Panic)
deriving DecidableEq, Repr

/-- All sleepers and the timers. `expired` are the tokens whose events a timer has
taken and whose waits it has still to complete; `ended` are the sleeps that have
returned without an error, with the clock at their return. -/
structure Sleepers where
  frequency : Nat
  clock : Nat
  sleepers : ThreadId → SleepThread
  queues : CpuId → DeadlineQueue
  expired : List WaitToken
  ended : List (Sleep × Nat)

namespace Sleepers

variable (s : Sleepers)

def nowCounter : Nat := s.clock % u64Limit

def setSleeper (id : ThreadId) (sleeper : SleepThread) : Sleepers :=
  { s with sleepers := update s.sleepers id sleeper }

def setPc (id : ThreadId) (pc : SleepPc) : Sleepers :=
  s.setSleeper id { s.sleepers id with pc := pc }

/-- A sleep returns. -/
def wake (id : ThreadId) (sleep : Sleep) : Sleepers :=
  { s.setPc id .awake with ended := (sleep, s.clock) :: s.ended }

/-- `usleep` and `msleep`. -/
def sleep (id : ThreadId) (unit : SleepUnit) (units : Nat) : Sleepers :=
  if units = 0 then s.wake id (.kernel ⟨unit, units, s.clock⟩)
  else s.setPc id (.measuring unit units)

def measure (id : ThreadId) (unit : SleepUnit) (units : Nat) : Sleepers :=
  s.setPc id (.comparing (.kernel ⟨unit, units, s.clock⟩)
    (wrappingAddU64 s.nowCounter (scaleToCounts s.frequency units unit.perSecond)))

/-- `sys_clock_nanosleep`; a call that fails leaves no trace. -/
def nanosleep (id : ThreadId) (request : NanosleepRequest) : Sleepers :=
  match request.deadline s.frequency s.nowCounter with
  | .error _ => s
  | .ok none => s.wake id (.user request)
  | .ok (some deadline) => s.setPc id (.comparing (.user request) deadline)

/-- `sleep_until_counter` returns when the deadline has passed. -/
def compare (id : ThreadId) (sleep : Sleep) (deadline : Nat) : Sleepers :=
  if deadline ≤ s.nowCounter then s.wake id sleep else s.setPc id (.preparing sleep deadline)

def prepare (id : ThreadId) (sleep : Sleep) (deadline : Nat) :
    Except SleepPanic (PreparedWait × Sleepers) := do
  let sleeper := s.sleepers id
  let registered ← (sleeper.wait.prepareWithConsumption id sleeper.cpu sleep.consumption).mapError
    .kernel
  .ok (registered.1, s.setSleeper id
    { sleeper with wait := registered.2, pc := .scheduling sleep deadline registered.1 })

def setQueue (cpu : CpuId) (queue : DeadlineQueue) : Sleepers :=
  { s with queues := update s.queues cpu queue }

def cancel (cpu : CpuId) (event : TimedEvent) : Sleepers :=
  s.setQueue cpu ((s.queues cpu).cancel event).2

/-- Queue an event on a processor. -/
def schedule (cpu : CpuId) (deadline : Nat) (event : TimedEvent) : Except SleepPanic Sleepers := do
  let queue ← ((s.queues cpu).schedule deadline event).mapError .kernel
  .ok (s.setQueue cpu queue)

/-- Queue the deadline of a prepared wait. -/
def publish (id : ThreadId) (sleep : Sleep) (deadline : Nat) (prepared : PreparedWait) :
    Except SleepPanic Sleepers := do
  let s ← s.schedule prepared.token.cpu deadline (.waitDeadlineOf prepared.token)
  .ok (s.setPc id (.committing sleep prepared))

/-- A system call that does not block takes its event off the queue again. -/
def withdraw (sleep : Sleep) (token : WaitToken) : Sleepers :=
  match sleep with
  | .kernel _ => s
  | .user _ => s.cancel token.cpu (.waitDeadlineOf token)

def commit (id : ThreadId) (sleep : Sleep) (prepared : PreparedWait) :
    Except SleepPanic Sleepers :=
  let sleeper := s.sleepers id
  match sleeper.wait.commit prepared with
  | (.block token, wait) =>
    .ok (s.setSleeper id { sleeper with wait := wait, pc := .blocked sleep token })
  | (.early _, wait) =>
    .ok (((s.setSleeper id { sleeper with wait := wait }).wake id sleep).withdraw sleep
      prepared.token)
  | (.stale, _) => .error .staleBeforeCommit

/-- `sleep_user_until_counter`, under the scheduler lock. The deadline replaces the
quantum of the thread. -/
def sleepUserUntilCounter (id : ThreadId) (sleep : Sleep) (deadline : Nat) :
    Except SleepPanic Sleepers := do
  let (prepared, s) ← s.prepare id sleep deadline
  let token := prepared.token
  let s ← (s.cancel token.cpu (.quantumExpired token.cpu token.thread)).publish id sleep deadline
    prepared
  s.commit id sleep prepared

/-- A kernel thread that was woken consumes its wait and returns. -/
def finish (id : ThreadId) (sleep : Sleep) (token : WaitToken) : Except SleepPanic Sleepers :=
  let sleeper := s.sleepers id
  match sleeper.wait.finish token with
  | (.ok _, wait) => .ok ((s.setSleeper id { sleeper with wait := wait }).wake id sleep)
  | (.error _, _) => .error .finishFailed

/-- The next step of a sleeper, if it can take one. -/
def advance (id : ThreadId) : Except SleepPanic (Option Sleepers) :=
  match (s.sleepers id).pc with
  | .awake => .ok none
  | .measuring unit units => .ok (some (s.measure id unit units))
  | .comparing sleep deadline => .ok (some (s.compare id sleep deadline))
  | .preparing (.kernel nap) deadline =>
    (fun done => some done.2) <$> s.prepare id (.kernel nap) deadline
  | .preparing (.user request) deadline =>
    some <$> s.sleepUserUntilCounter id (.user request) deadline
  | .scheduling sleep deadline prepared => some <$> s.publish id sleep deadline prepared
  | .committing sleep prepared => some <$> s.commit id sleep prepared
  | .blocked (.kernel nap) token =>
    if (s.sleepers id).wait.isCompleted then some <$> s.finish id (.kernel nap) token else .ok none
  | .blocked (.user request) _ =>
    .ok (if (s.sleepers id).wait.isNone then some (s.wake id (.user request)) else none)

/-- A timer takes a due event off its queue. -/
def popExpired (cpu : CpuId) : Option Sleepers :=
  match (s.queues cpu).popExpired s.nowCounter with
  | none => none
  | some (.waitDeadline _ token, queue) =>
    some { s.setQueue cpu queue with expired := token :: s.expired }
  | some (.quantumExpired _ _, queue) => some (s.setQueue cpu queue)

/-- A timer completes the wait of an event it has taken. -/
def complete (token : WaitToken) : Option Sleepers :=
  if token ∈ s.expired then
    let sleeper := s.sleepers token.thread
    some ({ s with expired := s.expired.erase token }.setSleeper token.thread
      { sleeper with wait := (sleeper.wait.complete token .timeout).2 })
  else none

end Sleepers

/-- A thread begins to sleep or goes on, a timer works, a quantum is queued or
removed, or time passes. -/
inductive SleepMove where
  | sleep (id : ThreadId) (unit : SleepUnit) (units : Nat)
  | nanosleep (id : ThreadId) (request : NanosleepRequest)
  | advance (id : ThreadId)
  | popExpired (cpu : CpuId)
  | complete (token : WaitToken)
  | startQuantum (cpu : CpuId) (deadline : Nat) (thread : ThreadId)
  | cancelQuantum (cpu : CpuId) (thread : ThreadId)
  | tick

namespace Sleepers

/-- A thread that is awake begins. -/
def begin (s : Sleepers) (id : ThreadId) (next : Sleepers) : Option Sleepers :=
  match (s.sleepers id).pc with
  | .awake => some next
  | _ => none

def move (s : Sleepers) : SleepMove → Except SleepPanic (Option Sleepers)
  | .sleep id unit units => .ok (s.begin id (s.sleep id unit units))
  | .nanosleep id request => .ok (s.begin id (s.nanosleep id request))
  | .advance id => s.advance id
  | .popExpired cpu => .ok (s.popExpired cpu)
  | .complete token => .ok (s.complete token)
  | .startQuantum cpu deadline thread =>
    some <$> s.schedule cpu deadline (.quantumExpired cpu thread)
  | .cancelQuantum cpu thread => .ok (some (s.cancel cpu (.quantumExpired cpu thread)))
  | .tick => .ok (some { s with clock := s.clock + 1 })

/-- Nobody has slept yet, and no event is queued. -/
structure Initial (s : Sleepers) : Prop where
  awake : ∀ id, (s.sleepers id).pc = .awake
  queues : ∀ cpu, (s.queues cpu).entries = []
  expired : s.expired = []
  ended : s.ended = []

/-- All interleavings. -/
def machine : Machine Sleepers SleepMove where
  initial := Initial
  step s label t := s.move label = .ok (some t)

end Sleepers

end Genrt
