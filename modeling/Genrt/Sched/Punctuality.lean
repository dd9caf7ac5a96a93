import Genrt.Sched.Sleep

/-!
# Sleeps that have returned are over

The timer holds the token of a wait for the deadline of its sleep only, and takes it
when the counter has passed the deadline. So the wait is pending until the duration is
over or the time has come. This needs a deadline that the counter shows no earlier: an
absolute one, or a sum that fits in a word. A sum that does not fit is shown too early.
-/

namespace Genrt.Sleepers

open Function

/-- Once the counter has passed the deadline, the sleep is over. -/
def Honest (s : Sleepers) (sleep : Sleep) (deadline : Nat) : Prop :=
  ∀ clock, s.clock ≤ clock → deadline ≤ clock % u64Limit → sleep.Over s.frequency clock

/-- The timer's part of the deadline's event. -/
def Queued (s : Sleepers) (token : WaitToken) (deadline : Nat) : Prop :=
  ∃ cpu owner, ⟨deadline, .waitDeadline owner token⟩ ∈ (s.queues cpu).entries

/-- A wait for the end of a sleep: what the timer holds for its token is in keeping
with the sleep, and the wait is pending until the sleep is over. -/
structure Guarded (s : Sleepers) (id : ThreadId) (wait : WaitMetadata) (sleep : Sleep)
    (token : WaitToken) : Prop where
  owner : token.thread = id
  issued : token.sequence ≤ wait.nextSequence
  queued : ∀ deadline, s.Queued token deadline → s.Honest sleep deadline
  expired : token ∈ s.expired → sleep.Over s.frequency s.clock
  pending : sleep.Over s.frequency s.clock ∨ ∃ active, wait.active = some active ∧
    active.token = token ∧ ∀ cause, active.phase ≠ .completed cause

structure Timed (s : Sleepers) (id : ThreadId) (sleeper : SleepThread) : Prop where
  honest : ∀ sleep deadline, sleeper.pc.deadline? = some (sleep, deadline) → s.Honest sleep deadline
  guarded : ∀ sleep token, sleeper.pc.token? = some (sleep, token) →
    Guarded s id sleeper.wait sleep token

structure Timely (s : Sleepers) : Prop where
  queues : ∀ cpu, (s.queues cpu).WellFormed
  sleepers : ∀ id, Timed s id (s.sleepers id)
  queued : ∀ token deadline, s.Queued token deadline →
    token.sequence ≤ (s.sleepers token.thread).wait.nextSequence
  expired : ∀ token ∈ s.expired, token.sequence ≤ (s.sleepers token.thread).wait.nextSequence
  ended : ∀ entry ∈ s.ended, entry.2 ≤ s.clock ∧ entry.1.Over s.frequency entry.2

/-- What every step does. Time does not go back; a thread is left alone or timed
again; a queued event is an old one or belongs to a thread that is timed; a token
expires when its deadline has come. -/
structure Progress (s t : Sleepers) : Prop where
  frequency : t.frequency = s.frequency
  clock : s.clock ≤ t.clock
  queues : ∀ cpu, (t.queues cpu).WellFormed
  sequence : ∀ id, (s.sleepers id).wait.nextSequence ≤ (t.sleepers id).wait.nextSequence
  sleepers : ∀ id, t.sleepers id = s.sleepers id ∨ Timed t id (t.sleepers id)
  queued : ∀ token deadline, t.Queued token deadline → s.Queued token deadline ∨
    token.sequence ≤ (t.sleepers token.thread).wait.nextSequence ∧
      Timed t token.thread (t.sleepers token.thread)
  expired : ∀ token ∈ t.expired, token ∈ s.expired ∨
    ∃ deadline, s.Queued token deadline ∧ deadline ≤ t.nowCounter
  ended : ∀ entry ∈ t.ended, entry ∈ s.ended ∨
    entry.2 = t.clock ∧ entry.1.Over t.frequency entry.2

variable {s t : Sleepers} {id : ThreadId} {sleeper : SleepThread} {sleep : Sleep}
  {token : WaitToken} {deadline : Nat} {cpu : CpuId} {prepared : PreparedWait}

theorem Honest.carry (honest : s.Honest sleep deadline) (frequency : t.frequency = s.frequency)
    (clock : s.clock ≤ t.clock) : t.Honest sleep deadline := by
  intro later after passed
  rw [frequency]
  exact honest later (Nat.le_trans clock after) passed

/-- A wait of which the timer gets no new event keeps its guard. -/
theorem Guarded.carry {wait : WaitMetadata} (h : Guarded s id wait sleep token)
    (step : Progress s t) (old : ∀ deadline, t.Queued token deadline → s.Queued token deadline) :
    Guarded t id wait sleep token where
  owner := h.owner
  issued := h.issued
  queued deadline armed := (h.queued deadline (old deadline armed)).carry step.frequency step.clock
  expired member := by
    rw [step.frequency]
    rcases step.expired token member with before | ⟨deadline, armed, passed⟩
    · exact (h.expired before).mono step.clock
    · exact h.queued deadline armed t.clock step.clock passed
  pending := by
    rw [step.frequency]
    exact h.pending.imp_left fun done => done.mono step.clock

section

variable (h : Timely s)

include h

theorem Timely.progress (step : Progress s t) : Timely t where
  queues := step.queues
  sleepers id := by
    rcases step.sleepers id with same | timed
    · -- a new event of the thread means that it is timed; otherwise its guard is kept
      by_cases fresh : ∃ token deadline, token.thread = id ∧ t.Queued token deadline ∧
          ¬ s.Queued token deadline
      · obtain ⟨token, deadline, rfl, armed, new⟩ := fresh
        exact ((step.queued token deadline armed).resolve_left new).2
      · rw [same]
        refine ⟨fun sleep deadline found => ?_, fun sleep token found => ?_⟩
        · exact ((h.sleepers id).honest sleep deadline found).carry step.frequency step.clock
        · have guarded := (h.sleepers id).guarded sleep token found
          refine guarded.carry step fun deadline armed => ?_
          by_contra new
          exact fresh ⟨token, deadline, guarded.owner, armed, new⟩
    · exact timed
  queued token deadline armed := by
    rcases step.queued token deadline armed with old | ⟨issued, _⟩
    · exact Nat.le_trans (h.queued token deadline old) (step.sequence _)
    · exact issued
  expired token member := by
    rcases step.expired token member with old | ⟨deadline, armed, _⟩
    · exact Nat.le_trans (h.expired token old) (step.sequence _)
    · exact Nat.le_trans (h.queued token deadline armed) (step.sequence _)
  ended entry member := by
    rcases step.ended entry member with old | ⟨now, done⟩
    · rw [step.frequency]
      exact ⟨Nat.le_trans (h.ended entry old).1 step.clock, (h.ended entry old).2⟩
    · exact ⟨Nat.le_of_eq now, done⟩

/-- A sleeper goes on; an event that is new is its own. -/
theorem Timely.step (sleepers : t.sleepers = update s.sleepers id sleeper)
    (frequency : t.frequency = s.frequency) (clock : t.clock = s.clock)
    (queues : ∀ cpu, (t.queues cpu).WellFormed)
    (queued : ∀ token deadline, t.Queued token deadline → s.Queued token deadline ∨
      token.thread = id ∧ token.sequence ≤ sleeper.wait.nextSequence)
    (expired : ∀ token ∈ t.expired, token ∈ s.expired)
    (sequence : (s.sleepers id).wait.nextSequence ≤ sleeper.wait.nextSequence)
    (ended : ∀ entry ∈ t.ended, entry ∈ s.ended ∨
      entry.2 = t.clock ∧ entry.1.Over t.frequency entry.2) (after : Timed t id sleeper) :
    Timely t := by
  have mine : t.sleepers id = sleeper := by rw [sleepers, update_self]
  refine h.progress ⟨frequency, Nat.le_of_eq clock.symm, queues, fun other => ?_, fun other => ?_,
    fun token deadline armed => ?_, fun token member => .inl (expired token member), ended⟩
  · by_cases here : other = id
    · rw [here, mine]
      exact sequence
    · rw [sleepers, update_of_ne here]
  · by_cases here : other = id
    · rw [here, mine]
      exact .inr after
    · rw [sleepers, update_of_ne here]
      exact .inl rfl
  · rcases queued token deadline armed with old | ⟨rfl, issued⟩
    · exact .inl old
    · rw [mine]
      exact .inr ⟨issued, after⟩

/-- A sleeper goes on and the timers are not touched. -/
theorem Timely.setSleeper (sequence : (s.sleepers id).wait.nextSequence ≤ sleeper.wait.nextSequence)
    (after : Timed s id sleeper) : Timely (s.setSleeper id sleeper) :=
  h.step rfl rfl rfl h.queues (fun _ _ => .inl) (fun _ member => member) sequence (fun _ => .inl)
    ⟨after.honest, fun sleep token found => { after.guarded sleep token found with }⟩

theorem Timely.setPc {pc : SleepPc} (after : Timed s id { s.sleepers id with pc := pc }) :
    Timely (s.setPc id pc) :=
  h.setSleeper le_rfl after

theorem Timely.wake (done : sleep.Over s.frequency s.clock) : Timely (s.wake id sleep) := by
  refine h.step rfl rfl rfl h.queues (fun _ _ => .inl) (fun _ member => member) le_rfl
    (fun entry member => ?_) ⟨by simp [SleepPc.deadline?], by simp [SleepPc.token?]⟩
  rcases List.mem_cons.mp member with rfl | before
  · exact .inr ⟨rfl, done⟩
  · exact .inl before

/-- The wait of a sleep that is over is consumed, and the sleep returns. -/
theorem Timely.consume (held : (s.sleepers id).pc.token? = some (sleep, token))
    (done : sleep.Over s.frequency s.clock) : Timely ((s.setSleeper id { s.sleepers id with
      wait := { (s.sleepers id).wait with active := none } }).wake id sleep) := by
  have guarded := (h.sleepers id).guarded sleep token held
  have kept : Timely (s.setSleeper id { s.sleepers id with
      wait := { (s.sleepers id).wait with active := none } }) := by
    refine h.setSleeper le_rfl ⟨(h.sleepers id).honest, fun other waited found => ?_⟩
    cases held.symm.trans found
    exact { guarded with pending := .inl done }
  exact kept.wake done

end

/-- A sleep whose wait is no longer pending is over. -/
theorem Guarded.done {wait : WaitMetadata} (h : Guarded s id wait sleep token)
    (settled : ∀ active, wait.active = some active → ∃ cause, active.phase = .completed cause) :
    sleep.Over s.frequency s.clock := by
  refine h.pending.resolve_right ?_
  rintro ⟨active, found, _, uncompleted⟩
  obtain ⟨cause, completed⟩ := settled active found
  exact uncompleted cause completed

/-! ### Steps of the timers -/

section

variable (h : Timely s)

include h

/-- A queue changes without a new deadline. -/
theorem Timely.setQueue {queue : DeadlineQueue} (wf : queue.WellFormed)
    (old : ∀ owner token deadline, ⟨deadline, .waitDeadline owner token⟩ ∈ queue.entries →
      ⟨deadline, .waitDeadline owner token⟩ ∈ (s.queues cpu).entries) {expired : List WaitToken}
    (tokens : ∀ token ∈ expired, token ∈ s.expired ∨
      ∃ deadline, s.Queued token deadline ∧ deadline ≤ s.nowCounter) :
    Timely { s.setQueue cpu queue with expired := expired } := by
  refine h.progress ⟨rfl, le_rfl, wf.update h.queues, fun _ => le_rfl, fun _ => .inl rfl,
    fun token deadline armed => .inl ?_, tokens, fun _ => .inl⟩
  rcases DeadlineQueue.mem_of_update armed with before | ⟨owner, member⟩
  · exact before
  · exact ⟨cpu, owner, old owner token deadline member⟩

theorem Timely.cancel (event : TimedEvent) : Timely (s.cancel cpu event) := by
  obtain ⟨wf, _, perm⟩ := (h.queues cpu).cancel event
  exact h.setQueue wf (fun _ _ _ => DeadlineQueue.mem_of_perm_others perm) fun _ => .inl

theorem Timely.popExpired (taken : s.popExpired cpu = some t) : Timely t := by
  unfold Sleepers.popExpired at taken
  split at taken
  · cases taken
  · next owner token queue popped =>
    cases taken
    obtain ⟨wf, _, perm, deadline, member, passed⟩ := (h.queues cpu).popExpired_some popped
    refine h.setQueue wf (fun _ _ _ => DeadlineQueue.mem_of_perm_others perm) fun other held => ?_
    rcases List.mem_cons.mp held with rfl | before
    · exact .inr ⟨deadline, ⟨cpu, owner, member⟩, passed⟩
    · exact .inl before
  · next popped =>
    cases taken
    obtain ⟨wf, _, perm, _⟩ := (h.queues cpu).popExpired_some popped
    exact h.setQueue wf (fun _ _ _ => DeadlineQueue.mem_of_perm_others perm) fun _ => .inl

/-- A completion ends the wait of a sleep that is over, or does nothing. -/
theorem Timely.complete (taken : s.complete token = some t) : Timely t := by
  unfold Sleepers.complete at taken
  dsimp only at taken
  split at taken
  · next expired =>
    cases taken
    let wait := (s.sleepers token.thread).wait
    have told : Timely (s.setSleeper token.thread { s.sleepers token.thread with
        wait := (wait.complete token .timeout).2 }) := by
      rcases wait.complete_cases token .timeout with
        ⟨_, same⟩ | ⟨a, active, named, _, _, sequence, _⟩
      · rw [same]
        exact h.setSleeper le_rfl (h.sleepers token.thread)
      · refine h.setSleeper (Nat.le_of_eq sequence.symm) ⟨(h.sleepers _).honest, ?_⟩
        intro sleep held found
        have guarded := (h.sleepers token.thread).guarded sleep held found
        refine { guarded with issued := sequence ▸ guarded.issued, pending := .inl ?_ }
        rcases guarded.pending with done | ⟨other, registered, own, _⟩
        · exact done
        · cases active.symm.trans registered
          obtain rfl := named.symm.trans own
          exact guarded.expired expired
    refine told.progress ⟨rfl, le_rfl, told.queues, fun _ => le_rfl, fun _ => .inl rfl,
      fun _ _ => .inl, fun _ member => .inl (List.mem_of_mem_erase member), fun _ => .inl⟩
  · cases taken

/-! ### Steps of a sleeper -/

/-- A deadline computed without overflow is honest. -/
theorem Timely.measure {unit : SleepUnit} {units : Nat} : Timely (s.measure id unit units) := by
  refine h.setPc ⟨fun sleep deadline found => ?_, by simp [SleepPc.token?]⟩
  cases found
  intro later after passed fits
  have divisor : 0 < unit.perSecond ∧ unit.perSecond ≤ u64Limit := by cases unit <;> decide
  have counts := scaleToCounts_eq s.frequency units divisor.1 divisor.2
  unfold Nap.Fits at fits
  unfold Nap.duration at fits ⊢
  rw [counts, wrappingAddU64, nowCounter] at passed
  dsimp only at fits ⊢
  unfold u64Limit at fits passed
  omega

theorem Timely.nanosleep {request : NanosleepRequest} : Timely (s.nanosleep id request) := by
  unfold Sleepers.nanosleep
  split
  · exact h
  · next computed =>
    refine h.wake fun absolute => ?_
    obtain ⟨_, _, found⟩ := request.deadline_absolute computed absolute
    cases found
  · next computed =>
    refine h.setPc ⟨fun sleep deadline found => ?_, by simp [SleepPc.token?]⟩
    cases found
    intro later _ passed absolute
    obtain ⟨time, given, found⟩ := request.deadline_absolute computed absolute
    cases found
    exact ⟨time, given, Nat.le_trans passed (Nat.mod_le _ _)⟩

theorem Timely.compare (pc : (s.sleepers id).pc = .comparing sleep deadline) :
    Timely (s.compare id sleep deadline) := by
  have honest := (h.sleepers id).honest sleep deadline (by rw [pc]; rfl)
  unfold Sleepers.compare
  split
  · next passed => exact h.wake (honest s.clock le_rfl passed)
  · refine h.setPc ⟨fun _ _ found => ?_, by simp [SleepPc.token?]⟩
    cases found
    exact honest

/-- A fresh token is known to no timer. -/
theorem Timely.prepare (pc : (s.sleepers id).pc = .preparing sleep deadline)
    (taken : s.prepare id sleep deadline = .ok (prepared, t)) :
    Timely t ∧ (t.sleepers id).pc = .scheduling sleep deadline prepared := by
  have honest := (h.sleepers id).honest sleep deadline (by rw [pc]; rfl)
  obtain ⟨⟨made, wait⟩, registers, done⟩ := Result.bind_eq_ok.mp taken
  cases done
  obtain ⟨_, rfl, rfl⟩ := WaitMetadata.prepare_cases (Result.mapError_eq_ok.mp registers)
  refine ⟨h.setSleeper (Nat.le_succ _) ⟨fun _ _ found => ?_, fun _ _ found => ?_⟩, ?_⟩
  · cases found
    exact honest
  · cases found
    refine ⟨rfl, le_rfl, fun later armed => ?_, fun member => ?_, .inr ⟨_, rfl, rfl, by simp⟩⟩
    · exact absurd (h.queued _ _ armed) (Nat.not_succ_le_self _)
    · exact absurd (h.expired _ member) (Nat.not_succ_le_self _)
  · simp [Sleepers.setSleeper]

/-- The event of a prepared sleep is queued. -/
theorem Timely.publish (pc : (s.sleepers id).pc = .scheduling sleep deadline prepared)
    (taken : s.publish id sleep deadline prepared = .ok t) :
    Timely t ∧ (t.sleepers id).pc = .committing sleep prepared := by
  have honest := (h.sleepers id).honest sleep deadline (by rw [pc]; rfl)
  have guarded := (h.sleepers id).guarded sleep prepared.token (by rw [pc]; rfl)
  obtain ⟨u, scheduled, done⟩ := Result.bind_eq_ok.mp taken
  cases done
  obtain ⟨queue, run, done⟩ := Result.bind_eq_ok.mp scheduled
  cases done
  obtain ⟨wf, perm⟩ := (h.queues _).of_schedule (Result.mapError_eq_ok.mp run)
  have armed_cases : ∀ token later,
      (s.setQueue prepared.token.cpu queue).Queued token later →
      s.Queued token later ∨ later = deadline ∧ token = prepared.token := by
    intro token later armed
    rcases DeadlineQueue.mem_of_update armed with old | ⟨owner, member⟩
    · exact .inl old
    · rcases List.mem_cons.mp (perm.mem_iff.mp member) with new | old
      · cases new
        exact .inr ⟨rfl, rfl⟩
      · exact .inl ⟨_, owner, (DeadlineQueue.mem_others.mp old).1⟩
  refine ⟨h.step rfl rfl rfl (wf.update h.queues) (fun token later armed => ?_)
    (fun _ member => member) le_rfl (fun _ => .inl) ⟨by simp [SleepPc.deadline?],
    fun _ _ found => ?_⟩, by simp [Sleepers.setPc, Sleepers.setSleeper]⟩
  · rcases armed_cases token later armed with old | ⟨_, rfl⟩
    · exact .inl old
    · exact .inr ⟨guarded.owner, guarded.issued⟩
  · cases found
    refine { guarded with queued := fun later armed => ?_ }
    rcases armed_cases prepared.token later armed with old | ⟨rfl, _⟩
    · exact guarded.queued later old
    · exact honest

theorem Timely.commit (pc : (s.sleepers id).pc = .committing sleep prepared)
    (taken : s.commit id sleep prepared = .ok t) : Timely t := by
  have held : (s.sleepers id).pc.token? = some (sleep, prepared.token) := by rw [pc]; rfl
  have guarded := (h.sleepers id).guarded sleep prepared.token held
  unfold Sleepers.commit at taken
  dsimp only at taken
  rcases (s.sleepers id).wait.commit_cases prepared with
    stale | ⟨a, found, named, _, blocks⟩ | ⟨a, cause, found, named, phase, early⟩
  · rw [stale] at taken
    cases taken
  · rw [blocks] at taken
    cases taken
    refine h.setSleeper le_rfl ⟨by simp [SleepPc.deadline?], fun _ _ waits => ?_⟩
    cases waits
    rw [named]
    exact { guarded with pending := .inr ⟨_, rfl, rfl, by simp⟩ }
  · rw [early] at taken
    cases taken
    have woken := h.consume held (guarded.done fun active registered => by
      cases found.symm.trans registered
      exact ⟨cause, phase⟩)
    cases sleep with
    | kernel nap => exact woken
    | user request => exact woken.cancel _

theorem Timely.sleepUserUntilCounter (pc : (s.sleepers id).pc = .preparing sleep deadline)
    (taken : s.sleepUserUntilCounter id sleep deadline = .ok t) : Timely t := by
  obtain ⟨⟨prepared, u⟩, registered, taken⟩ := Result.bind_eq_ok.mp taken
  obtain ⟨v, published, taken⟩ := Result.bind_eq_ok.mp taken
  obtain ⟨timely, scheduling⟩ := h.prepare pc registered
  obtain ⟨timely, committing⟩ := (timely.cancel _).publish scheduling published
  exact timely.commit committing taken

theorem Timely.finish (pc : (s.sleepers id).pc = .blocked sleep token)
    (taken : s.finish id sleep token = .ok t) : Timely t := by
  have held : (s.sleepers id).pc.token? = some (sleep, token) := by rw [pc]; rfl
  unfold Sleepers.finish at taken
  dsimp only at taken
  rcases (s.sleepers id).wait.finish_cases token with
    ⟨error, failed⟩ | ⟨a, cause, found, named, phase, finished⟩
  · rw [failed] at taken
    cases taken
  · rw [finished] at taken
    cases taken
    have guarded := (h.sleepers id).guarded sleep token held
    refine h.consume held (guarded.done fun active registered => ?_)
    cases found.symm.trans registered
    exact ⟨cause, phase⟩

theorem Timely.advance (taken : s.advance id = .ok (some t)) : Timely t := by
  unfold Sleepers.advance at taken
  split at taken
  · cases taken
  · cases taken
    exact h.measure
  · next pc =>
    cases taken
    exact h.compare pc
  · next pc =>
    obtain ⟨⟨prepared, u⟩, registered, done⟩ := Result.map_eq_ok.mp taken
    cases done
    exact (h.prepare pc registered).1
  · next pc => exact h.sleepUserUntilCounter pc (Result.eq_ok_of_map_some taken)
  · next pc => exact (h.publish pc (Result.eq_ok_of_map_some taken)).1
  · next pc => exact h.commit pc (Result.eq_ok_of_map_some taken)
  · next pc =>
    split at taken
    · exact h.finish pc (Result.eq_ok_of_map_some taken)
    · cases taken
  · next request token pc =>
    split at taken
    · next gone =>
      cases taken
      have guarded := (h.sleepers id).guarded (.user request) token (by rw [pc]; rfl)
      refine h.wake (guarded.done fun active registered => ?_)
      simp [WaitMetadata.isNone, registered] at gone
    · cases taken

end

/-! ### Whole runs -/

theorem Timely.begin {next : Sleepers} (after : Timely next)
    (taken : s.begin id next = some t) : Timely t := by
  unfold Sleepers.begin at taken
  split at taken
  · cases taken
    exact after
  · cases taken

theorem Timely.move (h : Timely s) {label : SleepMove}
    (taken : s.move label = .ok (some t)) : Timely t := by
  cases label with
  | sleep id unit units =>
    refine Timely.begin ?_ (Except.ok.inj taken)
    unfold sleep
    split
    · next zero => exact h.wake fun _ => by simp [Nap.duration, zero, divCeil]
    · exact h.setPc ⟨by simp [SleepPc.deadline?], by simp [SleepPc.token?]⟩
  | nanosleep id request => exact Timely.begin h.nanosleep (Except.ok.inj taken)
  | advance id => exact h.advance taken
  | popExpired cpu => exact h.popExpired (Except.ok.inj taken)
  | complete token => exact h.complete (Except.ok.inj taken)
  | startQuantum cpu deadline thread =>
    obtain ⟨queue, run, done⟩ := Result.bind_eq_ok.mp (Result.eq_ok_of_map_some taken)
    cases done
    obtain ⟨wf, old⟩ := (h.queues cpu).schedule_quantum (Result.mapError_eq_ok.mp run)
    exact h.setQueue wf old fun _ => .inl
  | cancelQuantum cpu thread =>
    cases taken
    exact h.cancel _
  | tick =>
    cases taken
    exact h.progress ⟨rfl, Nat.le_succ _, h.queues, fun _ => le_rfl, fun _ => .inl rfl,
      fun _ _ => .inl, fun _ => .inl, fun _ => .inl⟩

theorem Timely.of_initial (start : Initial s) : Timely s := by
  refine ⟨fun cpu => DeadlineQueue.wellFormed_of_nil (start.queues cpu), fun id => ?_, ?_, ?_, ?_⟩
  · constructor <;> simp [start.awake id, SleepPc.deadline?, SleepPc.token?]
  · rintro token deadline ⟨cpu, owner, member⟩
    rw [start.queues cpu] at member
    cases member
  · simp [start.expired]
  · simp [start.ended]

/-- Every sleep that has returned is over. -/
theorem ended_over (reached : machine.Reachable s) {clock : Nat}
    (ended : (sleep, clock) ∈ s.ended) : clock ≤ s.clock ∧ sleep.Over s.frequency clock := by
  have timely : Timely s :=
    reached.invariant (fun _ => .of_initial) fun _ _ _ _ h taken => h.move taken
  exact timely.ended _ ended

/-- Threads on the boot processor before their first sleep. -/
def fresh (frequency clock : Nat) : Sleepers where
  frequency := frequency
  clock := clock
  sleepers _ := ⟨0, ⟨0, none⟩, .awake⟩
  queues _ := .tryWithCapacity 8
  expired := []
  ended := []

theorem initial_fresh (frequency clock : Nat) : Initial (fresh frequency clock) :=
  ⟨fun _ => rfl, fun _ => rfl, rfl, rfl⟩

theorem exists_played (frequency clock : Nat) (labels : List SleepMove) (shows : Sleepers → Bool)
    (executed : (Machine.execute (Machine.attempt move) (fresh frequency clock) labels).any shows =
      true) : ∃ s, machine.Reachable s ∧ shows s = true :=
  Machine.exists_executed (fun _ _ _ taken => taken) (initial_fresh frequency clock) labels shows
    executed

/-! ### Durations that do not fit -/

theorem reachable_later (reached : machine.Reachable s) (counts : Nat) :
    machine.Reachable { s with clock := s.clock + counts } := by
  induction counts with
  | zero => exact reached
  | succ counts ih =>
    have tick : machine.step { s with clock := s.clock + counts } .tick
      { s with clock := s.clock + counts + 1 } := rfl
    exact ih.step tick

/-- A nap whose sum does not fit has a deadline that the counter shows before the
duration is over. -/
theorem deadline_early {frequency : Nat} {nap : Nap} (wide : ¬ nap.Fits frequency) :
    ∃ counts < nap.duration frequency, wrappingAddU64 (nap.started % u64Limit)
      (scaleToCounts frequency nap.units nap.unit.perSecond) ≤
        (nap.started + counts) % u64Limit := by
  have divisor : 0 < nap.unit.perSecond ∧ nap.unit.perSecond ≤ u64Limit := by
    cases nap.unit <;> decide
  have counts : scaleToCounts frequency nap.units nap.unit.perSecond =
      min (nap.duration frequency) (u64Limit - 1) :=
    scaleToCounts_eq frequency nap.units divisor.1 divisor.2
  unfold Nap.Fits at wide
  rw [counts, wrappingAddU64]
  generalize nap.duration frequency = duration at wide ⊢
  unfold u64Limit at wide ⊢
  by_cases boundary : nap.started % 2 ^ 64 = 0
  · exact ⟨2 ^ 64 - 1, by omega, by omega⟩
  · exact ⟨0, by omega, by omega⟩

/-- Such a nap returns early, if it compares at that moment. -/
theorem nap_ends_early {frequency : Nat} {nap : Nap} (wide : ¬ nap.Fits frequency) :
    ∃ s clock, machine.Reachable s ∧ s.frequency = frequency ∧
      (.kernel nap, clock) ∈ s.ended ∧ clock < nap.started + nap.duration frequency := by
  obtain ⟨counts, early, shown⟩ := deadline_early wide
  obtain ⟨unit, units, started⟩ := nap
  have some_units : units ≠ 0 := by
    rintro rfl
    simp [Nap.duration, divCeil] at early
  let id : ThreadId := ⟨1, 1⟩
  let first := fresh frequency started
  let asked := first.setPc id (.measuring unit units)
  let asleep := asked.measure id unit units
  let later : Sleepers := { asleep with clock := started + counts }
  have start : machine.Reachable first := .initial (initial_fresh frequency started)
  have begun : machine.step first (.sleep id unit units) asked := by
    simp [machine, move, begin, first, fresh, sleep, some_units, asked]
  have measured : machine.step asked (.advance id) asleep := by
    simp [machine, move, advance, asked, setPc, setSleeper, asleep]
  have compared : machine.step later (.advance id)
      (later.wake id (.kernel ⟨unit, units, started⟩)) := by
    have pc : (later.sleepers id).pc = .comparing (.kernel ⟨unit, units, started⟩)
        (wrappingAddU64 (started % u64Limit) (scaleToCounts frequency units unit.perSecond)) := by
      simp [later, asleep, asked, first, fresh, measure, setPc, setSleeper,
        nowCounter]
    simp only [machine, move, advance, pc, compare]
    exact congrArg (fun next => Except.ok (some next)) (if_pos shown)
  have reached : machine.Reachable later :=
    reachable_later ((start.step begun).step measured) counts
  exact ⟨_, _, reached.step compared, rfl, .head _, Nat.add_lt_add_left early started⟩

end Genrt.Sleepers
