import Genrt.Ipc.Advance
import Genrt.Sched.Punctuality

/-!
# Timed mailbox calls

A timed call carries an absolute deadline. It reports a timeout when it finds the
deadline passed or when the timer has ended its wait, and the timer ends a wait
only for an event whose deadline it has seen pass. The invariant follows a deadline
from the queue through the expired events to the cause of the wait and the answer.
-/

namespace Genrt

open Function

variable {T : Type}

namespace Request

/-- The deadline lies the given number of counts ahead, in wrapping arithmetic. -/
def sendTimeoutTicks (now : Nat) (msg : T) (timeoutTicks : Nat) : Request T :=
  .sendUntilCounter msg (wrappingAddU64 now timeoutTicks)

def recvTimeoutTicks (now timeoutTicks : Nat) : Request T :=
  .recvUntilCounter (wrappingAddU64 now timeoutTicks)

theorem Due.mono {request : Request T} {now later : Nat} (due : request.Due now)
    (le : now ≤ later) : request.Due later := by
  obtain ⟨deadline, timed, passed⟩ := due
  exact ⟨deadline, timed, Nat.le_trans passed le⟩

theorem Due.congr {request other : Request T} {now : Nat} (due : request.Due now)
    (same : request.deadline? = other.deadline?) : other.Due now := by
  obtain ⟨deadline, timed, passed⟩ := due
  exact ⟨deadline, same ▸ timed, passed⟩

end Request

def Answer.isTimeout : Answer T → Bool
  | .sendTimeout _ | .recvTimeout => true
  | .sent | .full _ | .received _ | .empty => false

namespace Post

variable {s t : Post T} {id : ThreadId} {client : Client T}

/-- A wait of `id` for the request: whatever the timer holds or has done for its
token belongs to the request's deadline. -/
structure Guarded (s : Post T) (id : ThreadId) (wait : WaitMetadata) (request : Request T)
    (token : WaitToken) : Prop where
  owner : token.thread = id
  queued : ∀ deadline, (token, deadline) ∈ s.deadlines → request.deadline? = some deadline
  expired : token ∈ s.expired → request.Due s.now
  completed : ∀ active, wait.active = some active → active.token = token →
    active.phase = .completed .timeout → request.Due s.now

/-- The client keeps the deadline of its call, and what it knows of a timeout is
true. -/
def Timed (s : Post T) (id : ThreadId) (client : Client T) : Prop :=
  match client.pc with
  | .idle => True
  | .attempt call request _ | .overdue call request | .entering call request =>
    request.deadline? = call.given.deadline?
  | .committing call request prepared =>
    request.deadline? = call.given.deadline? ∧
      Guarded s id client.wait request prepared.token
  | .blocked call request token =>
    request.deadline? = call.given.deadline? ∧ Guarded s id client.wait request token
  | .removing call request _ cause =>
    request.deadline? = call.given.deadline? ∧ (cause = .timeout → request.Due s.now)
  | .claimed _ _ _ answer | .notifying _ _ _ answer | .reclaiming _ _ answer =>
    answer.isTimeout = false

/-- All clients are timed, events are those of issued tokens, and a reported
timeout is one. -/
structure Timely (s : Post T) : Prop where
  clients : ∀ id, Timed s id (s.clients id)
  queued : ∀ token deadline, (token, deadline) ∈ s.deadlines →
    token.sequence ≤ (s.clients token.thread).wait.nextSequence
  expired : ∀ token ∈ s.expired, token.sequence ≤ (s.clients token.thread).wait.nextSequence
  answers : ∀ call answer, (call, answer) ∈ s.answers → answer.isTimeout = true →
    call.given.Due s.now

/-! ### Clients that stay where they are -/

variable {request : Request T} {token : WaitToken} {call : Call T}

/-- The clock may move on, and the timer may lose events. -/
structure Spares (s t : Post T) (id : ThreadId) : Prop where
  now : s.now ≤ t.now
  queued : ∀ token deadline, token.thread = id → (token, deadline) ∈ t.deadlines →
    (token, deadline) ∈ s.deadlines
  expired : ∀ token, token.thread = id → token ∈ t.expired → token ∈ s.expired ∨
    ∃ deadline, (token, deadline) ∈ s.deadlines ∧ deadline ≤ t.now

theorem Guarded.carry {wait : WaitMetadata} (h : Guarded s id wait request token)
    (spares : Spares s t id) : Guarded t id wait request token where
  owner := h.owner
  queued deadline member := h.queued deadline (spares.queued token deadline h.owner member)
  expired member := by
    rcases spares.expired token h.owner member with before | ⟨deadline, armed, passed⟩
    · exact (h.expired before).mono spares.now
    · exact ⟨deadline, h.queued deadline armed, passed⟩
  completed active found named phase := (h.completed active found named phase).mono spares.now

theorem Timed.carry (h : Timed s id client) (spares : Spares s t id) : Timed t id client := by
  unfold Timed at h ⊢
  cases pc : client.pc with
  | committing | blocked =>
    rw [pc] at h
    exact ⟨h.1, h.2.carry spares⟩
  | removing =>
    rw [pc] at h
    exact ⟨h.1, fun timeout => (h.2 timeout).mono spares.now⟩
  | idle => trivial
  | attempt | overdue | entering | claimed | notifying | reclaiming =>
    rw [pc] at h
    exact h

/-- The wait of a client changes. -/
theorem Timed.setWait (h : Timed s id client) {wait : WaitMetadata}
    (keeps : ∀ request token, Guarded s id client.wait request token →
      Guarded s id wait request token) : Timed s id { client with wait := wait } := by
  unfold Timed at h ⊢
  dsimp only
  cases pc : client.pc with
  | committing | blocked =>
    rw [pc] at h
    exact ⟨h.1, keeps _ _ h.2⟩
  | idle => trivial
  | attempt | overdue | entering | claimed | notifying | reclaiming | removing =>
    rw [pc] at h
    exact h

/-- One client goes on: the others lose at most events, and new events and
timeouts are the client's own. -/
theorem Timely.step (h : Timely s) (clients : t.clients = update s.clients id client)
    (now : t.now = s.now) (sequence : (s.clients id).wait.nextSequence ≤ client.wait.nextSequence)
    (queued : ∀ token deadline, (token, deadline) ∈ t.deadlines → (token, deadline) ∈ s.deadlines ∨
        token.thread = id ∧ token.sequence ≤ client.wait.nextSequence)
    (expired : t.expired = s.expired)
    (answers : ∀ call answer, (call, answer) ∈ t.answers → (call, answer) ∈ s.answers ∨
      (answer.isTimeout = true → call.given.Due s.now)) (after : Timed t id client) : Timely t := by
  have grows : ∀ place, (s.clients place).wait.nextSequence ≤
      (t.clients place).wait.nextSequence := by
    intro place
    rw [clients, update_apply]
    split
    · next here => exact here ▸ sequence
    · exact le_rfl
  refine ⟨fun other => ?_, fun token deadline member => ?_, fun token member => ?_,
    fun call answer member timeout => ?_⟩
  · rw [clients, update_apply]
    split
    · next here => exact here ▸ after
    · next apart =>
      refine (h.clients other).carry ⟨Nat.le_of_eq now.symm, ?_, ?_⟩
      · rintro token deadline rfl member
        exact (queued token deadline member).resolve_right fun own => apart own.1
      · intro token _ member
        exact .inl (expired ▸ member)
  · rcases queued token deadline member with before | ⟨rfl, issued⟩
    · exact Nat.le_trans (h.queued token deadline before) (grows _)
    · rwa [clients, update_self]
  · exact Nat.le_trans (h.expired token (expired ▸ member)) (grows _)
  · rw [now]
    rcases answers call answer member with before | due
    · exact h.answers call answer before timeout
    · exact due timeout

section

variable (h : Timely s)

include h

theorem Timely.congr (clients : t.clients = s.clients) (now : t.now = s.now)
    (deadlines : t.deadlines = s.deadlines) (expired : t.expired = s.expired)
    (answers : t.answers = s.answers) : Timely t := by
  refine ⟨fun id => ?_, ?_, ?_, ?_⟩
  · rw [clients]
    refine (h.clients id).carry ⟨Nat.le_of_eq now.symm, ?_, ?_⟩
    · exact fun token deadline _ member => deadlines ▸ member
    · exact fun token _ member => .inl (expired ▸ member)
  · rw [clients, deadlines]
    exact h.queued
  · rw [clients, expired]
    exact h.expired
  · rw [answers, now]
    exact h.answers

/-- A client changes, and the timer is left alone. -/
theorem Timely.setClient (sequence : (s.clients id).wait.nextSequence ≤ client.wait.nextSequence)
    (after : Timed s id client) : Timely (s.setClient id client) := by
  refine h.step rfl rfl sequence (fun _ _ => .inl) rfl
    (fun _ _ => .inl) (after.carry ⟨le_rfl, ?_, ?_⟩)
  · exact fun _ _ _ member => member
  · exact fun _ _ member => .inl member

theorem Timely.setPc {pc : Pc T} (after : Timed s id { s.clients id with pc := pc }) :
    Timely (s.setPc id pc) := h.setClient le_rfl after

theorem Timely.answer {answer : Answer T} (due : answer.isTimeout = true → call.given.Due s.now) :
    Timely (s.answer id call answer) := by
  refine h.step rfl rfl le_rfl (fun _ _ => .inl) rfl ?_ trivial
  intro other given member
  rcases List.mem_append.mp member with before | last
  · exact .inl before
  · obtain ⟨rfl, rfl⟩ := Prod.mk.inj (List.mem_singleton.mp last)
    exact .inr due

theorem Timely.completeClaimed {kind : MailboxWaitKind} {answer : Answer T}
    (served : answer.isTimeout = false) (waiter : Option WaitToken) :
    Timely (s.completeClaimed id call kind answer waiter) := by
  cases waiter with
  | none => exact h.answer fun timeout => by simp [served] at timeout
  | some token => exact h.setPc served

theorem Timely.refused (same : request.deadline? = call.given.deadline?) :
    Timely (s.refused id call request) := by
  cases request with
  | trySend msg | tryRecv => exact h.answer nofun
  | send msg | recv => exact h.setPc same
  | sendUntilCounter msg deadline | recvUntilCounter deadline => exact h.setPc same

/-! ### Steps of a client -/

/-- A completion that is not a timeout, or is one for a passed deadline. -/
theorem Timely.completeWait {cause : WaitCause}
    (due : ∀ request, Guarded s token.thread (s.clients token.thread).wait request token →
      cause = .timeout → request.Due s.now) : Timely (s.completeWait token cause).2 := by
  let wait := (s.clients token.thread).wait
  have outcome : (wait.complete token cause).2.nextSequence = wait.nextSequence ∧
      ∀ active, (wait.complete token cause).2.active = some active →
        wait.active = some active ∨ active.token = token ∧ active.phase = .completed cause := by
    rcases wait.complete_cases token cause with ⟨_, same⟩ | ⟨a, _, named, _, _, sequence, after⟩
    · rw [same]
      exact ⟨rfl, fun active found => .inl found⟩
    · refine ⟨sequence, fun active found => ?_⟩
      rcases after with ⟨_, gone⟩ | done
      · cases gone.symm.trans found
      · cases done.symm.trans found
        exact .inr ⟨named, rfl⟩
  have after : Timed s token.thread { s.clients token.thread with
      wait := (wait.complete token cause).2 } := by
    refine (h.clients token.thread).setWait fun request held guarded => ?_
    refine ⟨guarded.owner, guarded.queued, guarded.expired, fun active found named phase => ?_⟩
    rcases outcome.2 active found with before | ⟨own, completed⟩
    · exact guarded.completed active before named phase
    · obtain rfl := named.symm.trans own
      exact due request guarded (WaitPhase.completed.inj (completed.symm.trans phase))
  exact h.setClient (Nat.le_of_eq outcome.1.symm) after

/-- A fresh token is known to nobody else. -/
theorem Timely.registered {mailbox : Mailbox T} {deadlines : List (WaitToken × Nat)}
    (same : request.deadline? = call.given.deadline?)
    (armed : ∀ token deadline, (token, deadline) ∈ deadlines → (token, deadline) ∈ s.deadlines ∨
      token = s.nextToken id ∧ request.deadline? = some deadline) :
    Timely ({ s with mailbox := mailbox, deadlines := deadlines }.setClient id
      { s.clients id with
        wait := ⟨(s.nextToken id).sequence, some ⟨s.nextToken id, .prepared, .explicit⟩⟩
        pc := .committing call request ⟨s.nextToken id, .explicit⟩ }) := by
  refine h.step rfl rfl (Nat.le_succ _) (fun token deadline member => ?_) rfl (fun _ _ => .inl)
    ⟨same, rfl, fun deadline member => ?_, fun member => ?_, ?_⟩
  · rcases armed token deadline member with old | ⟨rfl, _⟩
    · exact .inl old
    · exact .inr ⟨rfl, le_rfl⟩
  · rcases armed _ deadline member with old | ⟨_, timed⟩
    · exact absurd (h.queued _ _ old) (Nat.not_succ_le_self _)
    · exact timed
  · exact absurd (h.expired _ member) (Nat.not_succ_le_self _)
  · intro active found _ phase
    cases found
    cases phase

/-- A client takes the cause of its completed wait. -/
theorem Timely.consumed {a : ActiveWait} {cause : WaitCause}
    (same : request.deadline? = call.given.deadline?)
    (guarded : Guarded s id (s.clients id).wait request token)
    (active : (s.clients id).wait.active = some a) (named : a.token = token)
    (phase : a.phase = .completed cause) :
    Timely (s.consume id (.removing call request token cause)) := by
  refine h.setClient le_rfl ⟨same, fun timeout => guarded.completed a active named ?_⟩
  rw [phase, timeout]

theorem Timely.remove {cause : WaitCause}
    (pc : (s.clients id).pc = .removing call request token cause) :
    Timely (s.remove id call request token cause) := by
  have mine := h.clients id
  simp only [Timed, pc] at mine
  have moved : Timely { s with mailbox := s.mailbox.removeWaiter request.kind token } :=
    h.congr rfl rfl rfl rfl rfl
  unfold Post.remove
  dsimp only
  split
  · next timeout => exact moved.answer fun _ => (mine.2 timeout.2).congr mine.1
  · refine moved.setPc ?_
    exact mine.1

theorem Timely.advanced (step : Advanced s id t) : Timely t := by
  have mine := h.clients id
  cases step with
  | @sent call request _ msg waiter mailbox pc =>
    have moved : Timely { s with
        mailbox := mailbox
        accepted := s.accepted ++ [(call.number, msg)] } := h.congr rfl rfl rfl rfl rfl
    exact moved.completeClaimed rfl waiter
  | @received call request _ msg waiter mailbox pc =>
    have moved : Timely { s with
        mailbox := mailbox
        received := s.received ++ [(call.number, msg)] } := h.congr rfl rfl rfl rfl rfl
    exact moved.completeClaimed rfl waiter
  | refused pc waits =>
    simp only [Timed, pc] at mine
    exact h.refused mine
  | @cancelled call kind token answer pc =>
    simp only [Timed, pc] at mine
    have fewer : Timely { s with
        deadlines := s.deadlines.filter fun entry => entry.1 ≠ token } := by
      have none : update s.clients id (s.clients id) = s.clients := update_eq_self ..
      refine h.step none.symm rfl le_rfl ?_ rfl (fun _ _ => .inl) ?_
      · exact fun _ _ member => .inl (List.mem_filter.mp member).1
      · exact (h.clients id).carry ⟨le_rfl,
          fun _ _ _ member => (List.mem_filter.mp member).1, fun _ _ member => .inl member⟩
    exact fewer.setPc mine
  | @won _ _ token _ pc wins =>
    simp only [Timed, pc] at mine
    have told : Timely (s.completeWait token .notified).2 := h.completeWait nofun
    exact told.answer fun timeout => by simp [mine] at timeout
  | @lost _ _ token _ pc loses =>
    simp only [Timed, pc] at mine
    have told : Timely (s.completeWait token .notified).2 := h.completeWait nofun
    exact told.setPc mine
  | @reclaimed _ _ _ waiter mailbox pc claim =>
    simp only [Timed, pc] at mine
    have claimed : Timely { s with mailbox := mailbox } := h.congr rfl rfl rfl rfl rfl
    exact claimed.completeClaimed mine waiter
  | late pc due =>
    simp only [Timed, pc] at mine
    exact h.answer fun _ => due.congr mine
  | early pc | available pc =>
    simp only [Timed, pc] at mine
    exact h.setPc mine
  | registered pc waits queued armed =>
    simp only [Timed, pc] at mine
    exact h.registered mine armed
  | slept pc active named phase =>
    simp only [Timed, pc] at mine
    obtain ⟨same, guarded⟩ := mine
    refine h.setClient le_rfl ⟨same, named ▸ guarded.owner, named ▸ guarded.queued,
      named ▸ guarded.expired, fun active held _ completed => ?_⟩
    cases held
    cases completed
  | completed pc active named phase | resumed pc active named phase =>
    simp only [Timed, pc] at mine
    exact h.consumed mine.1 mine.2 active named phase
  | removed pc => exact h.remove pc

/-! ### Whole runs -/

theorem Timely.expire (taken : s.expire token = some t) : Timely t := by
  unfold Post.expire at taken
  split at taken
  · next due =>
    cases taken
    obtain ⟨⟨armed, deadline⟩, member, condition⟩ := List.any_eq_true.mp due
    obtain ⟨rfl, passed⟩ := of_decide_eq_true condition
    refine ⟨fun id => ?_, ?_, ?_, h.answers⟩
    · refine (h.clients id).carry ⟨le_rfl, ?_, ?_⟩
      · exact fun _ _ _ member => (List.mem_filter.mp member).1
      · intro other _ popped
        rcases List.mem_cons.mp popped with rfl | before
        · exact .inr ⟨deadline, member, passed⟩
        · exact .inl before
    · exact fun other value kept => h.queued other value (List.mem_filter.mp kept).1
    · intro other popped
      rcases List.mem_cons.mp popped with rfl | before
      · exact h.queued _ deadline member
      · exact h.expired other before
  · cases taken

theorem Timely.fire (taken : s.fire token = some t) : Timely t := by
  unfold Post.fire at taken
  split at taken
  · next popped =>
    cases taken
    have told : Timely (s.completeWait token .timeout).2 :=
      h.completeWait fun request guarded _ => guarded.expired popped
    refine ⟨fun id => ?_, told.queued, ?_, told.answers⟩
    · exact (told.clients id).carry ⟨le_rfl, fun _ _ _ member => member,
        fun _ _ member => .inl (List.mem_of_mem_erase member)⟩
    · exact fun other member => told.expired other (List.mem_of_mem_erase member)
  · cases taken

theorem Timely.move {label : PostMove T} (taken : s.move label = .ok (some t)) : Timely t := by
  cases label with
  | call id request =>
    simp only [Post.move] at taken
    split at taken
    · split at taken
      · cases taken
        have counted : Timely { s with calls := s.calls + 1 } := h.congr rfl rfl rfl rfl rfl
        exact counted.setPc rfl
      · cases taken
    · cases taken
  | advance id => exact h.advanced (.of_advance taken)
  | expire token => exact h.expire (Except.ok.inj taken)
  | fire token => exact h.fire (Except.ok.inj taken)
  | tick =>
    cases taken
    refine ⟨fun id => ?_, h.queued, h.expired, fun call answer member timeout => ?_⟩
    · exact (h.clients id).carry ⟨Nat.le_succ _, fun _ _ _ member => member,
        fun _ _ member => .inl member⟩
    · exact (h.answers call answer member timeout).mono (Nat.le_succ _)

end

theorem Timely.of_initial (start : Initial s) : Timely s := by
  refine ⟨fun id => ?_, ?_, ?_, ?_⟩
  · simp only [Timed, (start.idle id).1]
  · rw [start.deadlines]
    nofun
  · rw [start.expired]
    nofun
  · rw [start.answers]
    nofun

theorem Timely.of_reachable (reached : (machine T).Reachable s) : Timely s :=
  reached.invariant (fun _ => .of_initial) fun _ _ _ _ h taken => h.move taken

/-! ### Relative waits -/

/-- The mailbox has no room for the message of the request, or no message for it. -/
def Refuses (s : Post T) (request : Request T) : Prop :=
  match request.msg? with
  | some msg => s.mailbox.trySend msg = .error msg
  | none => s.mailbox.tryRecv = .ok none

/-- A call that is refused after its deadline reports its timeout at once. -/
theorem reports_at_once {deadline : Nat} (idle : (s.clients id).pc = .idle)
    (known : id ∈ s.threads) (refuses : s.Refuses request)
    (timed : request.deadline? = some deadline) (passed : deadline ≤ s.now) :
    ∃ u w, (machine T).step s (.call id request) u ∧
      (machine T).Run (fun _ _ => True) u w ∧
      (⟨s.calls, request⟩, request.timeout) ∈ w.answers ∧ w.now = s.now := by
  let call : Call T := ⟨s.calls, request⟩
  let u := { s with calls := s.calls + 1 }.setPc id (.attempt call request none)
  let v := u.setPc id (.overdue call request)
  have begun : (machine T).step s (.call id request) u := by
    simp only [machine, move, idle, if_pos known]
    rfl
  have tried : (machine T).step u (.advance id) v := by
    have attempt : u.attempt id call request = .ok v := by
      unfold Refuses at refuses
      cases request with
      | trySend msg | send msg | tryRecv | recv => cases timed
      | sendUntilCounter msg value | recvUntilCounter value =>
        simp only [Request.msg?] at refuses
        simp only [attempt, Request.msg?, u, setPc, setClient, refuses]
        rfl
    simp only [machine, move, advance, u, setPc, setClient, update_self]
    exact congrArg (some <$> ·) attempt
  have reported : (machine T).step v (.advance id) (v.answer id call request.timeout) := by
    have due : request.deadline?.any (fun value => decide (value ≤ v.now)) = true := by
      rw [timed]
      exact decide_eq_true passed
    simp only [machine, move, advance, v, setPc, setClient, update_self]
    exact if_pos due
  refine ⟨u, _, begun, .step (.step (.refl u) trivial tried) trivial reported, ?_, rfl⟩
  exact List.mem_append_right _ (.head _)

end Post

/-- Relative waits do not end early exactly if the counter plus the duration fits in a
word. A nap that fits has lasted for its duration when it returns; one that does not
fit can return before. A mailbox call with a timeout that fits reports it only after
so many counts; one with a timeout that does not fit reports it at once. -/
theorem relative_waits_not_early (T : Type) :
    (∀ (s : Sleepers) (nap : Nap) (clock : Nat), Sleepers.machine.Reachable s →
      (.kernel nap, clock) ∈ s.ended → nap.Fits s.frequency →
      nap.started + nap.duration s.frequency ≤ clock) ∧
    (∀ (frequency : Nat) (nap : Nap), ¬ nap.Fits frequency → ∃ s clock,
      Sleepers.machine.Reachable s ∧ s.frequency = frequency ∧ (.kernel nap, clock) ∈ s.ended ∧
      clock < nap.started + nap.duration frequency) ∧
    ∀ (s : Post T) (id : ThreadId) (request : Request T) (ticks : Nat),
      (∃ msg, request = .sendTimeoutTicks s.now msg ticks) ∨
        request = .recvTimeoutTicks s.now ticks →
      ((Post.machine T).Reachable s → s.now + ticks < u64Limit → ∀ u w answer,
        (Post.machine T).step s (.call id request) u →
        (Post.machine T).Run (fun _ _ => True) u w →
        (⟨s.calls, request⟩, answer) ∈ w.answers → answer.isTimeout = true →
        s.now + ticks ≤ w.now) ∧
      (s.now < u64Limit → ticks < u64Limit → u64Limit ≤ s.now + ticks →
        (s.clients id).pc = .idle → id ∈ s.threads → s.Refuses request → ∃ u w answer,
        (Post.machine T).step s (.call id request) u ∧
        (Post.machine T).Run (fun _ _ => True) u w ∧
        (⟨s.calls, request⟩, answer) ∈ w.answers ∧ answer.isTimeout = true ∧
        w.now < s.now + ticks) := by
  refine ⟨fun s nap clock reached ended => (Sleepers.ended_over reached ended).2,
    fun frequency nap => Sleepers.nap_ends_early, fun s id request ticks timed => ?_⟩
  have deadline : request.deadline? = some (wrappingAddU64 s.now ticks) := by
    rcases timed with ⟨msg, rfl⟩ | rfl <;> rfl
  constructor
  · intro reached fits u w answer begun run reported timeout
    have h := Post.Timely.of_reachable ((reached.step begun).run run)
    obtain ⟨due, given, passed⟩ := h.answers _ _ reported timeout
    cases deadline.symm.trans given
    rwa [wrappingAddU64, Nat.mod_eq_of_lt fits] at passed
  · intro now word wide idle known refuses
    have passed : wrappingAddU64 s.now ticks ≤ s.now := by
      unfold wrappingAddU64
      unfold u64Limit at now word wide ⊢
      omega
    obtain ⟨u, w, begun, run, reported, same⟩ :=
      Post.reports_at_once idle known refuses deadline passed
    refine ⟨u, w, _, begun, run, reported, ?_, by omega⟩
    rcases timed with ⟨msg, rfl⟩ | rfl <;> rfl

/-- Two microseconds at one count each, slept through. -/
theorem relative_waits_not_early_two :
    ∃ s, Sleepers.machine.Reachable s ∧ (.kernel ⟨.us, 2, 5⟩, 8) ∈ s.ended ∧
      5 + Nap.duration ⟨.us, 2, 5⟩ s.frequency ≤ 8 := by
  obtain ⟨s, reached, shown⟩ := Sleepers.exists_played 1000000 5
    [.sleep ⟨1, 1⟩ .us 2, .advance ⟨1, 1⟩, .advance ⟨1, 1⟩, .advance ⟨1, 1⟩, .advance ⟨1, 1⟩,
      .advance ⟨1, 1⟩, .tick, .tick, .popExpired 0, .complete ⟨⟨1, 1⟩, 0, 1⟩, .tick,
      .advance ⟨1, 1⟩]
    (fun s => decide (s.frequency = 1000000) && decide ((.kernel ⟨.us, 2, 5⟩, 8) ∈ s.ended))
    (by decide +kernel)
  rw [Bool.and_eq_true, decide_eq_true_eq, decide_eq_true_eq] at shown
  refine ⟨s, reached, shown.2, (relative_waits_not_early Nat).1 s _ _ reached shown.2 ?_⟩
  rw [shown.1]
  exact (by decide : 5 % u64Limit + Nap.duration ⟨.us, 2, 5⟩ 1000000 < u64Limit)

/-- The longest sleep, begun at counter value one, returns at once, and so does a
mailbox call with the longest timeout. -/
theorem relative_waits_end_early :
    (∃ s, Sleepers.machine.Reachable s ∧ ∃ nap clock, (.kernel nap, clock) ∈ s.ended ∧
      nap.units < u64Limit ∧ nap.started = 1 ∧ clock = 1 ∧ 1 < nap.duration s.frequency) ∧
    ∃ s : Post Nat, (Post.machine Nat).Reachable s ∧ s.now = 1 ∧
      (⟨0, .recvTimeoutTicks 1 (u64Limit - 1)⟩, .recvTimeout) ∈ s.answers := by
  constructor
  · obtain ⟨s, reached, shown⟩ := Sleepers.exists_played 1000000 1
      [.sleep ⟨1, 1⟩ .us (u64Limit - 1), .advance ⟨1, 1⟩, .advance ⟨1, 1⟩]
      (fun s => decide ((.kernel ⟨.us, u64Limit - 1, 1⟩, 1) ∈ s.ended) &&
        decide (1 < Nap.duration ⟨.us, u64Limit - 1, 1⟩ s.frequency)) (by decide +kernel)
    rw [Bool.and_eq_true, decide_eq_true_eq, decide_eq_true_eq] at shown
    exact ⟨s, reached, _, _, shown.1, by decide, rfl, rfl, shown.2⟩
  · have made : Mailbox.withCapacity Nat 1 1 = .ok ⟨.new 1 none, .empty 1, .empty 1⟩ := rfl
    obtain ⟨s, reached, shown⟩ := Post.exists_played {⟨1, 1⟩} made
      [.tick, .call ⟨1, 1⟩ (.recvTimeoutTicks 1 (u64Limit - 1)), .advance ⟨1, 1⟩, .advance ⟨1, 1⟩]
      (fun s => decide (s.now = 1) &&
        decide ((⟨0, .recvTimeoutTicks 1 (u64Limit - 1)⟩, .recvTimeout) ∈ s.answers))
      (by decide +kernel)
    rw [Bool.and_eq_true, decide_eq_true_eq, decide_eq_true_eq] at shown
    exact ⟨s, reached, shown.1, shown.2⟩

end Genrt
