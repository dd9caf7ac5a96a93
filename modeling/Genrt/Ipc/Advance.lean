import Genrt.Foundation.Result
import Genrt.Ipc.Mailbox

/-!
# What a step of a client does

One case per outcome of a piece of a call. Invariants of a mailbox are proved over
these cases, and never look at the code of the pieces again.
-/

namespace Genrt

variable {T : Type}

namespace Request

variable {request : Request T}

/-- A message that comes back is the one that was sent. -/
theorem hold_self {msg : T} (holds : request.msg? = some msg) : request.hold msg = request := by
  cases request <;> cases holds <;> rfl

theorem kind_of_msg {msg : T} (holds : request.msg? = some msg) : request.kind = .send := by
  cases request <;> first | rfl | cases holds

theorem kind_of_none (none : request.msg? = none) : request.kind = .recv := by
  cases request <;> first | rfl | cases none

/-- The deadline of the request has passed. -/
def Due (request : Request T) (now : Nat) : Prop :=
  ∃ deadline, request.deadline? = some deadline ∧ deadline ≤ now

end Request

namespace Post

variable {s t : Post T} {id : ThreadId}

/-- The token of the next registration of a client. -/
def nextToken (s : Post T) (id : ThreadId) : WaitToken :=
  ⟨id, (s.clients id).cpu, (s.clients id).wait.nextSequence + 1⟩

/-- A client consumes its wait and goes on. -/
def consume (s : Post T) (id : ThreadId) (pc : Pc T) : Post T :=
  s.setClient id
    { s.clients id with wait := { (s.clients id).wait with active := none }, pc := pc }

/-- The outcome of a client's next step. -/
inductive Advanced (s : Post T) (id : ThreadId) : Post T → Prop where
  | sent {call : Call T} {request : Request T} {cause : Option WaitCause} {msg : T}
      {waiter : Option WaitToken} {mailbox : Mailbox T}
      (pc : (s.clients id).pc = .attempt call request cause) (holds : request.msg? = some msg)
      (room : s.mailbox.ring.isFull = false)
      (claim : { s.mailbox with ring := s.mailbox.ring.push (some msg) }.claimWaiter .recv =
        (waiter, mailbox)) :
      Advanced s id
        ({ s with mailbox := mailbox, accepted := s.accepted ++ [(call.number, msg)] }.completeClaimed
          id call .recv .sent waiter)
  | received {call : Call T} {request : Request T} {cause : Option WaitCause} {msg : T}
      {waiter : Option WaitToken} {mailbox : Mailbox T}
      (pc : (s.clients id).pc = .attempt call request cause) (holds : request.msg? = none)
      (stored : s.mailbox.ring.isEmpty = false) (front : s.mailbox.ring.front? = some (some msg))
      (claim : { s.mailbox with ring := (s.mailbox.ring.blankFront none).pop }.claimWaiter .send =
        (waiter, mailbox)) :
      Advanced s id
        ({ s with mailbox := mailbox, received := s.received ++ [(call.number, msg)] }.completeClaimed
          id call .send (.received msg) waiter)
  | refused {call : Call T} {request : Request T} {cause : Option WaitCause}
      (pc : (s.clients id).pc = .attempt call request cause)
      (waits : s.mailbox.shouldWait request.kind = true) :
      Advanced s id (s.refused id call request)
  | cancelled {call : Call T} {kind : MailboxWaitKind} {token : WaitToken} {answer : Answer T}
      (pc : (s.clients id).pc = .claimed call kind token answer) :
      Advanced s id
        ({ s with deadlines := s.deadlines.filter fun entry => entry.1 ≠ token }.setPc id
          (.notifying call kind token answer))
  | won {call : Call T} {kind : MailboxWaitKind} {token : WaitToken} {answer : Answer T}
      (pc : (s.clients id).pc = .notifying call kind token answer)
      (wins : (s.completeWait token .notified).1.wins = true) :
      Advanced s id ((s.completeWait token .notified).2.answer id call answer)
  | lost {call : Call T} {kind : MailboxWaitKind} {token : WaitToken} {answer : Answer T}
      (pc : (s.clients id).pc = .notifying call kind token answer)
      (loses : (s.completeWait token .notified).1.wins = false) :
      Advanced s id ((s.completeWait token .notified).2.setPc id (.reclaiming call kind answer))
  | reclaimed {call : Call T} {kind : MailboxWaitKind} {answer : Answer T}
      {waiter : Option WaitToken} {mailbox : Mailbox T}
      (pc : (s.clients id).pc = .reclaiming call kind answer)
      (claim : s.mailbox.claimWaiter kind = (waiter, mailbox)) :
      Advanced s id ({ s with mailbox := mailbox }.completeClaimed id call kind answer waiter)
  | late {call : Call T} {request : Request T} (pc : (s.clients id).pc = .overdue call request)
      (due : request.Due s.now) :
      Advanced s id (s.answer id call request.timeout)
  | early {call : Call T} {request : Request T} (pc : (s.clients id).pc = .overdue call request) :
      Advanced s id (s.setPc id (.entering call request))
  | available {call : Call T} {request : Request T}
      (pc : (s.clients id).pc = .entering call request) :
      Advanced s id (s.setPc id (.attempt call request none))
  | registered {call : Call T} {request : Request T} {mailbox : Mailbox T}
      {deadlines : List (WaitToken × Nat)} (pc : (s.clients id).pc = .entering call request)
      (waits : s.mailbox.shouldWait request.kind = true)
      (queued : s.mailbox.enqueueWaiter request.kind (s.nextToken id) = .ok mailbox)
      (armed : ∀ token deadline, (token, deadline) ∈ deadlines → (token, deadline) ∈ s.deadlines ∨
        token = s.nextToken id ∧ request.deadline? = some deadline) :
      Advanced s id ({ s with mailbox := mailbox, deadlines := deadlines }.setClient id
        { s.clients id with
          wait := ⟨(s.nextToken id).sequence, some ⟨s.nextToken id, .prepared, .explicit⟩⟩
          pc := .committing call request ⟨s.nextToken id, .explicit⟩ })
  | slept {call : Call T} {request : Request T} {prepared : PreparedWait} {a : ActiveWait}
      (pc : (s.clients id).pc = .committing call request prepared)
      (active : (s.clients id).wait.active = some a) (named : a.token = prepared.token)
      (phase : a.phase = .prepared) :
      Advanced s id (s.setClient id { s.clients id with
        wait := { (s.clients id).wait with active := some { a with phase := .blocked } }
        pc := .blocked call request a.token })
  | completed {call : Call T} {request : Request T} {prepared : PreparedWait} {a : ActiveWait}
      {cause : WaitCause} (pc : (s.clients id).pc = .committing call request prepared)
      (active : (s.clients id).wait.active = some a) (named : a.token = prepared.token)
      (phase : a.phase = .completed cause) :
      Advanced s id (s.consume id (.removing call request prepared.token cause))
  | resumed {call : Call T} {request : Request T} {token : WaitToken} {a : ActiveWait}
      {cause : WaitCause} (pc : (s.clients id).pc = .blocked call request token)
      (active : (s.clients id).wait.active = some a) (named : a.token = token)
      (phase : a.phase = .completed cause) :
      Advanced s id (s.consume id (.removing call request token cause))
  | removed {call : Call T} {request : Request T} {token : WaitToken} {cause : WaitCause}
      (pc : (s.clients id).pc = .removing call request token cause) :
      Advanced s id (s.remove id call request token cause)

variable {call : Call T} {request : Request T}

theorem Advanced.of_attempt {cause : Option WaitCause}
    (pc : (s.clients id).pc = .attempt call request cause)
    (taken : s.attempt id call request = .ok t) : Advanced s id t := by
  unfold attempt at taken
  split at taken
  · next msg holds =>
    unfold Mailbox.trySend at taken
    split at taken
    · next waiter mailbox claim =>
      split at claim
      · cases claim
      · next room =>
        cases taken
        exact .sent pc holds (Bool.eq_false_iff.mpr room) (Except.ok.inj claim)
    · next back full =>
      split at full
      · next waits =>
        cases full
        cases taken
        rw [Request.hold_self holds]
        exact .refused pc (Request.kind_of_msg holds ▸ waits)
      · cases full
  · next holds =>
    unfold Mailbox.tryRecv at taken
    split at taken
    · cases taken
    · next msg waiter mailbox claim =>
      split at claim
      · cases claim
      · next stored =>
        split at claim
        · next front =>
          cases taken
          obtain ⟨rfl, pair⟩ := Prod.mk.inj (Option.some.inj (Except.ok.inj claim))
          exact .received pc holds (Bool.eq_false_iff.mpr stored) front pair
        · cases claim
    · next empty =>
      split at empty
      · next waits =>
        cases taken
        exact .refused pc (Request.kind_of_none holds ▸ waits)
      · split at empty <;> cases empty

theorem Advanced.of_enter (pc : (s.clients id).pc = .entering call request)
    (taken : s.enter id call request = .ok t) : Advanced s id t := by
  unfold enter at taken
  split at taken
  · cases taken
    exact .available pc
  · next waits =>
    rw [not_or] at waits
    dsimp only at taken
    split at taken
    · cases taken
    · next prepared wait registers =>
      obtain ⟨_, rfl, rfl⟩ := WaitMetadata.prepare_cases registers
      split at taken
      · cases taken
      · next mailbox queued =>
        cases taken
        refine .registered pc (Bool.not_eq_false _ ▸ waits.1) queued fun token deadline member => ?_
        cases timed : request.deadline? with
        | none =>
          simp only [timed] at member
          exact .inl member
        | some armed =>
          simp only [timed] at member
          rcases List.mem_cons.mp member with head | tail
          · cases head
            exact .inr ⟨rfl, rfl⟩
          · exact .inl tail

theorem Advanced.of_commit {prepared : PreparedWait}
    (pc : (s.clients id).pc = .committing call request prepared)
    (taken : s.commit id call request prepared = .ok t) : Advanced s id t := by
  unfold commit at taken
  dsimp only at taken
  rcases (s.clients id).wait.commit_cases prepared with
    stale | ⟨a, active, named, phase, blocks⟩ | ⟨a, cause, active, named, phase, early⟩
  · rw [stale] at taken
    cases taken
  · rw [blocks] at taken
    cases taken
    exact .slept pc active named phase
  · rw [early] at taken
    cases taken
    exact .completed pc active named phase

theorem Advanced.of_resume {token : WaitToken}
    (pc : (s.clients id).pc = .blocked call request token)
    (taken : s.resume id call request token = .ok t) : Advanced s id t := by
  unfold resume at taken
  dsimp only at taken
  rcases (s.clients id).wait.finish_cases token with
    ⟨error, failed⟩ | ⟨a, cause, active, named, phase, finished⟩
  · rw [failed] at taken
    cases error <;> cases taken
  · rw [finished] at taken
    cases taken
    exact .resumed pc active named phase

/-- Every step is one of the cases. -/
theorem Advanced.of_advance (taken : s.advance id = .ok (some t)) : Advanced s id t := by
  unfold advance at taken
  split at taken
  · cases taken
  · next pc => exact .of_attempt pc (Result.eq_ok_of_map_some taken)
  · next pc =>
    cases taken
    exact .cancelled pc
  · next pc =>
    dsimp only at taken
    split at taken
    · next wins =>
      cases taken
      exact .won pc wins
    · next loses =>
      cases taken
      exact .lost pc (Bool.eq_false_iff.mpr loses)
  · next pc =>
    cases taken
    exact .reclaimed pc rfl
  · next request pc =>
    split at taken
    · next due =>
      cases taken
      obtain ⟨deadline, timed, passed⟩ := (Option.any_eq_true _ _).mp due
      exact .late pc ⟨deadline, timed, of_decide_eq_true passed⟩
    · cases taken
      exact .early pc
  · next pc => exact .of_enter pc (Result.eq_ok_of_map_some taken)
  · next pc => exact .of_commit pc (Result.eq_ok_of_map_some taken)
  · next pc =>
    split at taken
    · exact .of_resume pc (Result.eq_ok_of_map_some taken)
    · cases taken
  · next pc =>
    cases taken
    exact .removed pc

end Post

end Genrt
