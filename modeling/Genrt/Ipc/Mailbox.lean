import Genrt.Foundation.BoundedQueue
import Genrt.Foundation.Machine
import Genrt.Foundation.RingBuffer
import Genrt.Sched.Wait

/-!
# Mailboxes

A mailbox owns a ring of messages and two queues of wait tokens. Its lock covers
the ring and the queues; the waits of the tokens belong to the scheduler, and
their deadlines to the timer. A client therefore goes through a call in pieces:
an attempt under the lock, the completion of a waiter that the attempt claimed,
the registration of its own wait under the lock, the commit, and the removal of
its token after it was woken.

Here every piece is one step of a client, and the steps of all clients and of the
timer interleave freely.
-/

namespace Genrt

inductive MailboxWaitKind where
  | send
  | recv
deriving DecidableEq, Repr

/-- The panics of the mailbox, and those of the scheduler calls it makes. -/
inductive MailboxPanic where
  | zeroCapacity
  | slotEmpty
  | tokenQueued
  | waiterQueueFull
  | waitStale
  | notCompleted
  | scheduler (panic : Panic)
deriving DecidableEq, Repr

/-! ### The mailbox under its lock -/

/-- The ring holds the buffer with the indices and the length of the control
block. -/
structure Mailbox (T : Type) where
  ring : RingBuffer (Option T)
  recvWaiters : BoundedQueue WaitToken
  sendWaiters : BoundedQueue WaitToken

namespace Mailbox

variable {T : Type} (m : Mailbox T)

def withCapacity (T : Type) (capacity waiterCapacity : Nat) : Except MailboxPanic (Mailbox T) :=
  if capacity = 0 then .error .zeroCapacity
  else .ok ⟨.new capacity none, .empty waiterCapacity, .empty waiterCapacity⟩

def isEmpty : Bool := m.ring.isEmpty

def isFull : Bool := m.ring.isFull

def shouldWait : MailboxWaitKind → Bool
  | .send => m.isFull
  | .recv => m.isEmpty

def waiters : MailboxWaitKind → BoundedQueue WaitToken
  | .send => m.sendWaiters
  | .recv => m.recvWaiters

def setWaiters : MailboxWaitKind → BoundedQueue WaitToken → Mailbox T
  | .send, queue => { m with sendWaiters := queue }
  | .recv, queue => { m with recvWaiters := queue }

def enqueueWaiter (kind : MailboxWaitKind) (token : WaitToken) : Except MailboxPanic (Mailbox T) :=
  if token ∈ (m.waiters kind).items then .error .tokenQueued
  else match (m.waiters kind).pushBack token with
    | none => .error .waiterQueueFull
    | some queue => .ok (m.setWaiters kind queue)

def claimWaiter (kind : MailboxWaitKind) : Option WaitToken × Mailbox T :=
  match (m.waiters kind).popFront with
  | none => (none, m)
  | some (token, queue) => (some token, m.setWaiters kind queue)

def removeWaiter (kind : MailboxWaitKind) (token : WaitToken) : Mailbox T :=
  m.setWaiters kind ((m.waiters kind).erase token)

/-- The locked part of `try_send`: the message comes back, or a receiver is
claimed. -/
def trySend (msg : T) : Except T (Option WaitToken × Mailbox T) :=
  if m.isFull then .error msg
  else .ok ({ m with ring := m.ring.push (some msg) }.claimWaiter .recv)

/-- The locked part of `try_recv`. -/
def tryRecv : Except MailboxPanic (Option (T × Option WaitToken × Mailbox T)) :=
  if m.isEmpty then .ok none
  else match m.ring.front? with
    | some (some msg) =>
      .ok (some (msg, { m with ring := (m.ring.blankFront none).pop }.claimWaiter .send))
    | _ => .error .slotEmpty

end Mailbox

/-! ### Calls -/

/-- A call with its arguments; deadlines are absolute. -/
inductive Request (T : Type) where
  | trySend (msg : T)
  | send (msg : T)
  | sendUntilCounter (msg : T) (deadline : Nat)
  | tryRecv
  | recv
  | recvUntilCounter (deadline : Nat)
deriving DecidableEq

inductive Answer (T : Type) where
  | sent
  | full (msg : T)
  | sendTimeout (msg : T)
  | received (msg : T)
  | empty
  | recvTimeout
deriving DecidableEq

namespace Request

variable {T : Type}

def kind : Request T → MailboxWaitKind
  | trySend _ | send _ | sendUntilCounter _ _ => .send
  | tryRecv | recv | recvUntilCounter _ => .recv

def deadline? : Request T → Option Nat
  | sendUntilCounter _ deadline | recvUntilCounter deadline => some deadline
  | _ => none

/-- The message that a sender still holds. -/
def msg? : Request T → Option T
  | trySend msg | send msg | sendUntilCounter msg _ => some msg
  | _ => none

/-- The sender holds the message that came back. -/
def hold (msg : T) : Request T → Request T
  | trySend _ => .trySend msg
  | send _ => .send msg
  | sendUntilCounter _ deadline => .sendUntilCounter msg deadline
  | request => request

/-- The answer of a call whose deadline has passed. -/
def timeout : Request T → Answer T
  | trySend msg | send msg | sendUntilCounter msg _ => .sendTimeout msg
  | tryRecv | recv | recvUntilCounter _ => .recvTimeout

end Request

/-- The number of a call and the arguments it was given. -/
structure Call (T : Type) where
  number : Nat
  given : Request T
deriving DecidableEq

/-- What a client does next. -/
inductive Pc (T : Type) where
  | idle
  /-- Try under the lock; `cause` is that of the wait before, if there was one. -/
  | attempt (call : Call T) (request : Request T) (cause : Option WaitCause)
  /-- Cancel the deadline of the claimed token. -/
  | claimed (call : Call T) (kind : MailboxWaitKind) (token : WaitToken) (answer : Answer T)
  /-- Complete the wait of the claimed token. -/
  | notifying (call : Call T) (kind : MailboxWaitKind) (token : WaitToken) (answer : Answer T)
  /-- Claim another token, since the last one was not waiting any more. -/
  | reclaiming (call : Call T) (kind : MailboxWaitKind) (answer : Answer T)
  /-- Compare the deadline with the clock. -/
  | overdue (call : Call T) (request : Request T)
  /-- Register a wait under the lock. -/
  | entering (call : Call T) (request : Request T)
  | committing (call : Call T) (request : Request T) (prepared : PreparedWait)
  | blocked (call : Call T) (request : Request T) (token : WaitToken)
  /-- Remove the token from its queue. -/
  | removing (call : Call T) (request : Request T) (token : WaitToken) (cause : WaitCause)

structure Client (T : Type) where
  cpu : CpuId
  wait : WaitMetadata
  pc : Pc T

/-- All clients of one mailbox. The last four fields are what statements about
whole runs read: the accepted and the received messages with the numbers of their
calls, oldest first, the answers, and the number of calls. -/
structure Post (T : Type) where
  threads : Finset ThreadId
  mailbox : Mailbox T
  clients : ThreadId → Client T
  deadlines : List (WaitToken × Nat)
  expired : List WaitToken
  now : Nat
  accepted : List (Nat × T)
  received : List (Nat × T)
  answers : List (Call T × Answer T)
  calls : Nat

namespace Post

variable {T : Type} (s : Post T)

def setClient (id : ThreadId) (client : Client T) : Post T :=
  { s with clients := Function.update s.clients id client }

def setPc (id : ThreadId) (pc : Pc T) : Post T := s.setClient id { s.clients id with pc := pc }

def setWait (id : ThreadId) (wait : WaitMetadata) : Post T :=
  s.setClient id { s.clients id with wait := wait }

/-- A call returns. -/
def answer (id : ThreadId) (call : Call T) (answer : Answer T) : Post T :=
  { s.setPc id .idle with answers := s.answers ++ [(call, answer)] }

/-- The scheduler completes the wait of a token. -/
def completeWait (token : WaitToken) (cause : WaitCause) : CompletionResult × Post T :=
  let completed := (s.clients token.thread).wait.complete token cause
  (completed.1, s.setWait token.thread completed.2)

/-- `complete_claimed_waiters`: go on with a claimed token, or return. -/
def completeClaimed (id : ThreadId) (call : Call T) (kind : MailboxWaitKind) (answer : Answer T) :
    Option WaitToken → Post T
  | none => s.answer id call answer
  | some token => s.setPc id (.claimed call kind token answer)

/-- The attempt failed: return, compare the deadline, or wait. -/
def refused (id : ThreadId) (call : Call T) : Request T → Post T
  | .trySend msg => s.answer id call (.full msg)
  | .tryRecv => s.answer id call .empty
  | .send msg => s.setPc id (.entering call (.send msg))
  | .recv => s.setPc id (.entering call .recv)
  | .sendUntilCounter msg deadline => s.setPc id (.overdue call (.sendUntilCounter msg deadline))
  | .recvUntilCounter deadline => s.setPc id (.overdue call (.recvUntilCounter deadline))

/-- Try to send or to receive. -/
def attempt (id : ThreadId) (call : Call T) (request : Request T) : Except MailboxPanic (Post T) :=
  match request.msg? with
  | some msg =>
    match s.mailbox.trySend msg with
    | .ok (waiter, mailbox) =>
      .ok ({ s with mailbox := mailbox, accepted := s.accepted ++ [(call.number, msg)] }
        |>.completeClaimed id call .recv .sent waiter)
    | .error msg => .ok (s.refused id call (request.hold msg))
  | none =>
    match s.mailbox.tryRecv with
    | .error panic => .error panic
    | .ok (some (msg, waiter, mailbox)) =>
      .ok ({ s with mailbox := mailbox, received := s.received ++ [(call.number, msg)] }
        |>.completeClaimed id call .send (.received msg) waiter)
    | .ok none => .ok (s.refused id call request)

/-- Register a wait, unless the condition holds or the deadline has passed. -/
def enter (id : ThreadId) (call : Call T) (request : Request T) : Except MailboxPanic (Post T) :=
  if s.mailbox.shouldWait request.kind = false ∨
      request.deadline?.any (fun deadline => decide (deadline ≤ s.now)) = true then
    .ok (s.setPc id (.attempt call request none))
  else
    let client := s.clients id
    match client.wait.prepareWithConsumption id client.cpu .explicit with
    | .error panic => .error (.scheduler panic)
    | .ok (prepared, wait) =>
      match s.mailbox.enqueueWaiter request.kind prepared.token with
      | .error panic => .error panic
      | .ok mailbox =>
        let deadlines := match request.deadline? with
          | none => s.deadlines
          | some deadline => (prepared.token, deadline) :: s.deadlines
        .ok ({ s with mailbox := mailbox, deadlines := deadlines }.setClient id
          { client with wait := wait, pc := .committing call request prepared })

def commit (id : ThreadId) (call : Call T) (request : Request T) (prepared : PreparedWait) :
    Except MailboxPanic (Post T) :=
  let client := s.clients id
  match client.wait.commit prepared with
  | (.block token, wait) =>
    .ok (s.setClient id { client with wait := wait, pc := .blocked call request token })
  | (.early cause, wait) =>
    .ok (s.setClient id
      { client with wait := wait, pc := .removing call request prepared.token cause })
  | (.stale, _) => .error .waitStale

/-- A thread that was woken consumes its wait. -/
def resume (id : ThreadId) (call : Call T) (request : Request T) (token : WaitToken) :
    Except MailboxPanic (Post T) :=
  let client := s.clients id
  match client.wait.finish token with
  | (.ok cause, wait) =>
    .ok (s.setClient id { client with wait := wait, pc := .removing call request token cause })
  | (.error .stale, _) => .error .waitStale
  | (.error .notCompleted, _) => .error .notCompleted

/-- A timed call that was woken by its deadline returns; all others try again. -/
def remove (id : ThreadId) (call : Call T) (request : Request T) (token : WaitToken)
    (cause : WaitCause) : Post T :=
  let s := { s with mailbox := s.mailbox.removeWaiter request.kind token }
  if request.deadline?.isSome ∧ cause = .timeout then s.answer id call request.timeout
  else s.setPc id (.attempt call request (some cause))

/-- The next step of a client, if it can take one. -/
def advance (id : ThreadId) : Except MailboxPanic (Option (Post T)) :=
  match (s.clients id).pc with
  | .idle => .ok none
  | .attempt call request _ => some <$> s.attempt id call request
  | .claimed call kind token answer =>
    .ok (some ({ s with deadlines := s.deadlines.filter fun entry => entry.1 ≠ token }.setPc id
      (.notifying call kind token answer)))
  | .notifying call kind token answer =>
    let (result, s) := s.completeWait token .notified
    if result.wins then .ok (some (s.answer id call answer))
    else .ok (some (s.setPc id (.reclaiming call kind answer)))
  | .reclaiming call kind answer =>
    let (waiter, mailbox) := s.mailbox.claimWaiter kind
    .ok (some ({ s with mailbox := mailbox }.completeClaimed id call kind answer waiter))
  | .overdue call request =>
    if request.deadline?.any (fun deadline => decide (deadline ≤ s.now)) then
      .ok (some (s.answer id call request.timeout))
    else .ok (some (s.setPc id (.entering call request)))
  | .entering call request => some <$> s.enter id call request
  | .committing call request prepared => some <$> s.commit id call request prepared
  | .blocked call request token =>
    if (s.clients id).wait.isCompleted then some <$> s.resume id call request token else .ok none
  | .removing call request token cause => .ok (some (s.remove id call request token cause))

/-- The timer takes a due event off its queue. -/
def expire (token : WaitToken) : Option (Post T) :=
  if s.deadlines.any fun entry => entry.1 = token ∧ entry.2 ≤ s.now then
    some { s with
      deadlines := s.deadlines.filter fun entry => entry.1 ≠ token
      expired := token :: s.expired }
  else none

/-- The timer completes the wait of an expired event. -/
def fire (token : WaitToken) : Option (Post T) :=
  if token ∈ s.expired then
    some ({ s with expired := s.expired.erase token }.completeWait token .timeout).2
  else none

end Post

/-- A client begins a call or goes on with it, or the timer or the clock moves. -/
inductive PostMove (T : Type) where
  | call (id : ThreadId) (request : Request T)
  | advance (id : ThreadId)
  | expire (token : WaitToken)
  | fire (token : WaitToken)
  | tick

namespace Post

variable {T : Type}

def move (s : Post T) : PostMove T → Except MailboxPanic (Option (Post T))
  | .call id request =>
    match (s.clients id).pc with
    | .idle =>
      if id ∈ s.threads then
        .ok (some ({ s with calls := s.calls + 1 }.setPc id
          (.attempt ⟨s.calls, request⟩ request none)))
      else .ok none
    | _ => .ok none
  | .advance id => s.advance id
  | .expire token => .ok (s.expire token)
  | .fire token => .ok (s.fire token)
  | .tick => .ok (some { s with now := s.now + 1 })

/-- Nobody has called yet, and no thread waits for anything. -/
structure Initial (s : Post T) : Prop where
  mailbox : ∃ capacity waiterCapacity, Mailbox.withCapacity T capacity waiterCapacity =
    .ok s.mailbox
  idle : ∀ id, (s.clients id).pc = .idle ∧ (s.clients id).wait.active = none
  deadlines : s.deadlines = []
  expired : s.expired = []
  accepted : s.accepted = []
  received : s.received = []
  answers : s.answers = []
  calls : s.calls = 0

/-- All interleavings. -/
def machine (T : Type) : Machine (Post T) (PostMove T) where
  initial := Initial
  step s label t := s.move label = .ok (some t)

/-! ### Executions -/

/-- Threads on the boot processor before their first call. -/
def fresh (threads : Finset ThreadId) (mailbox : Mailbox T) : Post T where
  threads := threads
  mailbox := mailbox
  clients _ := ⟨0, ⟨0, none⟩, .idle⟩
  deadlines := []
  expired := []
  now := 0
  accepted := []
  received := []
  answers := []
  calls := 0

/-- What an execution shows holds in some reachable state. -/
theorem exists_played (threads : Finset ThreadId) {capacity waiterCapacity : Nat}
    {mailbox : Mailbox T} (made : Mailbox.withCapacity T capacity waiterCapacity = .ok mailbox)
    (labels : List (PostMove T)) (shows : Post T → Bool)
    (played : (Machine.execute (Machine.attempt move) (fresh threads mailbox) labels).any shows =
      true) :
    ∃ s, (machine T).Reachable s ∧ shows s = true := by
  have start : Initial (fresh threads mailbox) :=
    ⟨⟨capacity, waiterCapacity, made⟩, fun _ => ⟨rfl, rfl⟩, rfl, rfl, rfl, rfl, rfl, rfl⟩
  exact Machine.exists_executed (fun _ _ _ taken => taken) start labels shows played

end Post

end Genrt
