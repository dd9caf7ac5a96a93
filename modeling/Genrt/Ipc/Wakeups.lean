import Genrt.Ipc.Fifo

/-!
# A mailbox loses no wakeups

A notification is on its way from the moment a call claims a token until the woken
thread tries again. While somebody still waits in a queue, what they wait for is
covered: there are no more messages than notifications on their way to receivers,
and no more free slots than notifications on their way to senders.

A claimed token can be stale, and its thread can meanwhile wait for something else.
That a completion reaches a client of the right kind follows from the tokens: a
token that is still known somewhere was given out for one registration.
-/

namespace Genrt

open Function

variable {T : Type}

/-- The registration of the token has not been completed. -/
def WaitMetadata.Awaits (w : WaitMetadata) (token : WaitToken) : Prop :=
  w.token? = some token ∧ w.isCompleted = false

/-- The registration was completed by a notification. -/
def WaitMetadata.notified (w : WaitMetadata) : Bool :=
  match w.active with
  | some ⟨_, .completed .notified, _⟩ => true
  | _ => false

namespace Pc

/-- The request of a client between its registration and the end of its wait. -/
def waiting? : Pc T → Option (Request T)
  | .committing _ request _ | .blocked _ request _ => some request
  | _ => none

/-- The token that a client took off a queue. -/
def claims? : Pc T → Option (MailboxWaitKind × WaitToken)
  | .claimed _ kind token _ | .notifying _ kind token _ => some (kind, token)
  | _ => none

end Pc

/-- A notification for the given side is on its way: the client works on a claimed
token, or it was notified and has not tried again. -/
def Client.pending (client : Client T) (kind : MailboxWaitKind) : Bool :=
  match client.pc with
  | .claimed _ side _ _ | .notifying _ side _ _ | .reclaiming _ side _ => decide (side = kind)
  | .committing _ request _ | .blocked _ request _ =>
    decide (request.kind = kind) && client.wait.notified
  | .removing _ request _ cause => decide (request.kind = kind) && decide (cause = .notified)
  | .attempt _ request cause => decide (request.kind = kind) && decide (cause = some .notified)
  | .idle | .overdue _ _ | .entering _ _ => false

/-- What the waiters of one side wait for: messages, or free slots. -/
def Mailbox.supply (m : Mailbox T) : MailboxWaitKind → Nat
  | .recv => m.ring.len
  | .send => m.ring.capacity - m.ring.len

namespace Post

variable {s t : Post T} {id : ThreadId} {kind : MailboxWaitKind} {client : Client T}

/-- Some waiter is registered with an uncompleted wait. -/
def Waiting (s : Post T) (kind : MailboxWaitKind) : Prop :=
  ∃ token ∈ (s.mailbox.waiters kind).items, (s.clients token.thread).wait.Awaits token

/-- The notifications on their way to one side. -/
def pending (s : Post T) (kind : MailboxWaitKind) : Nat :=
  (s.threads.filter fun id => (s.clients id).pending kind = true).card

/-- The token is queued or claimed for one side. -/
def Known (s : Post T) (kind : MailboxWaitKind) (token : WaitToken) : Prop :=
  token ∈ (s.mailbox.waiters kind).items ∨ ∃ id, (s.clients id).pc.claims? = some (kind, token)

/-! ### Tokens -/

/-- Only clients that wait are registered, and a known token that still names the
registration of its thread was given out for the same side. -/
structure Tokens (s : Post T) : Prop where
  outside : ∀ id, id ∉ s.threads → (s.clients id).pc = .idle
  active : ∀ id active, (s.clients id).wait.active = some active → active.token.thread = id ∧
    active.consumption = .explicit ∧ (s.clients id).pc.waiting? ≠ none
  known : ∀ kind token, s.Known kind token →
    token.sequence ≤ (s.clients token.thread).wait.nextSequence ∧
    ∀ request, (s.clients token.thread).pc.waiting? = some request →
      (s.clients token.thread).wait.token? = some token → request.kind = kind

theorem Tokens.inside (h : Tokens s) (busy : (s.clients id).pc ≠ .idle) : id ∈ s.threads := by
  by_contra absent
  exact busy (h.outside id absent)

/-- One client changes. A token that is new in a queue was given out to it. -/
theorem Tokens.update (h : Tokens s) (threads : t.threads = s.threads)
    (clients : t.clients = update s.clients id client)
    (outside : id ∉ s.threads → client.pc = .idle)
    (active : ∀ active, client.wait.active = some active → active.token.thread = id ∧
      active.consumption = .explicit ∧ client.pc.waiting? ≠ none)
    (sequence : (s.clients id).wait.nextSequence ≤ client.wait.nextSequence)
    (kept : client.pc.waiting? = none ∨ (client.pc.waiting? = (s.clients id).pc.waiting? ∧
      client.wait.token? = (s.clients id).wait.token?) ∨
      ∀ kind token, s.Known kind token → client.wait.token? ≠ some token)
    (queues : ∀ kind token, token ∈ (t.mailbox.waiters kind).items → s.Known kind token ∨
      token.thread = id ∧ token.sequence ≤ client.wait.nextSequence ∧
        ∀ request, client.pc.waiting? = some request → request.kind = kind)
    (claims : ∀ kind token, client.pc.claims? = some (kind, token) → s.Known kind token) :
    Tokens t := by
  constructor
  · intro other absent
    rw [threads] at absent
    rw [clients, update_apply]
    split
    · next own => exact outside (own ▸ absent)
    · exact h.outside other absent
  · intro other registered held
    rw [clients, update_apply] at held ⊢
    split at held
    · next own =>
      rw [if_pos own]
      exact own ▸ active registered held
    · next apart =>
      rw [if_neg apart]
      exact h.active other registered held
  · intro side token known
    have before : s.Known side token ∨ token.thread = id ∧
        token.sequence ≤ client.wait.nextSequence ∧
        ∀ request, client.pc.waiting? = some request → request.kind = side := by
      rcases known with queued | ⟨other, claimed⟩
      · exact queues side token queued
      · rw [clients, update_apply] at claimed
        split at claimed
        · exact .inl (claims side token claimed)
        · exact .inl (.inr ⟨other, claimed⟩)
    rw [clients, update_apply]
    rcases before with old | ⟨own, bound, matches'⟩
    · obtain ⟨bound, matches'⟩ := h.known side token old
      split
      · next own =>
        rw [own] at bound matches'
        refine ⟨bound.trans sequence, fun request waits named => ?_⟩
        rcases kept with gone | ⟨same, registration⟩ | fresh
        · cases gone.symm.trans waits
        · exact matches' request (same ▸ waits) (registration ▸ named)
        · exact absurd named (fresh side token old)
      · exact ⟨bound, matches'⟩
    · rw [if_pos own]
      exact ⟨bound, fun request waits _ => matches' request waits⟩

theorem Tokens.unregistered (h : Tokens s) (quiet : (s.clients id).pc.waiting? = none) :
    (s.clients id).wait.active = none := by
  cases registered : (s.clients id).wait.active with
  | none => rfl
  | some active => exact absurd quiet (h.active id active registered).2.2

/-- A client that does not wait goes on. -/
theorem Tokens.go (h : Tokens s) {pc : Pc T} (threads : t.threads = s.threads)
    (clients : t.clients = Function.update s.clients id { s.clients id with pc := pc })
    (inside : id ∈ s.threads) (before : (s.clients id).pc.waiting? = none)
    (after : pc.waiting? = none)
    (queues : ∀ kind token, token ∈ (t.mailbox.waiters kind).items → s.Known kind token)
    (claims : ∀ kind token, pc.claims? = some (kind, token) → s.Known kind token) : Tokens t := by
  refine h.update threads clients (fun absent => absurd inside absent) ?_ le_rfl (.inl after)
    (fun kind token queued => .inl (queues kind token queued)) claims
  intro active registered
  cases (h.unregistered before).symm.trans registered

/-! ### Notifications on their way -/

theorem pending_update (clients : t.clients = update s.clients id client)
    (threads : t.threads = s.threads) (inside : id ∈ s.threads) (kind : MailboxWaitKind) :
    t.pending kind + ((s.clients id).pending kind).toNat =
      s.pending kind + (client.pending kind).toNat := by
  have others : ∀ other ∈ s.threads.erase id, t.clients other = s.clients other := by
    intro other member
    rw [clients, update_of_ne (Finset.ne_of_mem_erase member)]
  have own : t.clients id = client := by rw [clients, update_self]
  have rest :
      ∑ other ∈ s.threads.erase id, (if (t.clients other).pending kind = true then 1 else 0) =
      ∑ other ∈ s.threads.erase id, if (s.clients other).pending kind = true then 1 else 0 :=
    Finset.sum_congr rfl fun other member => by rw [others other member]
  rw [pending, pending, Finset.card_filter, Finset.card_filter, threads,
    ← Finset.add_sum_erase _ _ inside, ← Finset.add_sum_erase _ _ inside, rest, own]
  cases (s.clients id).pending kind <;> cases client.pending kind <;> simp [Bool.toNat] <;> omega

/-- What the waiters of one side wait for is on its way. -/
def Covered (kind : MailboxWaitKind) (s : Post T) : Prop :=
  s.Waiting kind → s.mailbox.supply kind ≤ s.pending kind

theorem Covered.carry (h : Covered kind s) (waiting : t.Waiting kind → s.Waiting kind)
    (balance : t.mailbox.supply kind + s.pending kind ≤ s.mailbox.supply kind + t.pending kind) :
    Covered kind t := by
  intro waits
  have covered := h (waiting waits)
  omega

theorem Waiting.of_update (clients : t.clients = update s.clients id client)
    (queues : (t.mailbox.waiters kind).items ⊆ (s.mailbox.waiters kind).items)
    (awaits : ∀ token, token ∈ (s.mailbox.waiters kind).items → client.wait.Awaits token →
      (s.clients id).wait.Awaits token) (waits : t.Waiting kind) : s.Waiting kind := by
  obtain ⟨token, queued, awaited⟩ := waits
  refine ⟨token, queues queued, ?_⟩
  rw [clients, update_apply] at awaited
  split at awaited
  · next own => exact own ▸ awaits token (queues queued) awaited
  · exact awaited

/-- One client changes. -/
theorem Covered.update (h : Covered kind s) (threads : t.threads = s.threads)
    (clients : t.clients = update s.clients id client) (inside : id ∈ s.threads)
    (queues : (t.mailbox.waiters kind).items ⊆ (s.mailbox.waiters kind).items)
    (awaits : ∀ token, token ∈ (s.mailbox.waiters kind).items → client.wait.Awaits token →
      (s.clients id).wait.Awaits token)
    (balance : t.mailbox.supply kind + ((s.clients id).pending kind).toNat ≤
      s.mailbox.supply kind + (client.pending kind).toNat) : Covered kind t := by
  refine h.carry (Waiting.of_update clients queues awaits) ?_
  have moved := pending_update clients threads inside kind
  omega

structure Wakeups (s : Post T) : Prop where
  tokens : Tokens s
  covered : ∀ kind, Covered kind s

/-- A client that does not wait goes on, with as many notifications as before. -/
theorem Wakeups.go (h : Wakeups s) {pc : Pc T} (threads : t.threads = s.threads)
    (clients : t.clients = update s.clients id { s.clients id with pc := pc })
    (inside : id ∈ s.threads) (before : (s.clients id).pc.waiting? = none)
    (after : pc.waiting? = none) (ring : t.mailbox.ring = s.mailbox.ring)
    (queues : ∀ kind, (t.mailbox.waiters kind).items ⊆ (s.mailbox.waiters kind).items)
    (claims : ∀ kind token, pc.claims? = some (kind, token) → s.Known kind token)
    (carried : ∀ kind, (s.clients id).pending kind = true →
      ({ s.clients id with pc := pc } : Client T).pending kind = true ∨
        s.mailbox.supply kind = 0) : Wakeups t := by
  refine ⟨h.tokens.go threads clients inside before after
    (fun kind token queued => .inl (queues kind queued)) claims, fun kind => ?_⟩
  have supply : t.mailbox.supply kind = s.mailbox.supply kind := by
    cases kind <;> simp only [Mailbox.supply, ring]
  rcases Nat.eq_zero_or_pos (s.mailbox.supply kind) with none | some
  · intro _
    omega
  · refine (h.covered kind).update threads clients inside (queues kind)
      (fun _ _ awaited => awaited) ?_
    rw [supply, Nat.add_le_add_iff_left]
    refine Bool.toNat_le_toNat ?_
    intro pending
    rcases carried kind pending with kept | none
    · exact kept
    · omega

/-! ### Queues -/

theorem waiters_setWaiters (m : Mailbox T) (side kind : MailboxWaitKind)
    (queue : BoundedQueue WaitToken) :
    (m.setWaiters side queue).waiters kind = if kind = side then queue else m.waiters kind := by
  cases side <;> cases kind <;> rfl

variable {m mailbox : Mailbox T} {side : MailboxWaitKind} {waiter : Option WaitToken}
variable {token : WaitToken} {cause : WaitCause} {request : Request T} {call : Call T}

/-- A claim takes the first token off the queue, if there is one. -/
theorem waiters_claimWaiter (claim : m.claimWaiter side = (waiter, mailbox)) :
    (∀ kind, (mailbox.waiters kind).items ⊆ (m.waiters kind).items) ∧
    (waiter = none → (mailbox.waiters side).items = []) ∧
    ∀ token, waiter = some token → token ∈ (m.waiters side).items := by
  unfold Mailbox.claimWaiter at claim
  split at claim
  · next empty =>
    cases claim
    refine ⟨fun _ => List.Subset.refl _, fun _ => ?_, nofun⟩
    exact BoundedQueue.popFront_eq_none.mp empty
  · next token queue popped =>
    cases claim
    have items := (BoundedQueue.popFront_some popped).1
    refine ⟨fun kind => ?_, nofun, fun _ same => ?_⟩
    · rw [waiters_setWaiters]
      split
      · next own =>
        rw [own, items]
        exact List.subset_cons_self _ _
      · exact List.Subset.refl _
    · cases same
      rw [items]
      exact .head _

theorem waiters_enqueueWaiter (queued : m.enqueueWaiter side token = .ok mailbox)
    (kind : MailboxWaitKind) :
    (mailbox.waiters kind).items =
      if kind = side then (m.waiters side).items ++ [token] else (m.waiters kind).items := by
  unfold Mailbox.enqueueWaiter at queued
  split at queued
  · cases queued
  · split at queued
    · cases queued
    · next queue pushed =>
      cases queued
      rw [waiters_setWaiters]
      split
      · exact (BoundedQueue.pushBack_some pushed).1
      · rfl

theorem waiters_removeWaiter (m : Mailbox T) (side : MailboxWaitKind) (token : WaitToken)
    (kind : MailboxWaitKind) :
    ((m.removeWaiter side token).waiters kind).items ⊆ (m.waiters kind).items := by
  rw [Mailbox.removeWaiter, waiters_setWaiters]
  split
  · next own =>
    rw [own]
    exact List.erase_subset
  · exact List.Subset.refl _

/-! ### Steps -/

/-- A call claims a token for what it has put into or taken out of the ring. -/
theorem Wakeups.claim (h : Wakeups s) {u : Post T} (call : Call T) (answer : Answer T)
    (threads : u.threads = s.threads) (clients : u.clients = s.clients) (inside : id ∈ s.threads)
    (before : (s.clients id).pc.waiting? = none)
    (queues : ∀ kind, m.waiters kind = s.mailbox.waiters kind)
    (claim : m.claimWaiter side = (waiter, u.mailbox))
    (served : u.mailbox.supply side + ((s.clients id).pending side).toNat ≤
      s.mailbox.supply side + 1) (used : ∀ kind, kind ≠ side →
      u.mailbox.supply kind + ((s.clients id).pending kind).toNat ≤ s.mailbox.supply kind) :
    Wakeups (u.completeClaimed id call side answer waiter) := by
  obtain ⟨subset, emptied, taken⟩ := waiters_claimWaiter claim
  have shrinks : ∀ kind, (u.mailbox.waiters kind).items ⊆ (s.mailbox.waiters kind).items :=
    fun kind => queues kind ▸ subset kind
  cases waiter with
  | none =>
    have changed : (u.completeClaimed id call side answer none).clients =
        Function.update s.clients id { s.clients id with pc := .idle } := by
      rw [← clients]
      rfl
    refine ⟨h.tokens.go threads changed inside before rfl
      (fun kind token queued => .inl (shrinks kind queued))
      nofun, fun kind => ?_⟩
    by_cases own : kind = side
    · rintro ⟨token, queued, _⟩
      have none : (u.mailbox.waiters kind).items = [] := own ▸ emptied rfl
      have member : token ∈ (u.mailbox.waiters kind).items := queued
      rw [none] at member
      cases member
    · exact (h.covered kind).update threads changed inside (shrinks kind)
        (fun _ _ awaited => awaited) (used kind own)
  | some token =>
    have changed : (u.completeClaimed id call side answer (some token)).clients =
        update s.clients id
          { s.clients id with pc := .claimed call side token answer } := by
      rw [← clients]
      rfl
    refine ⟨h.tokens.go threads changed inside before rfl
      (fun kind token queued => .inl (shrinks kind queued)) ?_, fun kind => ?_⟩
    · rintro kind claimed ⟨⟩
      exact .inl (queues side ▸ taken token rfl)
    · refine (h.covered kind).update threads changed inside (shrinks kind)
        (fun _ _ awaited => awaited) ?_
      change u.mailbox.supply kind + _ ≤ _ + (decide (side = kind)).toNat
      by_cases own : side = kind
      · subst own
        rw [decide_eq_true rfl]
        exact served
      · rw [decide_eq_false own]
        exact used kind (Ne.symm own)

/-- A completion of a wait that reaches nobody changes nothing. -/
theorem completeWait_lost (loses : (s.completeWait token cause).1.wins = false) :
    (s.completeWait token cause).2 = s := by
  rcases (s.clients token.thread).wait.complete_cases token cause with ⟨_, same⟩ |
    ⟨_, _, _, _, wins, _⟩
  · unfold completeWait
    dsimp only
    rw [same, setWait, setClient, update_eq_self]
  · cases loses.symm.trans wins

/-- A completion that wins finds a client that waits, and leaves it completed. -/
theorem Tokens.completeWait (h : Tokens s) (wins : (s.completeWait token cause).1.wins = true) :
    ∃ request wait, (s.clients token.thread).pc.waiting? = some request ∧
      (s.clients token.thread).wait.token? = some token ∧
      (s.clients token.thread).wait.isCompleted = false ∧ wait.token? = some token ∧
      wait.nextSequence = (s.clients token.thread).wait.nextSequence ∧
      wait.active = some ⟨token, .completed cause, .explicit⟩ ∧
      (s.completeWait token cause).2 = s.setWait token.thread wait := by
  rcases (s.clients token.thread).wait.complete_cases token cause with ⟨loses, _⟩ |
    ⟨a, active, named, phase, _, sequence, left⟩
  · cases wins.symm.trans loses
  · obtain ⟨_, explicit, waits⟩ := h.active _ a active
    obtain ⟨request, waits⟩ := Option.ne_none_iff_exists'.mp waits
    have completed : ((s.clients token.thread).wait.complete token cause).2.active =
        some ⟨token, .completed cause, .explicit⟩ := by
      rcases left with ⟨automatic, _⟩ | some
      · cases explicit.symm.trans automatic
      · rw [some, named, explicit]
    refine ⟨request, _, waits, ?_, ?_, ?_, sequence, completed, rfl⟩
    · rw [WaitMetadata.token?, active, Option.map_some, named]
    · obtain ⟨_, stage, _⟩ := a
      rw [WaitMetadata.isCompleted, active]
      cases stage with
      | prepared | blocked => rfl
      | completed other => exact absurd rfl (phase other)
    · rw [WaitMetadata.token?, completed]
      rfl

/-- The invariant reads the threads, the mailbox and the clients. -/
theorem Wakeups.congr (h : Wakeups s) (threads : t.threads = s.threads)
    (mailbox : t.mailbox = s.mailbox) (clients : t.clients = s.clients) : Wakeups t := by
  cases s
  cases t
  cases threads
  cases mailbox
  cases clients
  exact ⟨⟨h.tokens.outside, h.tokens.active, h.tokens.known⟩, h.covered⟩

theorem pending_waiting (client : Client T) (waits : client.pc.waiting? = some request)
    (kind : MailboxWaitKind) :
    client.pending kind = (decide (request.kind = kind) && client.wait.notified) := by
  obtain ⟨cpu, wait, pc⟩ := client
  cases pc <;> cases waits <;> rfl

theorem notified_of_awaited {w : WaitMetadata} (open' : w.isCompleted = false) :
    w.notified = false := by
  obtain ⟨_, active⟩ := w
  cases active with
  | none => rfl
  | some active =>
    obtain ⟨_, phase, _⟩ := active
    cases phase with
    | prepared | blocked => rfl
    | completed cause => cases open'

/-- A wait is completed. -/
theorem Tokens.complete (h : Tokens s) (token : WaitToken) (cause : WaitCause) :
    Tokens (s.completeWait token cause).2 := by
  cases outcome : (s.completeWait token cause).1.wins with
  | false =>
    rw [completeWait_lost outcome]
    exact h
  | true =>
    obtain ⟨request, wait, waits, before, _, after, sequence, active, state⟩ :=
      h.completeWait outcome
    rw [state]
    refine h.update rfl rfl (h.outside _) ?_ sequence.ge
      (.inr (.inl ⟨rfl, after.trans before.symm⟩))
      (fun _ _ queued => .inl (.inl queued)) (fun _ _ claimed => .inr ⟨_, claimed⟩)
    intro registered held
    cases active.symm.trans held
    refine ⟨rfl, rfl, fun none => ?_⟩
    cases none.symm.trans waits

/-- The timer completes a wait. -/
theorem Wakeups.timeout (h : Wakeups s) (token : WaitToken) :
    Wakeups (s.completeWait token .timeout).2 := by
  refine ⟨h.tokens.complete token .timeout, fun kind => ?_⟩
  cases outcome : (s.completeWait token .timeout).1.wins with
  | false =>
    rw [completeWait_lost outcome]
    exact h.covered kind
  | true =>
    obtain ⟨request, wait, waits, _, open', _, _, active, state⟩ := h.tokens.completeWait outcome
    have inside : token.thread ∈ s.threads := h.tokens.inside fun idle => by
      rw [idle] at waits
      cases waits
    rw [state]
    refine (h.covered kind).update rfl rfl inside (.refl _) ?_ ?_
    · intro other _ awaited
      have finished : wait.isCompleted = true := by rw [WaitMetadata.isCompleted, active]
      cases finished.symm.trans awaited.2
    · rw [pending_waiting _ waits, notified_of_awaited open', Bool.and_false]
      exact Nat.add_le_add_left (Nat.zero_le _) _

variable {token : WaitToken} {call : Call T}

/-- A call completes the wait of the token that it claimed. -/
theorem Wakeups.won (h : Wakeups s) {side : MailboxWaitKind} {answer : Answer T}
    (pc : (s.clients id).pc = .notifying call side token answer)
    (wins : (s.completeWait token .notified).1.wins = true) :
    Wakeups ((s.completeWait token .notified).2.answer id call answer) := by
  obtain ⟨request, wait, waits, before, open', _, _, active, state⟩ := h.tokens.completeWait wins
  have apart : id ≠ token.thread := by
    rintro rfl
    rw [pc] at waits
    cases waits
  have known : s.Known side token := .inr ⟨id, by rw [pc]; rfl⟩
  have same : request.kind = side := (h.tokens.known side token known).2 request waits before
  have tokens := h.tokens.complete token .notified
  rw [state] at tokens ⊢
  have own : (s.setWait token.thread wait).clients id = s.clients id :=
    update_of_ne apart _ _
  have inside : id ∈ s.threads := h.tokens.inside (by rw [pc]; exact nofun)
  have sleeper : token.thread ∈ s.threads := h.tokens.inside fun idle => by
    rw [idle] at waits
    cases waits
  have woke : (s.setWait token.thread wait).clients =
      update s.clients token.thread { s.clients token.thread with wait := wait } := rfl
  have changed : ((s.setWait token.thread wait).answer id call answer).clients =
      Function.update (s.setWait token.thread wait).clients id
        { (s.setWait token.thread wait).clients id with pc := .idle } := rfl
  refine ⟨tokens.go rfl changed inside (by rw [own, pc]; rfl) rfl
    (fun _ _ queued => .inl queued) nofun, fun kind => ?_⟩
  refine (h.covered kind).carry ?_ (Nat.add_le_add_left (Nat.le_of_eq ?_) _)
  · intro waiting
    have between : (s.setWait token.thread wait).Waiting kind :=
      Waiting.of_update changed (.refl _) (fun _ _ awaited => awaited) waiting
    refine Waiting.of_update woke (.refl _) (fun other _ awaited => ?_) between
    have finished : wait.isCompleted = true := by rw [WaitMetadata.isCompleted, active]
    cases finished.symm.trans awaited.2
  · -- the notification passes from the caller to the thread it has woken
    have woken := pending_update woke rfl sleeper kind
    have returned := pending_update changed rfl inside kind
    have notified : wait.notified = true := by rw [WaitMetadata.notified, active]
    have left : ({ s.clients token.thread with wait := wait } : Client T).pending kind =
        decide (request.kind = kind) := by
      rw [pending_waiting { s.clients token.thread with wait := wait } waits, notified,
        Bool.and_true]
    have working : (s.clients id).pending kind = decide (side = kind) := by
      rw [Client.pending, pc]
    rw [left, pending_waiting _ waits, notified_of_awaited open', Bool.and_false, same] at woken
    rw [own, working] at returned
    change _ = _ + 0 at returned
    change _ + 0 = _ at woken
    omega

/-- A client registers while there is nothing for it. -/
theorem Wakeups.registered (h : Wakeups s) (inside : id ∈ s.threads)
    (pc : (s.clients id).pc = .entering call request) (waits : s.mailbox.supply request.kind = 0)
    (queued : s.mailbox.enqueueWaiter request.kind (s.nextToken id) = .ok t.mailbox)
    (threads : t.threads = s.threads) (clients : t.clients = update s.clients id
      { s.clients id with
        wait := ⟨(s.nextToken id).sequence, some ⟨s.nextToken id, .prepared, .explicit⟩⟩
        pc := .committing call request ⟨s.nextToken id, .explicit⟩ }) : Wakeups t := by
  have supply : ∀ kind, t.mailbox.supply kind = s.mailbox.supply kind := by
    intro kind
    cases kind <;> simp only [Mailbox.supply, ring_enqueueWaiter queued]
  have member : ∀ kind other, other ∈ (t.mailbox.waiters kind).items →
      other ∈ (s.mailbox.waiters kind).items ∨ kind = request.kind ∧ other = s.nextToken id := by
    intro kind other member
    rw [waiters_enqueueWaiter queued] at member
    split at member
    · next own =>
      rcases List.mem_append.mp member with old | new
      · exact .inl (own ▸ old)
      · exact .inr ⟨own, List.mem_singleton.mp new⟩
    · exact .inl member
  -- tokens that are around were given out before
  have older : ∀ kind other, s.Known kind other → some (s.nextToken id) ≠ some other := by
    rintro kind _ known ⟨⟩
    exact Nat.not_succ_le_self _ (h.tokens.known kind _ known).1
  refine ⟨h.tokens.update threads clients (fun absent => absurd inside absent) ?_ (Nat.le_succ _)
    (.inr (.inr older)) (fun kind other queued => ?_) nofun, fun kind => ?_⟩
  · rintro _ ⟨⟩
    exact ⟨rfl, rfl, nofun⟩
  · refine (member kind other queued).imp .inl ?_
    rintro ⟨rfl, rfl⟩
    exact ⟨rfl, le_rfl, fun _ waits => by cases waits; rfl⟩
  · by_cases own : kind = request.kind
    · intro _
      rw [supply, own, waits]
      exact Nat.zero_le _
    · refine (h.covered kind).update threads clients inside (fun other queued => ?_)
        (fun other queued awaited => absurd awaited.1 (older kind other (.inl queued))) ?_
      · exact (member kind other queued).resolve_right fun new => own new.1
      · have before : (s.clients id).pending kind = false := by rw [Client.pending, pc]
        rw [supply, before]
        exact Nat.add_le_add_left (Nat.zero_le _) _

variable {a : ActiveWait}

/-- A client goes to sleep. -/
theorem Wakeups.slept (h : Wakeups s) {prepared : PreparedWait} (inside : id ∈ s.threads)
    (pc : (s.clients id).pc = .committing call request prepared)
    (active : (s.clients id).wait.active = some a) (phase : a.phase = .prepared) :
    Wakeups (s.setClient id { s.clients id with
      wait := { (s.clients id).wait with active := some { a with phase := .blocked } }
      pc := .blocked call request a.token }) := by
  obtain ⟨thread, explicit, _⟩ := h.tokens.active id a active
  have waits : (s.clients id).pc.waiting? = some request := by
    rw [pc]
    rfl
  have open' : (s.clients id).wait.isCompleted = false := by
    obtain ⟨_, _, _⟩ := a
    cases phase
    rw [WaitMetadata.isCompleted, active]
  have registered : (s.clients id).wait.token? = some a.token := by
    rw [WaitMetadata.token?, active, Option.map_some]
  refine ⟨h.tokens.update rfl rfl (fun absent => absurd inside absent) ?_ le_rfl
    (.inr (.inl ⟨waits.symm, registered.symm⟩)) (fun _ _ queued => .inl (.inl queued))
    nofun, fun kind => ?_⟩
  · rintro _ ⟨⟩
    exact ⟨thread, explicit, nofun⟩
  · refine (h.covered kind).update rfl rfl inside (.refl _) ?_ ?_
    · exact fun other _ awaited => ⟨registered.trans awaited.1, open'⟩
    · rw [pending_waiting _ waits, notified_of_awaited open', Bool.and_false]
      exact Nat.add_le_add_left (Nat.zero_le _) _

/-- A client takes the cause of its completed wait. -/
theorem Wakeups.consumed (h : Wakeups s) (token : WaitToken) (inside : id ∈ s.threads)
    (waits : (s.clients id).pc.waiting? = some request)
    (active : (s.clients id).wait.active = some a) (phase : a.phase = .completed cause) :
    Wakeups (s.consume id (.removing call request token cause)) := by
  refine ⟨h.tokens.update rfl rfl (fun absent => absurd inside absent)
    nofun le_rfl (.inl rfl) (fun _ _ queued => .inl (.inl queued))
    nofun, fun kind => ?_⟩
  refine (h.covered kind).update rfl rfl inside (.refl _)
    (fun _ _ awaited => by cases awaited.1) (Nat.add_le_add_left (Nat.le_of_eq ?_) _)
  have notified : (s.clients id).wait.notified = decide (cause = .notified) := by
    obtain ⟨_, _, _⟩ := a
    cases phase
    rw [WaitMetadata.notified, active]
    cases cause <;> rfl
  rw [pending_waiting _ waits, notified]
  rfl

/-- Nothing is there for the side that has to wait. -/
theorem supply_of_shouldWait (waits : m.shouldWait kind = true) : m.supply kind = 0 := by
  cases kind with
  | send =>
    have full : m.ring.len = m.ring.capacity := of_decide_eq_true waits
    rw [Mailbox.supply, full, Nat.sub_self]
  | recv => exact of_decide_eq_true waits

section

variable (h : Wakeups s)

include h

variable {cause : Option WaitCause}

/-- A message comes in, and a receiver is claimed for it. -/
theorem Wakeups.sent (ring : s.mailbox.ring.WellFormed) {msg : T} (inside : id ∈ s.threads)
    (pc : (s.clients id).pc = .attempt call request cause) (holds : request.msg? = some msg)
    (room : s.mailbox.ring.isFull = false)
    (claim : { s.mailbox with ring := s.mailbox.ring.push (some msg) }.claimWaiter .recv =
      (waiter, mailbox)) (accepted : List (Nat × T)) :
    Wakeups ({ s with mailbox := mailbox, accepted := accepted }.completeClaimed id call .recv .sent
      waiter) := by
  have pushed := ring_claimWaiter claim
  have space : s.mailbox.ring.len ≠ s.mailbox.ring.capacity := of_decide_eq_false room
  have fits := ring.fits
  have pending : ∀ kind, (s.clients id).pending kind =
      (decide (MailboxWaitKind.send = kind) && decide (cause = some .notified)) := by
    intro kind
    rw [Client.pending, pc, ← Request.kind_of_msg holds]
  refine h.claim call .sent rfl rfl inside (by rw [pc]; rfl) (fun kind => by cases kind <;> rfl)
    claim ?_ ?_
  · rw [pending, Mailbox.supply, pushed]
    exact le_rfl
  · intro kind apart
    cases kind with
    | recv => exact absurd rfl apart
    | send =>
      have most := Bool.toNat_le ((s.clients id).pending .send)
      rw [Mailbox.supply, Mailbox.supply, pushed, RingBuffer.capacity_push]
      change s.mailbox.ring.capacity - (s.mailbox.ring.len + 1) + _ ≤ _
      omega

/-- A message goes out, and a sender is claimed for its slot. -/
theorem Wakeups.received {msg : T} (inside : id ∈ s.threads)
    (pc : (s.clients id).pc = .attempt call request cause) (holds : request.msg? = none)
    (stored : s.mailbox.ring.isEmpty = false)
    (claim : { s.mailbox with ring := (s.mailbox.ring.blankFront none).pop }.claimWaiter .send =
      (waiter, mailbox)) (received : List (Nat × T)) :
    Wakeups ({ s with mailbox := mailbox, received := received }.completeClaimed id call .send
      (.received msg) waiter) := by
  have popped := ring_claimWaiter claim
  have length : s.mailbox.ring.len ≠ 0 := of_decide_eq_false stored
  have pending : ∀ kind, (s.clients id).pending kind =
      (decide (MailboxWaitKind.recv = kind) && decide (cause = some .notified)) := by
    intro kind
    rw [Client.pending, pc, ← Request.kind_of_none holds]
  refine h.claim call (.received msg) rfl rfl inside (by rw [pc]; rfl)
    (fun kind => by cases kind <;> rfl) claim ?_ ?_
  · rw [pending, Mailbox.supply, Mailbox.supply, popped, RingBuffer.capacity_pop,
      RingBuffer.capacity_blankFront]
    change s.mailbox.ring.capacity - (s.mailbox.ring.len - 1) + 0 ≤ _
    omega
  · intro kind apart
    cases kind with
    | send => exact absurd rfl apart
    | recv =>
      have most := Bool.toNat_le ((s.clients id).pending .recv)
      rw [Mailbox.supply, Mailbox.supply, popped]
      change s.mailbox.ring.len - 1 + _ ≤ _
      omega

/-- A failed attempt uses up a notification for nothing, since nothing is there. -/
theorem Wakeups.refused (inside : id ∈ s.threads)
    (pc : (s.clients id).pc = .attempt call request cause)
    (waits : s.mailbox.shouldWait request.kind = true) : Wakeups (s.refused id call request) := by
  have before : (s.clients id).pc.waiting? = none := by
    rw [pc]
    rfl
  have carried : ∀ kind, (s.clients id).pending kind = true → s.mailbox.supply kind = 0 := by
    intro kind pending
    rw [Client.pending, pc, Bool.and_eq_true, decide_eq_true_eq] at pending
    exact pending.1 ▸ supply_of_shouldWait waits
  cases request <;>
    exact h.go rfl rfl inside before rfl rfl (fun _ => List.Subset.refl _)
      nofun (fun kind pending => .inr (carried kind pending))

/-- A woken client leaves its queue. -/
theorem Wakeups.removed {request : Request T} {cause : WaitCause} (inside : id ∈ s.threads)
    (pc : (s.clients id).pc = .removing call request token cause) :
    Wakeups (s.remove id call request token cause) := by
  have before : (s.clients id).pc.waiting? = none := by
    rw [pc]
    rfl
  have pending : ∀ kind, (s.clients id).pending kind =
      (decide (request.kind = kind) && decide (cause = .notified)) := by
    intro kind
    rw [Client.pending, pc]
  unfold remove
  dsimp only
  split
  · next late =>
    refine h.go rfl rfl inside before rfl (ring_removeWaiter _ _) (waiters_removeWaiter _ _ _)
      nofun (fun kind notified => ?_)
    rw [pending, late.2, Bool.and_eq_true] at notified
    cases notified.2
  · refine h.go rfl rfl inside before rfl (ring_removeWaiter _ _) (waiters_removeWaiter _ _ _)
      nofun (fun kind notified => .inl ?_)
    rw [pending] at notified
    simpa [Client.pending] using notified

/-- Every step of a client keeps what is needed on its way. -/
theorem Wakeups.advanced (ring : s.mailbox.ring.WellFormed) (step : Advanced s id t) :
    Wakeups t := by
  have inside : ∀ {pc}, (s.clients id).pc = pc → pc ≠ .idle → id ∈ s.threads := by
    rintro _ rfl busy
    exact h.tokens.inside busy
  have quiet : ∀ {pc}, (s.clients id).pc = pc → pc.waiting? = none →
      (s.clients id).pc.waiting? = none := by
    rintro _ rfl idle
    exact idle
  have unpending : ∀ {pc}, (s.clients id).pc = pc →
      (∀ kind, ({ s.clients id with pc := pc } : Client T).pending kind = false) →
        ∀ kind, (s.clients id).pending kind ≠ true := by
    rintro _ rfl absent kind pending
    cases (absent kind).symm.trans pending
  cases step with
  | sent pc holds room claim =>
    exact h.sent ring (inside pc nofun) pc holds room claim _
  | received pc holds stored front claim =>
    exact h.received (inside pc nofun) pc holds stored claim _
  | refused pc waits => exact h.refused (inside pc nofun) pc waits
  | cancelled pc =>
    refine h.go rfl rfl (inside pc nofun) (quiet pc rfl) rfl rfl (fun _ => List.Subset.refl _)
      (fun kind token claimed => .inr ⟨id, ?_⟩) (fun kind pending => .inl ?_)
    · rw [pc]
      exact claimed
    · rw [Client.pending, pc] at pending
      exact pending
  | won pc wins => exact h.won pc wins
  | lost pc loses =>
    rw [completeWait_lost loses]
    refine h.go rfl rfl (inside pc nofun) (quiet pc rfl) rfl rfl (fun _ => List.Subset.refl _)
      nofun (fun kind pending => .inl ?_)
    rw [Client.pending, pc] at pending
    exact pending
  | @reclaimed call side answer waiter mailbox pc claim =>
    have pending : ∀ kind, (s.clients id).pending kind = decide (side = kind) := by
      intro kind
      rw [Client.pending, pc]
    have same := ring_claimWaiter claim
    have supply : ∀ kind, mailbox.supply kind = s.mailbox.supply kind := by
      intro kind
      cases kind <;> simp only [Mailbox.supply, same]
    refine h.claim call answer rfl rfl (inside pc nofun) (quiet pc rfl) (fun _ => rfl) claim ?_ ?_
    · rw [pending, decide_eq_true rfl, supply]
      exact le_rfl
    · intro kind apart
      rw [pending, decide_eq_false (Ne.symm apart), supply]
      exact le_rfl
  | late pc due | early pc | available pc =>
    exact h.go rfl rfl (inside pc nofun) (quiet pc rfl) rfl rfl (fun _ => List.Subset.refl _)
      nofun
      (fun kind pending => absurd pending (unpending pc (fun _ => rfl) kind))
  | registered pc waits queued armed =>
    exact h.registered (inside pc nofun) pc (supply_of_shouldWait waits) queued rfl rfl
  | slept pc active named phase => exact h.slept (inside pc nofun) pc active phase
  | completed pc active named phase | resumed pc active named phase =>
    exact h.consumed _ (inside pc nofun) (by rw [pc]; rfl) active phase
  | removed pc => exact h.removed (inside pc nofun) pc

theorem Wakeups.move (ring : s.mailbox.ring.WellFormed) {label : PostMove T}
    (taken : s.move label = .ok (some t)) : Wakeups t := by
  cases label with
  | call id request =>
    simp only [Post.move] at taken
    split at taken
    · next pc =>
      split at taken
      · next inside =>
        cases taken
        refine h.go rfl rfl inside (by rw [pc]; rfl) rfl rfl (fun _ => List.Subset.refl _)
          (by rintro _ _ ⟨⟩) (fun kind pending => ?_)
        rw [Client.pending, pc] at pending
        cases pending
      · cases taken
    · cases taken
  | advance id => exact h.advanced ring (.of_advance taken)
  | expire token =>
    simp only [Post.move, expire] at taken
    split at taken
    · cases taken
      exact h.congr rfl rfl rfl
    · cases taken
  | fire token =>
    simp only [Post.move, fire] at taken
    split at taken
    · cases taken
      have same : Wakeups { s with expired := s.expired.erase token } := h.congr rfl rfl rfl
      exact same.timeout token
    · cases taken
  | tick =>
    cases taken
    exact h.congr rfl rfl rfl

end

theorem Wakeups.of_initial (start : Initial s) : Wakeups s := by
  obtain ⟨capacity, waiterCapacity, made⟩ := start.mailbox
  have empty : ∀ kind, (s.mailbox.waiters kind).items = [] := by
    unfold Mailbox.withCapacity at made
    split at made
    · cases made
    · rw [← Except.ok.inj made]
      intro kind
      cases kind <;> rfl
  refine ⟨⟨fun id _ => (start.idle id).1, fun id active registered => ?_, ?_⟩, ?_⟩
  · cases (start.idle id).2.symm.trans registered
  · rintro kind token (queued | ⟨id, claimed⟩)
    · rw [empty] at queued
      cases queued
    · rw [(start.idle id).1] at claimed
      cases claimed
  · rintro kind ⟨token, queued, _⟩
    rw [empty] at queued
    cases queued

/-! ### Whole runs -/

/-- While a receiver waits, every stored message has a notification on its way to
some receiver; while a sender waits, every free slot has one. -/
theorem wakeups_covered (reached : (machine T).Reachable s) :
    (s.Waiting .recv → s.mailbox.ring.len ≤ s.pending .recv) ∧
      (s.Waiting .send → s.mailbox.ring.capacity - s.mailbox.ring.len ≤ s.pending .send) := by
  have wakeups : Wakeups s := reached.invariant (fun _ => .of_initial)
    fun _ _ _ before h taken => h.move (Fifo.of_reachable before).ring taken
  exact ⟨wakeups.covered .recv, wakeups.covered .send⟩

/-- Two receivers sleep, and a sender works on the token of the first one. -/
theorem wakeups_covered_claimed : ∃ s : Post Nat, (machine Nat).Reachable s ∧ s.Waiting .recv ∧
    s.mailbox.ring.len = 1 ∧ 1 ≤ s.pending .recv := by
  obtain ⟨s, reached, shown⟩ := exists_played {⟨1, 1⟩, ⟨2, 1⟩, ⟨3, 1⟩}
    (show Mailbox.withCapacity Nat 2 4 = .ok _ from rfl)
    [.call ⟨1, 1⟩ .recv, .advance ⟨1, 1⟩, .advance ⟨1, 1⟩, .advance ⟨1, 1⟩,
      .call ⟨2, 1⟩ .recv, .advance ⟨2, 1⟩, .advance ⟨2, 1⟩, .advance ⟨2, 1⟩,
      .call ⟨3, 1⟩ (.send 5), .advance ⟨3, 1⟩]
    (fun s => decide (s.mailbox.ring.len = 1) &&
      decide (s.mailbox.recvWaiters.items = [⟨⟨2, 1⟩, 0, 1⟩]) &&
      decide ((s.clients ⟨2, 1⟩).wait.token? = some ⟨⟨2, 1⟩, 0, 1⟩) &&
      !(s.clients ⟨2, 1⟩).wait.isCompleted)
    (by decide +kernel)
  simp only [Bool.and_eq_true, decide_eq_true_eq, Bool.not_eq_true'] at shown
  obtain ⟨⟨⟨length, queue⟩, token⟩, open'⟩ := shown
  have waiting : s.Waiting .recv := by
    refine ⟨⟨⟨2, 1⟩, 0, 1⟩, ?_, token, open'⟩
    rw [Mailbox.waiters, queue]
    exact .head _
  exact ⟨s, reached, waiting, length, length ▸ (wakeups_covered reached).1 waiting⟩

end Post

end Genrt
