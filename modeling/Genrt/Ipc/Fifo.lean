import Genrt.Ipc.Advance

/-!
# A mailbox is a lossless bounded queue

The messages of the ring are what was accepted and not yet received. A call is
either still trying, with the message it was given and without a trace in the
mailbox, or it has what it will answer; failed calls never had an effect.
-/

namespace Genrt

variable {T : Type}

/-! ### The status of a call -/

/-- A call is trying, or knows its answer. -/
inductive Status (T : Type) where
  | idle
  | trying (call : Call T) (request : Request T)
  | answering (call : Call T) (answer : Answer T)

def Pc.status : Pc T → Status T
  | .idle => .idle
  | .attempt call request _ | .overdue call request | .entering call request
  | .committing call request _ | .blocked call request _ | .removing call request _ _ =>
    .trying call request
  | .claimed call _ _ answer | .notifying call _ _ answer | .reclaiming call _ answer =>
    .answering call answer

def Status.call? : Status T → Option (Call T)
  | .idle => none
  | .trying call _ | .answering call _ => some call

namespace Post

variable {s t : Post T} {id : ThreadId}

def status (s : Post T) (id : ThreadId) : Status T := (s.clients id).pc.status

/-- The call neither sent nor received anything. -/
def Untouched (s : Post T) (call : Call T) : Prop :=
  call.number ∉ s.accepted.map Prod.fst ∧ call.number ∉ s.received.map Prod.fst

/-- What an answer says about the mailbox. -/
def Answered (s : Post T) (call : Call T) : Answer T → Prop
  | .sent => ∃ msg, call.given.msg? = some msg ∧ (call.number, msg) ∈ s.accepted
  | .received msg => (call.number, msg) ∈ s.received
  | .full msg | .sendTimeout msg => call.given.msg? = some msg ∧ s.Untouched call
  | .empty | .recvTimeout => s.Untouched call

/-- The ring, the accepted and received messages and the answers agree. -/
structure Fifo (s : Post T) : Prop where
  ring : s.mailbox.ring.WellFormed
  balance : ∃ stored, s.mailbox.ring.contents = stored.map some ∧
    s.accepted.map Prod.snd = s.received.map Prod.snd ++ stored
  once : (s.accepted.map Prod.fst).Nodup ∧ (s.received.map Prod.fst).Nodup
  opened : ∀ id call, (s.status id).call? = some call → call.number < s.calls
  distinct : ∀ id id' call call', (s.status id).call? = some call →
    (s.status id').call? = some call' → call.number = call'.number → id = id'
  used : ∀ number, number ∈ s.accepted.map Prod.fst ∨ number ∈ s.received.map Prod.fst →
    number < s.calls
  closed : ∀ entry ∈ s.answers, entry.1.number < s.calls ∧
    ∀ id call, (s.status id).call? = some call → call.number ≠ entry.1.number
  trying : ∀ id call request, s.status id = .trying call request →
    request.msg? = call.given.msg? ∧ s.Untouched call
  answering : ∀ id call answer, s.status id = .answering call answer → s.Answered call answer
  answers : ∀ entry ∈ s.answers, s.Answered entry.1 entry.2

/-- Nothing that the invariant tells changes. -/
theorem Fifo.carry (h : Fifo s) (ring : t.mailbox.ring = s.mailbox.ring)
    (accepted : t.accepted = s.accepted) (received : t.received = s.received)
    (answers : t.answers = s.answers) (calls : t.calls = s.calls)
    (status : ∀ other, t.status other = s.status other) : Fifo t := by
  have untouched : ∀ call, t.Untouched call ↔ s.Untouched call := by
    intro call
    rw [Untouched, Untouched, accepted, received]
  have answered : ∀ call answer, s.Answered call answer → t.Answered call answer := by
    intro call answer known
    cases answer with
    | sent =>
      obtain ⟨msg, given, member⟩ := known
      exact ⟨msg, given, accepted ▸ member⟩
    | received msg =>
      have member : (call.number, msg) ∈ s.received := known
      rw [← received] at member
      exact member
    | full msg | sendTimeout msg => exact ⟨known.1, (untouched call).mpr known.2⟩
    | empty | recvTimeout => exact (untouched call).mpr known
  constructor
  · exact ring ▸ h.ring
  · rw [ring, accepted, received]
    exact h.balance
  · rw [accepted, received]
    exact h.once
  · simpa only [status, calls] using h.opened
  · simpa only [status] using h.distinct
  · simpa only [accepted, received, calls] using h.used
  · simpa only [answers, calls, status] using h.closed
  · intro other call request trying
    rw [status] at trying
    exact ⟨(h.trying other call request trying).1,
      (untouched call).mpr (h.trying other call request trying).2⟩
  · intro other call answer answering
    rw [status] at answering
    exact answered call answer (h.answering other call answer answering)
  · intro entry member
    rw [answers] at member
    exact answered _ _ (h.answers entry member)

theorem status_setClient (client : Client T) (other : ThreadId) :
    (s.setClient id client).status other =
      if other = id then client.pc.status else s.status other := by
  rw [status, setClient]
  dsimp only
  rw [Function.update_apply]
  split <;> rfl

theorem status_setPc (pc : Pc T) (other : ThreadId) :
    (s.setPc id pc).status other = if other = id then pc.status else s.status other :=
  status_setClient _ other

/-- A client goes on with the same status. -/
theorem status_same {client : Client T} (same : client.pc.status = s.status id) (other : ThreadId) :
    (s.setClient id client).status other = s.status other := by
  rw [status_setClient]
  split
  · next own => rw [own, same]
  · rfl

/-- The wait of a thread is no part of its status. -/
theorem status_completeWait (token : WaitToken) (cause : WaitCause) (other : ThreadId) :
    (s.completeWait token cause).2.status other = s.status other := by
  have same : ({ s.clients token.thread with
      wait := ((s.clients token.thread).wait.complete token cause).2 } : Client T).pc.status =
        s.status token.thread := rfl
  exact status_same same other

variable {call : Call T} {request : Request T} {pc : Pc T} {kind : MailboxWaitKind} {msg : T}
variable {mailbox m : Mailbox T}

/-- A call returns. -/
theorem Fifo.answer (h : Fifo s) {answer : Answer T} (called : (s.status id).call? = some call)
    (known : s.Answered call answer) : Fifo (s.answer id call answer) := by
  have status : ∀ other, (s.answer id call answer).status other =
      if other = id then .idle else s.status other := status_setPc .idle
  have older : ∀ other, other ≠ id → (s.answer id call answer).status other = s.status other := by
    intro other apart
    rw [status, if_neg apart]
  have calls : ∀ other opened, ((s.answer id call answer).status other).call? = some opened →
      other ≠ id ∧ (s.status other).call? = some opened := by
    intro other opened running
    by_cases own : other = id
    · rw [status, if_pos own] at running
      cases running
    · exact ⟨own, older other own ▸ running⟩
  constructor
  · exact h.ring
  · exact h.balance
  · exact h.once
  · exact fun other opened running => h.opened other opened (calls other opened running).2
  · exact fun other other' _ _ running running' same =>
      h.distinct other other' _ _ (calls other _ running).2 (calls other' _ running').2 same
  · exact h.used
  · intro entry member
    rcases List.mem_append.mp member with old | new
    · exact ⟨(h.closed entry old).1, fun other opened running =>
        (h.closed entry old).2 other opened (calls other opened running).2⟩
    · obtain rfl := List.mem_singleton.mp new
      refine ⟨h.opened id call called, fun other opened running same => ?_⟩
      obtain ⟨apart, before⟩ := calls other opened running
      exact apart (h.distinct other id opened call before called same)
  · intro other opened request trying
    rw [status] at trying
    split at trying
    · cases trying
    · exact h.trying other opened request trying
  · intro other opened last answering
    rw [status] at answering
    split at answering
    · cases answering
    · exact h.answering other opened last answering
  · intro entry member
    rcases List.mem_append.mp member with old | new
    · exact h.answers entry old
    · obtain rfl := List.mem_singleton.mp new
      exact known

/-- A trying call moves a message and knows its answer. -/
theorem Fifo.deliver (h : Fifo s) (answer : Answer T) (before : s.status id = .trying call request)
    (ring : t.mailbox.ring.WellFormed)
    (balance : ∃ stored, t.mailbox.ring.contents = stored.map some ∧
      t.accepted.map Prod.snd = t.received.map Prod.snd ++ stored)
    (once : (t.accepted.map Prod.fst).Nodup ∧ (t.received.map Prod.fst).Nodup)
    (accepted : ∀ entry, entry ∈ t.accepted → entry ∈ s.accepted ∨ entry.1 = call.number)
    (received : ∀ entry, entry ∈ t.received → entry ∈ s.received ∨ entry.1 = call.number)
    (more : s.accepted ⊆ t.accepted ∧ s.received ⊆ t.received) (answers : t.answers = s.answers)
    (calls : t.calls = s.calls) (status : ∀ other, t.status other =
      if other = id then .answering call answer else s.status other)
    (known : t.Answered call answer) : Fifo t := by
  have called : (s.status id).call? = some call := by
    rw [before]
    rfl
  have same : ∀ other, (t.status other).call? = (s.status other).call? := by
    intro other
    rw [status]
    split
    · next own =>
      rw [own, called]
      rfl
    · rfl
  have untouched : ∀ other : Call T, other.number ≠ call.number → s.Untouched other →
      t.Untouched other := by
    rintro other apart ⟨unsent, unreceived⟩
    constructor
    · intro member
      obtain ⟨entry, inside, named⟩ := List.mem_map.mp member
      rcases accepted entry inside with old | new
      · exact unsent (List.mem_map.mpr ⟨entry, old, named⟩)
      · exact apart (named.symm.trans new)
    · intro member
      obtain ⟨entry, inside, named⟩ := List.mem_map.mp member
      rcases received entry inside with old | new
      · exact unreceived (List.mem_map.mpr ⟨entry, old, named⟩)
      · exact apart (named.symm.trans new)
  have answered : ∀ (other : Call T) answer, other.number ≠ call.number → s.Answered other answer →
      t.Answered other answer := by
    intro other answer apart known
    cases answer with
    | sent =>
      obtain ⟨msg, given, member⟩ := known
      exact ⟨msg, given, more.1 member⟩
    | received msg => exact more.2 known
    | full msg | sendTimeout msg => exact ⟨known.1, untouched other apart known.2⟩
    | empty | recvTimeout => exact untouched other apart known
  have apart : ∀ other opened, other ≠ id → (s.status other).call? = some opened →
      opened.number ≠ call.number := fun other opened distinct running same =>
    distinct (h.distinct other id opened call running called same)
  constructor
  · exact ring
  · exact balance
  · exact once
  · intro other opened running
    rw [calls]
    exact h.opened other opened (same other ▸ running)
  · intro other other' _ _ running running'
    exact h.distinct other other' _ _ (same other ▸ running) (same other' ▸ running')
  · rintro number (member | member) <;> rw [calls]
    · obtain ⟨entry, inside, named⟩ := List.mem_map.mp member
      rcases accepted entry inside with old | new
      · exact h.used number (.inl (List.mem_map.mpr ⟨entry, old, named⟩))
      · rw [← named, new]
        exact h.opened id call called
    · obtain ⟨entry, inside, named⟩ := List.mem_map.mp member
      rcases received entry inside with old | new
      · exact h.used number (.inr (List.mem_map.mpr ⟨entry, old, named⟩))
      · rw [← named, new]
        exact h.opened id call called
  · intro entry member
    rw [answers] at member
    rw [calls]
    exact ⟨(h.closed entry member).1, fun other opened running =>
      (h.closed entry member).2 other opened (same other ▸ running)⟩
  · intro other opened last trying
    rw [status] at trying
    split at trying
    · cases trying
    · next distinct =>
      obtain ⟨held, unused⟩ := h.trying other opened last trying
      refine ⟨held, untouched opened (apart other opened distinct ?_) unused⟩
      rw [trying]
      rfl
  · intro other opened last answering
    rw [status] at answering
    split at answering
    · cases answering
      exact known
    · next distinct =>
      refine answered opened last (apart other opened distinct ?_)
        (h.answering other opened last answering)
      rw [answering]
      rfl
  · intro entry member
    rw [answers] at member
    exact answered entry.1 entry.2 ((h.closed entry member).2 id call called).symm
      (h.answers entry member)

theorem answer_setPc {answer : Answer T} :
    (s.setPc id pc).answer id call answer = s.answer id call answer := by
  simp [Post.answer, setPc, setClient, Function.update_idem]

/-- A call that knows its answer notifies the claimed waiter, or returns. -/
theorem Fifo.completeClaimed {answer : Answer T}
    (h : ∀ pc : Pc T, pc.status = .answering call answer → Fifo (s.setPc id pc))
    (waiter : Option WaitToken) : Fifo (s.completeClaimed id call kind answer waiter) := by
  cases waiter with
  | some token => exact h (.claimed call kind token answer) rfl
  | none =>
    have next := h (.reclaiming call kind answer) rfl
    have status : (s.setPc id (.reclaiming call kind answer)).status id =
        .answering call answer := by
      rw [status_setPc, if_pos rfl]
      rfl
    have called : ((s.setPc id (.reclaiming call kind answer)).status id).call? = some call := by
      rw [status]
      rfl
    have done := next.answer called (next.answering id call answer status)
    rwa [answer_setPc] at done

/-- A call is recorded once. -/
theorem nodup_record {log : List (Nat × T)} {number : Nat} (distinct : (log.map Prod.fst).Nodup)
    (fresh : number ∉ log.map Prod.fst) : ((log ++ [(number, msg)]).map Prod.fst).Nodup := by
  rw [List.map_append, List.map_singleton, ← List.concat_eq_append]
  exact distinct.concat fresh

theorem Fifo.sent (h : Fifo s) (before : s.status id = .trying call request)
    (holds : request.msg? = some msg) (room : s.mailbox.ring.isFull = false)
    (ring : mailbox.ring = s.mailbox.ring.push (some msg))
    (next : pc.status = .answering call .sent) :
    Fifo ({ s with mailbox := mailbox, accepted := s.accepted ++ [(call.number, msg)] }.setPc id
      pc) := by
  have space : s.mailbox.ring.len < s.mailbox.ring.capacity := by
    have bound := h.ring.fits
    have apart : s.mailbox.ring.len ≠ s.mailbox.ring.capacity := of_decide_eq_false room
    omega
  obtain ⟨stored, contents, balance⟩ := h.balance
  have unsent := (h.trying id call request before).2.1
  refine h.deliver .sent before ?_ ⟨stored ++ [msg], ?_, ?_⟩
    ⟨nodup_record h.once.1 unsent, h.once.2⟩ (fun entry member => ?_)
    (fun entry member => .inl member) ⟨List.subset_append_left _ _, List.Subset.refl _⟩ rfl rfl
    (fun other => ?_) ?_
  · exact ring ▸ h.ring.push space
  · change mailbox.ring.contents = _
    rw [ring, h.ring.contents_push (some msg) space, contents, List.map_append]
    rfl
  · change (s.accepted ++ [(call.number, msg)]).map Prod.snd = s.received.map Prod.snd ++ _
    rw [List.map_append, balance, List.append_assoc]
    rfl
  · rcases List.mem_append.mp member with old | new
    · exact .inl old
    · obtain rfl := List.mem_singleton.mp new
      exact .inr rfl
  · rw [status_setPc, next]
    rfl
  · exact ⟨msg, (h.trying id call request before).1 ▸ holds,
      List.mem_append_right _ (.head _)⟩

theorem Fifo.received (h : Fifo s) (before : s.status id = .trying call request)
    (stored : s.mailbox.ring.isEmpty = false) (front : s.mailbox.ring.front? = some (some msg))
    (ring : mailbox.ring = (s.mailbox.ring.blankFront none).pop)
    (next : pc.status = .answering call (.received msg)) :
    Fifo ({ s with mailbox := mailbox, received := s.received ++ [(call.number, msg)] }.setPc id
      pc) := by
  have length : 0 < s.mailbox.ring.len := Nat.pos_of_ne_zero (of_decide_eq_false stored)
  obtain ⟨messages, contents, balance⟩ := h.balance
  obtain ⟨item, first, split⟩ := h.ring.contents_pop length
  obtain rfl := Option.mem_unique front first
  cases messages with
  | nil => cases contents.symm.trans split
  | cons oldest rest =>
    rw [split, List.map_cons] at contents
    obtain ⟨named, popped⟩ := List.cons.inj contents
    obtain rfl := Option.some.inj named
    have unreceived := (h.trying id call request before).2.2
    refine h.deliver (.received msg) before ?_ ⟨rest, ?_, ?_⟩
      ⟨h.once.1, nodup_record h.once.2 unreceived⟩ (fun entry member => .inl member)
      (fun entry member => ?_) ⟨List.Subset.refl _, List.subset_append_left _ _⟩ rfl rfl
      (fun other => ?_) ?_
    · exact ring ▸ h.ring.blankFront.pop length
    · change mailbox.ring.contents = _
      rw [ring, h.ring.contents_pop_blankFront none length, popped]
    · change s.accepted.map Prod.snd = (s.received ++ [(call.number, msg)]).map Prod.snd ++ _
      rw [balance, List.map_append, List.append_assoc]
      rfl
    · rcases List.mem_append.mp member with old | new
      · exact .inl old
      · obtain rfl := List.mem_singleton.mp new
        exact .inr rfl
    · rw [status_setPc, next]
      rfl
    · exact List.mem_append_right _ (.head _)

/-- Claiming a waiter leaves the messages alone. -/
theorem ring_claimWaiter {waiter : Option WaitToken}
    (claim : m.claimWaiter kind = (waiter, mailbox)) : mailbox.ring = m.ring := by
  unfold Mailbox.claimWaiter at claim
  split at claim
  · cases claim
    rfl
  · cases claim
    cases kind <;> rfl

theorem ring_enqueueWaiter {token : WaitToken} (queued : m.enqueueWaiter kind token = .ok mailbox) :
    mailbox.ring = m.ring := by
  unfold Mailbox.enqueueWaiter at queued
  split at queued
  · cases queued
  · split at queued
    · cases queued
    · cases queued
      cases kind <;> rfl

theorem ring_removeWaiter (kind : MailboxWaitKind) (token : WaitToken) :
    (m.removeWaiter kind token).ring = m.ring := by
  cases kind <;> rfl

/-- A failed attempt. -/
theorem Fifo.refused (h : Fifo s) (before : s.status id = .trying call request) :
    Fifo (s.refused id call request) := by
  have called : (s.status id).call? = some call := by
    rw [before]
    rfl
  obtain ⟨held, untouched⟩ := h.trying id call request before
  cases request with
  | trySend msg => exact h.answer called ⟨held.symm, untouched⟩
  | tryRecv => exact h.answer called untouched
  | send msg | sendUntilCounter msg deadline | recv | recvUntilCounter deadline =>
    exact h.carry rfl rfl rfl rfl rfl (status_same before.symm)

/-- A call that gives up. -/
theorem Fifo.timeout (h : Fifo s) (before : s.status id = .trying call request) :
    Fifo (s.answer id call request.timeout) := by
  have called : (s.status id).call? = some call := by
    rw [before]
    rfl
  obtain ⟨held, untouched⟩ := h.trying id call request before
  cases request with
  | trySend msg | send msg | sendUntilCounter msg deadline =>
    exact h.answer called ⟨held.symm, untouched⟩
  | tryRecv | recv | recvUntilCounter deadline => exact h.answer called untouched

theorem Fifo.advanced (h : Fifo s) (step : Advanced s id t) : Fifo t := by
  have status : ∀ {pc}, (s.clients id).pc = pc → s.status id = pc.status := fun same =>
    congrArg Pc.status same
  cases step with
  | sent pc holds room claim =>
    refine Fifo.completeClaimed (fun next answering => ?_) _
    exact h.sent (status pc) holds room (ring_claimWaiter claim) answering
  | received pc holds stored front claim =>
    refine Fifo.completeClaimed (fun next answering => ?_) _
    exact h.received (status pc) stored front (ring_claimWaiter claim) answering
  | refused pc waits => exact h.refused (status pc)
  | cancelled pc => exact h.carry rfl rfl rfl rfl rfl (status_same (status pc).symm)
  | @won call kind token answer pc wins =>
    have woken : Fifo (s.completeWait token .notified).2 :=
      h.carry rfl rfl rfl rfl rfl (status_completeWait token .notified)
    have answering : (s.completeWait token .notified).2.status id = .answering call answer := by
      rw [status_completeWait, status pc]
      rfl
    refine woken.answer ?_ (woken.answering id call answer answering)
    rw [answering]
    rfl
  | @lost call kind token answer pc loses =>
    have woken : Fifo (s.completeWait token .notified).2 :=
      h.carry rfl rfl rfl rfl rfl (status_completeWait token .notified)
    refine woken.carry rfl rfl rfl rfl rfl (status_same ?_)
    rw [status_completeWait, status pc]
    rfl
  | reclaimed pc claim =>
    refine Fifo.completeClaimed (fun next answering => ?_) _
    exact h.carry (ring_claimWaiter claim) rfl rfl rfl rfl
      (status_same (answering.trans (status pc).symm))
  | late pc due => exact h.timeout (status pc)
  | early pc => exact h.carry rfl rfl rfl rfl rfl (status_same (status pc).symm)
  | available pc => exact h.carry rfl rfl rfl rfl rfl (status_same (status pc).symm)
  | registered pc waits queued armed =>
    exact h.carry (ring_enqueueWaiter queued) rfl rfl rfl rfl (status_same (status pc).symm)
  | slept pc active named phase | completed pc active named phase
  | resumed pc active named phase =>
    exact h.carry rfl rfl rfl rfl rfl (status_same (status pc).symm)
  | @removed call request token cause pc =>
    have cleared : Fifo { s with mailbox := s.mailbox.removeWaiter request.kind token } :=
      h.carry (ring_removeWaiter _ _) rfl rfl rfl rfl fun _ => rfl
    unfold remove
    split
    · exact cleared.timeout (status pc)
    · exact cleared.carry rfl rfl rfl rfl rfl (status_same (status pc).symm)

/-- A client makes a new call. -/
theorem Fifo.begin (h : Fifo s) (request : Request T) :
    Fifo ({ s with calls := s.calls + 1 }.setPc id (.attempt ⟨s.calls, request⟩ request none)) := by
  have status : ∀ other, ({ s with calls := s.calls + 1 }.setPc id
      (.attempt ⟨s.calls, request⟩ request none)).status other =
        if other = id then .trying ⟨s.calls, request⟩ request else s.status other :=
    status_setPc _
  have unused : s.Untouched ⟨s.calls, request⟩ :=
    ⟨fun member => Nat.lt_irrefl _ (h.used _ (.inl member)),
      fun member => Nat.lt_irrefl _ (h.used _ (.inr member))⟩
  have cases : ∀ other call, (({ s with calls := s.calls + 1 }.setPc id
      (.attempt ⟨s.calls, request⟩ request none)).status other).call? = some call →
        other = id ∧ call.number = s.calls ∨ (s.status other).call? = some call := by
    intro other call running
    rw [status] at running
    split at running
    · next own =>
      cases running
      exact .inl ⟨own, rfl⟩
    · exact .inr running
  constructor
  · exact h.ring
  · exact h.balance
  · exact h.once
  · intro other call running
    rcases cases other call running with ⟨_, new⟩ | old
    · rw [new]
      exact Nat.lt_succ_self _
    · exact Nat.lt_succ_of_lt (h.opened other call old)
  · intro other other' call call' running running' same
    rcases cases other call running with ⟨rfl, new⟩ | old
    · rcases cases other' call' running' with ⟨rfl, _⟩ | old'
      · rfl
      · exact absurd (h.opened other' call' old') (by omega)
    · rcases cases other' call' running' with ⟨rfl, new'⟩ | old'
      · exact absurd (h.opened other call old) (by omega)
      · exact h.distinct other other' call call' old old' same
  · exact fun number member => Nat.lt_succ_of_lt (h.used number member)
  · intro entry member
    obtain ⟨bound, closed⟩ := h.closed entry member
    refine ⟨Nat.lt_succ_of_lt bound, fun other call running => ?_⟩
    rcases cases other call running with ⟨_, new⟩ | old
    · omega
    · exact closed other call old
  · intro other call last trying
    rw [status] at trying
    split at trying
    · cases trying
      exact ⟨rfl, unused⟩
    · exact h.trying other call last trying
  · intro other call last answering
    rw [status] at answering
    split at answering
    · cases answering
    · exact h.answering other call last answering
  · exact h.answers

theorem Fifo.move (h : Fifo s) {label : PostMove T} (taken : s.move label = .ok (some t)) :
    Fifo t := by
  cases label with
  | call id request =>
    simp only [Post.move] at taken
    split at taken
    · split at taken
      · cases taken
        exact h.begin request
      · cases taken
    · cases taken
  | advance id => exact h.advanced (.of_advance taken)
  | expire token =>
    simp only [Post.move, expire] at taken
    split at taken
    · cases taken
      exact h.carry rfl rfl rfl rfl rfl fun _ => rfl
    · cases taken
  | fire token =>
    simp only [Post.move, fire] at taken
    split at taken
    · cases taken
      exact h.carry rfl rfl rfl rfl rfl (status_completeWait token .timeout)
    · cases taken
  | tick =>
    cases taken
    exact h.carry rfl rfl rfl rfl rfl fun _ => rfl

/-! ### Whole runs -/

theorem Fifo.of_initial (start : Initial s) : Fifo s := by
  have idle : ∀ id, s.status id = .idle := fun id => congrArg Pc.status (start.idle id).1
  obtain ⟨capacity, waiterCapacity, made⟩ := start.mailbox
  unfold Mailbox.withCapacity at made
  split at made
  · cases made
  · next positive =>
    have ring : s.mailbox.ring = .new capacity none := by
      rw [← Except.ok.inj made]
    constructor
    · rw [ring]
      exact RingBuffer.wellFormed_new (Nat.pos_of_ne_zero positive)
    · refine ⟨[], ?_, ?_⟩
      · rw [ring]
        exact RingBuffer.contents_new capacity none
      · rw [start.accepted, start.received]
        rfl
    · rw [start.accepted, start.received]
      exact ⟨.nil, .nil⟩
    · intro id call running
      rw [idle] at running
      cases running
    · intro id _ call _ running
      rw [idle] at running
      cases running
    · intro number member
      rw [start.accepted, start.received] at member
      rcases member with ⟨⟨⟩⟩ | ⟨⟨⟩⟩
    · intro entry member
      rw [start.answers] at member
      cases member
    · intro id call request trying
      rw [idle] at trying
      cases trying
    · intro id call answer answering
      rw [idle] at answering
      cases answering
    · intro entry member
      rw [start.answers] at member
      cases member

theorem Fifo.of_reachable (reached : (machine T).Reachable s) : Fifo s :=
  reached.invariant (fun _ => .of_initial) fun _ _ _ _ h taken => h.move taken

/-- An occupied slot holds its message. -/
theorem Fifo.tryRecv_ok (h : Fifo s) (panic : MailboxPanic) : s.mailbox.tryRecv ≠ .error panic := by
  intro failed
  unfold Mailbox.tryRecv at failed
  split at failed
  · cases failed
  · next stored =>
    have length : 0 < s.mailbox.ring.len := by
      refine Nat.pos_of_ne_zero fun zero => stored ?_
      exact decide_eq_true zero
    obtain ⟨messages, contents, _⟩ := h.balance
    obtain ⟨item, first, split⟩ := h.ring.contents_pop length
    rw [split] at contents
    cases messages with
    | nil => cases contents
    | cons oldest rest =>
      rw [(List.cons.inj contents).1] at first
      rw [first] at failed
      cases failed

theorem Fifo.advance_filled (h : Fifo s) (id : ThreadId) : s.advance id ≠ .error .slotEmpty := by
  intro failed
  unfold advance at failed
  split at failed
  · cases failed
  · next call request cause _ =>
    unfold attempt at failed
    split at failed
    · split at failed <;> cases failed
    · split at failed
      · next refused => exact h.tryRecv_ok _ refused
      · cases failed
      · cases failed
  · cases failed
  · dsimp only at failed
    split at failed <;> cases failed
  · cases failed
  · split at failed <;> cases failed
  · next call request _ =>
    unfold enter at failed
    split at failed
    · cases failed
    · dsimp only at failed
      split at failed
      · cases failed
      · split at failed
        · next full =>
          cases failed
          unfold Mailbox.enqueueWaiter at full
          split at full
          · cases full
          · split at full <;> cases full
        · cases failed
  · next call request prepared _ =>
    unfold commit at failed
    dsimp only at failed
    split at failed <;> cases failed
  · split at failed
    · next call request token _ _ =>
      unfold resume at failed
      dsimp only at failed
      split at failed <;> cases failed
    · cases failed
  · cases failed

/-- The accepted messages are the received ones followed by those of the ring, a
call sends or receives at most once, and a call that fails returns its message and
was never part of the queue. -/
theorem mailbox_lossless (reached : (machine T).Reachable s) :
    (∃ stored, s.accepted.map Prod.snd = s.received.map Prod.snd ++ stored ∧
      s.mailbox.ring.contents = stored.map some ∧ stored.length = s.mailbox.ring.len ∧
      s.mailbox.ring.len ≤ s.mailbox.ring.capacity) ∧
    (s.accepted.map Prod.fst).Nodup ∧ (s.received.map Prod.fst).Nodup ∧
    (∀ call, (call, .sent) ∈ s.answers →
      ∃ msg, call.given.msg? = some msg ∧ (call.number, msg) ∈ s.accepted) ∧
    (∀ call msg, (call, .received msg) ∈ s.answers → (call.number, msg) ∈ s.received) ∧
    (∀ call msg, (call, .full msg) ∈ s.answers ∨ (call, .sendTimeout msg) ∈ s.answers →
      call.given.msg? = some msg ∧ s.Untouched call) ∧
    (∀ call, (call, .empty) ∈ s.answers ∨ (call, .recvTimeout) ∈ s.answers → s.Untouched call) ∧
    ∀ label, s.move label ≠ .error .slotEmpty := by
  have h := Fifo.of_reachable reached
  obtain ⟨stored, contents, balance⟩ := h.balance
  have length : stored.length = s.mailbox.ring.len := by
    rw [← List.length_map some, ← contents, h.ring.length_contents]
  refine ⟨⟨stored, balance, contents, length, h.ring.fits⟩, h.once.1, h.once.2,
    fun call answered => h.answers _ answered, fun call msg answered => h.answers _ answered,
    ?_, ?_, ?_⟩
  · rintro call msg (answered | answered)
    · exact h.answers _ answered
    · exact h.answers _ answered
  · rintro call (answered | answered)
    · exact h.answers _ answered
    · exact h.answers _ answered
  · intro label failed
    cases label with
    | call id request =>
      simp only [move] at failed
      split at failed
      · split at failed <;> cases failed
      · cases failed
    | advance id => exact h.advance_filled id failed
    | expire token => cases failed
    | fire token => cases failed
    | tick => cases failed

/-- Two sends to a mailbox of one slot, and a receive: the second send comes back. -/
theorem mailbox_lossless_full : ∃ s : Post Nat, (machine Nat).Reachable s ∧
    s.received = [(2, 5)] ∧ s.answers = [(⟨0, .trySend 5⟩, .sent), (⟨1, .trySend 6⟩, .full 6),
      (⟨2, .tryRecv⟩, .received 5)] ∧ s.Untouched ⟨1, .trySend 6⟩ := by
  obtain ⟨s, reached, shown⟩ := exists_played {⟨1, 1⟩, ⟨2, 1⟩}
    (show Mailbox.withCapacity Nat 1 4 = .ok _ from rfl)
    [.call ⟨1, 1⟩ (.trySend 5), .advance ⟨1, 1⟩, .call ⟨1, 1⟩ (.trySend 6), .advance ⟨1, 1⟩,
      .call ⟨2, 1⟩ .tryRecv, .advance ⟨2, 1⟩]
    (fun s => decide (s.received = [(2, 5)]) && decide (s.answers =
      [(⟨0, .trySend 5⟩, .sent), (⟨1, .trySend 6⟩, .full 6), (⟨2, .tryRecv⟩, .received 5)]))
    (by decide +kernel)
  rw [Bool.and_eq_true, decide_eq_true_eq, decide_eq_true_eq] at shown
  have failed : (⟨1, .trySend 6⟩, .full 6) ∈ s.answers := by
    rw [shown.2]
    simp
  have lossless := mailbox_lossless reached
  exact ⟨s, reached, shown.1, shown.2, (lossless.2.2.2.2.2.1 _ 6 (.inl failed)).2⟩

end Post

end Genrt
