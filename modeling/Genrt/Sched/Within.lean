import Genrt.Sched.Storage

/-!
# What a critical section leaves alone

A section executed by one processor changes that processor's scheduling state
and clock only. Waits of other processors' running threads can at most be
completed by it, and a registration that a deadline may still end survives
unless the section completes or cancels that very token.

`Within` collects these facts as a relation between the states before and after,
closed under composition, so that invariants that span several processors are
carried over from it instead of from the code.
-/

namespace Genrt

open Kernel Function

variable {w : ActiveWait} {token : WaitToken}

namespace Kernel

variable (k : Kernel)

/-- The registration with this token. -/
def registration (token : WaitToken) : Option ActiveWait :=
  ((k.find token.thread).bind fun t => t.wait.active).filter fun w => w.token = token

/-- The registration is neither completed nor owned by a join. -/
def Pending (token : WaitToken) : Prop :=
  (∃ w, k.registration token = some w ∧ ∀ cause, w.phase ≠ .completed cause) ∧
    ∀ id, k.joinerOf id ≠ some token

/-- The events queued on a processor. -/
def events (c : CpuId) : List TimedEvent :=
  match k.clocks.states c with
  | none => []
  | some state => state.queue.events

/-- No thread of the processor is between preparing and committing a wait. -/
def Unprepared (c : CpuId) : Prop :=
  ∀ token w, token.cpu = c → k.registration token = some w → w.phase ≠ .prepared

theorem registration_eq_some {k : Kernel} :
    k.registration token = some w ↔
      ∃ t, k.find token.thread = some t ∧ t.wait.active = some w ∧ w.token = token := by
  simp only [registration, Option.filter_eq_some_iff, Option.bind_eq_some_iff, decide_eq_true_eq]
  constructor
  · rintro ⟨⟨t, found, active⟩, named⟩
    exact ⟨t, found, active, named⟩
  · rintro ⟨t, found, active, named⟩
    exact ⟨⟨t, found, active⟩, named⟩

end Kernel

variable {k k' : Kernel}

/-- Registrations and joiners are part of the scheduler. -/
theorem Kernel.registration_congr (same : k'.scheduler = k.scheduler) :
    k'.registration = k.registration := by
  cases k
  cases k'
  cases same
  rfl

theorem Kernel.joinerOf_congr (same : k'.scheduler = k.scheduler) : k'.joinerOf = k.joinerOf := by
  cases k
  cases k'
  cases same
  rfl

theorem Kernel.events_of_some {c : CpuId} {state : TimeState}
    (present : k.clocks.states c = some state) : k.events c = state.queue.events := by
  rw [events, present]

theorem Kernel.events_congr (clocks : k'.clocks = k.clocks) : k'.events = k.events := by
  funext c
  rw [events, clocks, events]

theorem Kernel.Pending.congr (h : k.Pending token) (same : k'.scheduler = k.scheduler) :
    k'.Pending token := by
  rw [Pending, registration_congr same, joinerOf_congr same]
  exact h

/-- What a section of processor `c` may change outside the waits. -/
structure Frame (c : CpuId) (k k' : Kernel) : Prop where
  others : ∀ d, d ≠ c → k'.cpu d = k.cpu d
  clocks : ∀ d, d ≠ c → k'.clocks.states d = k.clocks.states d
  buffers : ∀ d, (k'.clocks.states d).map TimeState.expired =
    (k.clocks.states d).map TimeState.expired
  online : (k'.cpu c).online = (k.cpu c).online
  sent : ∀ d, k.ipisSent d ≤ k'.ipisSent d
  notified : ∀ d, k'.scheduler.schedulerIpiPending d = true →
    k.scheduler.schedulerIpiPending d = true ∨ k.ipisSent d < k'.ipisSent d

/-- The net effect of a section of processor `c` that ends at most the waits in
`touched`. -/
structure Within (c : CpuId) (touched : WaitToken → Prop) (k k' : Kernel) : Prop
    extends Frame c k k' where
  pending : ∀ token, ¬touched token → k.Pending token → k'.Pending token
  owned : ∀ id token, k'.joinerOf id = some token → k.joinerOf id = some token ∨ token.cpu = c
  held : ∀ token w, token.cpu ≠ c → k.registration token = some w → w.phase ≠ .blocked →
    ∃ w', k'.registration token = some w' ∧ w'.consumption = w.consumption ∧ w'.phase ≠ .blocked
  foreign : ∀ token w, token.cpu ≠ c → k'.registration token = some w → w.phase = .prepared →
    k.registration token = some w

/-- The section prepares no wait that it does not also commit. -/
structure Closed (c : CpuId) (touched : WaitToken → Prop) (k k' : Kernel) : Prop
    extends Within c touched k k' where
  settled : ∀ token w, k'.registration token = some w → w.phase = .prepared →
    k.registration token = some w

/-- It queues no wait deadline and registers no joiner either. -/
structure Quiet (c : CpuId) (touched : WaitToken → Prop) (k k' : Kernel) : Prop
    extends Closed c touched k k' where
  timed : ∀ owner token, .waitDeadline owner token ∈ k'.events c →
    .waitDeadline owner token ∈ k.events c
  joined : ∀ id token, k'.joinerOf id = some token → k.joinerOf id = some token

/-- A section that ends no wait which another section may still rely on. -/
abbrev Calm (c : CpuId) : Kernel → Kernel → Prop := Quiet c fun _ => False

namespace Frame

variable {c : CpuId} {k k' k'' : Kernel}

theorem trans (first : Frame c k k') (second : Frame c k' k'') : Frame c k k'' where
  others d apart := (second.others d apart).trans (first.others d apart)
  clocks d apart := (second.clocks d apart).trans (first.clocks d apart)
  buffers d := (second.buffers d).trans (first.buffers d)
  online := second.online.trans first.online
  sent d := (first.sent d).trans (second.sent d)
  notified d pending := by
    rcases second.notified d pending with before | sent
    · rcases first.notified d before with before | sent
      · exact Or.inl before
      · exact Or.inr (Nat.lt_of_lt_of_le sent (second.sent d))
    · exact Or.inr (Nat.lt_of_le_of_lt (first.sent d) sent)

/-- Nothing but the scheduler's queues, flags and threads changed. -/
theorem of_scheduler (others : ∀ d, d ≠ c → k'.cpu d = k.cpu d)
    (online : (k'.cpu c).online = (k.cpu c).online) (clocks : k'.clocks = k.clocks)
    (sent : k'.ipisSent = k.ipisSent) (pending : ∀ d, k'.scheduler.schedulerIpiPending d = true →
      k.scheduler.schedulerIpiPending d = true) : Frame c k k' where
  others := others
  clocks d _ := by rw [clocks]
  buffers d := by rw [clocks]
  online := online
  sent d := by rw [sent]
  notified d raised := Or.inl (pending d raised)

theorem refl (k : Kernel) : Frame c k k :=
  .of_scheduler (fun _ _ => rfl) rfl rfl rfl fun _ same => same

end Frame

namespace Within

variable {c : CpuId} {touched touched' : WaitToken → Prop} {k k' k'' : Kernel}

theorem trans (first : Within c touched k k') (second : Within c touched k' k'') :
    Within c touched k k'' where
  toFrame := first.toFrame.trans second.toFrame
  pending token untouched pending :=
    second.pending token untouched (first.pending token untouched pending)
  owned id token joined := (second.owned id token joined).elim (first.owned id token) Or.inr
  held token w apart active phase := by
    obtain ⟨w', active', consumption, phase'⟩ := first.held token w apart active phase
    obtain ⟨w'', active'', consumption', phase''⟩ := second.held token w' apart active' phase'
    exact ⟨w'', active'', consumption'.trans consumption, phase''⟩
  foreign token w apart active phase :=
    first.foreign token w apart (second.foreign token w apart active phase) phase

theorem mono (h : Within c touched k k') (imp : ∀ token, touched token → touched' token) :
    Within c touched' k k' :=
  { h with pending := fun token untouched => h.pending token fun t => untouched (imp token t) }

end Within

namespace Closed

variable {c : CpuId} {touched : WaitToken → Prop} {k k' k'' : Kernel}

theorem trans (first : Closed c touched k k') (second : Closed c touched k' k'') :
    Closed c touched k k'' where
  toWithin := first.toWithin.trans second.toWithin
  settled token w active phase :=
    first.settled token w (second.settled token w active phase) phase

theorem unprepared (h : Closed c touched k k') {d : CpuId} (before : k.Unprepared d) :
    k'.Unprepared d := by
  intro token w home active phase
  exact before token w home (h.settled token w active phase) phase

/-- Waits that no deadline could end any more need no mention. -/
theorem drop (h : Closed c touched k k') (settled : ∀ token, touched token → ¬k.Pending token) :
    Closed c (fun _ => False) k k' :=
  { h with pending := fun token _ pending =>
      h.pending token (fun ended => settled token ended pending) pending }

end Closed

namespace Quiet

variable {c : CpuId} {touched touched' : WaitToken → Prop} {k k' k'' : Kernel}

theorem trans (first : Quiet c touched k k') (second : Quiet c touched k' k'') :
    Quiet c touched k k'' where
  toClosed := first.toClosed.trans second.toClosed
  timed owner token queued := first.timed owner token (second.timed owner token queued)
  joined id token waiting := first.joined id token (second.joined id token waiting)

theorem mono (h : Quiet c touched k k') (imp : ∀ token, touched token → touched' token) :
    Quiet c touched' k k' :=
  { h with toWithin := h.toWithin.mono imp }

/-- A section that ends no wait. -/
theorem lift (h : Calm c k k') : Quiet c touched k k' :=
  h.mono fun _ no => no.elim

/-- All registrations are the same. -/
theorem of_registration (frame : Frame c k k') (timed : ∀ owner token,
      .waitDeadline owner token ∈ k'.events c → .waitDeadline owner token ∈ k.events c)
    (same : k'.registration = k.registration)
    (joiner : ∀ id token, k'.joinerOf id = some token → k.joinerOf id = some token) :
    Quiet c touched k k' where
  toFrame := frame
  timed := timed
  joined := joiner
  pending token _ := by
    rintro ⟨active, unowned⟩
    refine ⟨?_, fun id owned => unowned id (joiner id token owned)⟩
    rwa [same]
  owned id token joined := Or.inl (joiner id token joined)
  held token w _ active phase := ⟨w, same ▸ active, rfl, phase⟩
  foreign token w _ active _ := same ▸ active
  settled token w active _ := same ▸ active

/-- Nothing but the scheduler's queues, flags and threads changed. -/
theorem of_scheduler (others : ∀ d, d ≠ c → k'.cpu d = k.cpu d)
    (online : (k'.cpu c).online = (k.cpu c).online) (clocks : k'.clocks = k.clocks)
    (sent : k'.ipisSent = k.ipisSent) (pending : ∀ d, k'.scheduler.schedulerIpiPending d = true →
      k.scheduler.schedulerIpiPending d = true) (same : k'.registration = k.registration)
    (joiner : ∀ id token, k'.joinerOf id = some token → k.joinerOf id = some token) :
    Quiet c touched k k' :=
  of_registration (.of_scheduler others online clocks sent pending)
    (fun _ _ queued => events_congr clocks ▸ queued) same joiner

theorem refl (k : Kernel) : Quiet c touched k k :=
  of_scheduler (fun _ _ => rfl) rfl rfl rfl (fun _ same => same) rfl fun _ _ same => same

end Quiet

/-! ### Registrations after an update -/

section Registrations

variable {c : CpuId} {k k' : Kernel} {id : ThreadId} {t t' : Thread}

variable {token : WaitToken} {state : CpuSchedulerState}

section

variable (finds : k'.find = update k.find id (some t'))

include finds

theorem registration_other (apart : token.thread ≠ id) :
    k'.registration token = k.registration token := by
  rw [registration, finds, update_of_ne apart, registration]

theorem registration_update (found : k.find id = some t) (active : t'.wait.active = t.wait.active) :
    k'.registration = k.registration := by
  funext token
  by_cases same : token.thread = id
  · rw [registration, finds, same, update_self, Option.bind_some, active,
      registration, same, found, Option.bind_some]
  · exact registration_other finds same

theorem registration_occupy (absent : k.find id = none) (active : t'.wait.active = none) :
    k'.registration = k.registration := by
  funext token
  by_cases same : token.thread = id
  · rw [registration, finds, same, update_self, Option.bind_some, active,
      registration, same, absent, Option.bind_none]
  · exact registration_other finds same

end

theorem registration_vacate (finds : k'.find = update k.find id none) (found : k.find id = some t)
    (active : t.wait.active = none) : k'.registration = k.registration := by
  funext token
  by_cases same : token.thread = id
  · rw [registration, finds, same, update_self, Option.bind_none,
      registration, same, found, Option.bind_some, active]
  · rw [registration, finds, update_of_ne same, registration]

/-- Registrations of a changed thread are its waits with that token. -/
theorem registration_self (finds : k'.find = update k.find id (some t')) (own : token.thread = id) :
    k'.registration token = some w ↔ t'.wait.active = some w ∧ w.token = token := by
  subst own
  rw [registration_eq_some, finds, update_self]
  simp

theorem registration_found (found : k.find id = some t) (own : token.thread = id) :
    k.registration token = some w ↔ t.wait.active = some w ∧ w.token = token := by
  subst own
  rw [registration_eq_some, found]
  simp

/-- A registration outside the blocked phase outlives a change of one wait. -/
theorem held_of_wait (finds : k'.find = update k.find id (some t'))
    (found : k.find id = some t) (concerns : WaitToken → Prop)
    (held : ∀ w, concerns w.token → t.wait.active = some w → w.phase ≠ .blocked →
      ∃ w', t'.wait.active = some w' ∧ w'.token = w.token ∧ w'.consumption = w.consumption ∧
        w'.phase ≠ .blocked) :
    ∀ token w, concerns token → k.registration token = some w → w.phase ≠ .blocked →
      ∃ w', k'.registration token = some w' ∧ w'.consumption = w.consumption ∧
        w'.phase ≠ .blocked := by
  intro token w concerned active phase
  by_cases same : token.thread = id
  · obtain ⟨stored, rfl⟩ := (registration_found found same).mp active
    obtain ⟨w', active', named, consumption, phase'⟩ := held w concerned stored phase
    exact ⟨w', (registration_self finds same).mpr ⟨active', named⟩, consumption, phase'⟩
  · exact ⟨w, by rwa [registration_other finds same], rfl, phase⟩

/-- The wait of one thread changed. -/
theorem Quiet.of_wait {touched : WaitToken → Prop} (frame : Frame c k k')
    (clocks : k'.clocks = k.clocks) (finds : k'.find = update k.find id (some t'))
    (found : k.find id = some t)
    (joiner : t'.joiner = t.joiner) (kept : ∀ w, t.wait.active = some w → ¬touched w.token →
      (∀ cause, w.phase ≠ .completed cause) → ∃ w', t'.wait.active = some w' ∧
        w'.token = w.token ∧ ∀ cause, w'.phase ≠ .completed cause)
    (held : ∀ w, w.token.cpu ≠ c → t.wait.active = some w → w.phase ≠ .blocked →
      ∃ w', t'.wait.active = some w' ∧ w'.token = w.token ∧ w'.consumption = w.consumption ∧
        w'.phase ≠ .blocked)
    (settled : ∀ w, t'.wait.active = some w → w.phase = .prepared → t.wait.active = some w) :
    Quiet c touched k k' := by
  have joiners := joinerOf_update finds found joiner
  have prepared : ∀ token w, k'.registration token = some w → w.phase = .prepared →
      k.registration token = some w := by
    intro token w active phase
    by_cases same : token.thread = id
    · obtain ⟨active, named⟩ := (registration_self finds same).mp active
      exact (registration_found found same).mpr ⟨settled w active phase, named⟩
    · rwa [← registration_other finds same]
  refine ⟨⟨⟨frame, ?_, fun _ _ joined => Or.inl (joiners ▸ joined),
    held_of_wait finds found (·.cpu ≠ c) held, fun token w _ => prepared token w⟩, prepared⟩,
    fun _ _ queued => events_congr clocks ▸ queued, fun _ _ joined => joiners ▸ joined⟩
  rintro token untouched ⟨⟨w, active, open_⟩, unowned⟩
  refine ⟨?_, joiners ▸ unowned⟩
  by_cases same : token.thread = id
  · obtain ⟨stored, rfl⟩ := (registration_found found same).mp active
    obtain ⟨w', active', named, open'⟩ := kept w stored untouched open_
    exact ⟨w', (registration_self finds same).mpr ⟨active', named⟩, open'⟩
  · exact ⟨w, by rwa [registration_other finds same], open_⟩

variable {touched : WaitToken → Prop}

variable {f : Thread → Thread}

theorem Frame.modifyThread {index : Nat} : Frame c k (k.modifyThread index f) :=
  .of_scheduler (fun _ _ => rfl) rfl rfl rfl fun _ same => same

/-- A thread changed, but not its wait or joiner. -/
theorem Quiet.modifyThread (found : k.find id = some t) (active : (f t).wait.active = t.wait.active)
    (joiner : (f t).joiner = t.joiner) : Quiet c touched k (k.modifyThread id.index f) := by
  have finds := find_modifyThread_eq (f := f) found
  have joiners := joinerOf_update finds found joiner
  exact .of_scheduler (fun _ _ => rfl) rfl rfl rfl (fun _ same => same)
    (registration_update finds found active) fun _ _ owned => joiners ▸ owned

theorem Frame.setCpu (online : state.online = (k.cpu c).online) : Frame c k (k.setCpu c state) :=
  .of_scheduler (fun _ apart => cpu_setCpu_of_ne apart)
    (by rw [cpu_setCpu_self, online]) rfl rfl fun _ same => same

theorem Quiet.setCpu (online : state.online = (k.cpu c).online) :
    Quiet c touched k (k.setCpu c state) :=
  .of_registration (.setCpu online) (fun _ _ queued => queued) rfl fun _ _ same => same

theorem Quiet.dispatched (found : k.find id = some t) (online : state.online = (k.cpu c).online) :
    Quiet c touched k (k.dispatched c id state) :=
  (Quiet.modifyThread found rfl rfl).trans (.setCpu online)

theorem Quiet.log {event : Event} : Quiet c touched k (k.log event) :=
  .of_scheduler (fun _ _ => rfl) rfl rfl rfl (fun _ same => same) rfl fun _ _ same => same

/-- Nothing changed that the invariants read. -/
structure Aside (k k' : Kernel) : Prop where
  scheduler : k'.scheduler = k.scheduler
  clocks : k'.clocks = k.clocks
  sent : k'.ipisSent = k.ipisSent

theorem Aside.trans {k'' : Kernel} (first : Aside k k') (second : Aside k' k'') : Aside k k'' :=
  ⟨second.scheduler.trans first.scheduler, second.clocks.trans first.clocks,
    second.sent.trans first.sent⟩

theorem Aside.cpu (h : Aside k k') : k'.cpu = k.cpu := by
  funext d
  rw [Kernel.cpu, h.scheduler, Kernel.cpu]

theorem Aside.find (h : Aside k k') : k'.find = k.find := by
  funext id
  rw [Kernel.find, h.scheduler, Kernel.find]

theorem Aside.quiet (h : Aside k k') : Quiet c touched k k' := by
  refine .of_scheduler (fun d _ => by rw [h.cpu]) (by rw [h.cpu]) h.clocks h.sent
    (fun d raised => ?_) (registration_congr h.scheduler) fun id token owned => ?_
  · rwa [h.scheduler] at raised
  · rwa [joinerOf_congr h.scheduler] at owned

end Registrations

end Genrt
