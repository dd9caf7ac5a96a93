import Genrt.Sched.Interrupt
import Genrt.System

/-!
# The invariant of the whole kernel

The scheduler invariant and the deadline queues hold in every state between
critical sections. What else is known of a processor depends on what it is in
the middle of: a wait registration is still held by its thread, a collected
batch is disjoint from the queue, and an update of the quantum event restores
its exactness. Published tokens belong to no join, and a completer that removed
the deadline of one will not find it queued again.

A step of one processor is judged on its own control state from the
specification of the section, and spares the control states of all others.
-/

namespace Genrt

open Effect Kernel Function

variable {k k' : Kernel} {c d : CpuId}

/-! ### Control states -/

/-- The wait that processor `c` is registering. -/
structure Registering (c : CpuId) (prepared : PreparedWait) (visible : Bool) (timing : WaitTiming)
    (k : Kernel) : Prop where
  current : (k.cpu c).current = some prepared.token.thread
  home : prepared.token.cpu = c
  explicit : prepared.consumption = .explicit
  wait : ∃ w, k.registration prepared.token = some w ∧ w.consumption = .explicit ∧
    w.phase ≠ .blocked
  hidden : visible = false → k.Pending prepared.token
  untimed : timing ≠ .scheduled → .waitDeadlineOf prepared.token ∉ k.events c
  only : ∀ token w, token.cpu = c → k.registration token = some w → w.phase = .prepared →
    token = prepared.token

/-- What is known of a processor, by its control state. -/
def ControlOk (k : Kernel) (c : CpuId) : Control → Prop
  | .running => k.BufferReady c ∧ QuantumExact k c ∧ k.Unprepared c
  | .waiting prepared visible timing =>
    k.BufferReady c ∧ QuantumExact k c ∧ Registering c prepared visible timing k
  | .dispatching _ expired => Batched c expired k ∧ QuantumSound k c ∧ k.Unprepared c
  | .rearming quantum expired =>
    expired.capacity = kernelThreadCapacity * timedEventCapacityPerThread ∧
      Restores c quantum k ∧ k.Unprepared c

/-- A step of another processor, as processor `d` sees it. Only waits in
`touched` may have ended. -/
structure Spares (d : CpuId) (touched : WaitToken → Prop) (k k' : Kernel) : Prop where
  cpu : k'.cpu d = k.cpu d
  buffer : (k'.clocks.states d).map TimeState.expired = (k.clocks.states d).map TimeState.expired
  events : ∀ event ∈ k'.events d, event ∈ k.events d
  quanta : ∀ id, .quantumExpired d id ∈ k.events d → .quantumExpired d id ∈ k'.events d
  pending : ∀ token, ¬touched token → k.Pending token → k'.Pending token
  owned : ∀ id token, token.cpu = d → k'.joinerOf id = some token → k.joinerOf id = some token
  held : ∀ token w, token.cpu = d → k.registration token = some w → w.phase ≠ .blocked →
    ∃ w', k'.registration token = some w' ∧ w'.consumption = w.consumption ∧ w'.phase ≠ .blocked
  foreign : ∀ token w, token.cpu = d → k'.registration token = some w → w.phase = .prepared →
    k.registration token = some w

/-- A buffer that nothing took is ready. -/
theorem Kernel.BufferReady.carry (before : k.BufferReady d)
    (buffer : (k'.clocks.states d).map TimeState.expired =
      (k.clocks.states d).map TimeState.expired) : k'.BufferReady d := by
  intro state present
  rw [present, Option.map_some] at buffer
  obtain ⟨old, present', same⟩ := Option.map_eq_some_iff.mp buffer.symm
  rw [← same]
  exact before old present'

theorem Kernel.events_of_states (same : k'.clocks.states d = k.clocks.states d) :
    k'.events d = k.events d := by
  rw [events, same, events]

variable {touched : WaitToken → Prop}

theorem Within.spares (h : Within c touched k k') (apart : d ≠ c) : Spares d touched k k' where
  cpu := h.others d apart
  buffer := h.buffers d
  events := by
    rw [events_of_states (h.clocks d apart)]
    exact fun _ member => member
  quanta := by
    rw [events_of_states (h.clocks d apart)]
    exact fun _ member => member
  pending := h.pending
  owned id token home joined :=
    (h.owned id token joined).resolve_right fun own => apart (home.symm.trans own)
  held token w home := h.held token w (home ▸ apart)
  foreign token w home := h.foreign token w (home ▸ apart)

/-- A change of clocks alone spares everyone whose queue and buffer it leaves. -/
theorem Spares.of_scheduler (same : k'.scheduler = k.scheduler)
    (buffer : (k'.clocks.states d).map TimeState.expired =
      (k.clocks.states d).map TimeState.expired)
    (events : ∀ event ∈ k'.events d, event ∈ k.events d)
    (quanta : ∀ id, .quantumExpired d id ∈ k.events d → .quantumExpired d id ∈ k'.events d) :
    Spares d touched k k' where
  cpu := by rw [Kernel.cpu, same, Kernel.cpu]
  buffer := buffer
  events := events
  quanta := quanta
  pending _ _ pending := pending.congr same
  owned id token _ joined := by rwa [joinerOf_congr same] at joined
  held token w _ active awake := ⟨w, by rwa [registration_congr same], rfl, awake⟩
  foreign token w _ active _ := by rwa [registration_congr same] at active

theorem Aside.spares (same : Aside k k') : Spares d touched k k' := by
  refine .of_scheduler same.scheduler (by rw [same.clocks]) ?_ ?_ <;>
    rw [events_congr same.clocks]
  · exact fun _ member => member
  · exact fun _ member => member

namespace Spares

variable {touched : WaitToken → Prop} (h : Spares d touched k k')
include h

theorem setCpu {state : CpuSchedulerState} (apart : d ≠ c) :
    Spares d touched k (k'.setCpu c state) :=
  { h with cpu := (cpu_setCpu_of_ne apart).trans h.cpu }

theorem ready : k'.ready d = k.ready d := by
  rw [Kernel.ready, h.cpu, Kernel.ready]

theorem quantum_iff (id : ThreadId) :
    .quantumExpired d id ∈ k'.events d ↔ .quantumExpired d id ∈ k.events d :=
  ⟨h.events _, h.quanta id⟩

theorem exact (before : QuantumExact k d) : QuantumExact k' d := by
  intro id
  rw [h.quantum_iff, before id, h.cpu, h.ready]

theorem sound (before : QuantumSound k d) : QuantumSound k' d := by
  intro id member
  rw [h.cpu, h.ready]
  exact before id (h.events _ member)

theorem unprepared (before : k.Unprepared d) : k'.Unprepared d := by
  intro token w home active phase
  exact before token w home (h.foreign token w home active phase) phase

theorem registering {prepared : PreparedWait} {visible : Bool} {timing : WaitTiming}
    (before : Registering d prepared visible timing k)
    (hidden : visible = false → ¬touched prepared.token) :
    Registering d prepared visible timing k' where
  current := by
    rw [h.cpu]
    exact before.current
  home := before.home
  explicit := before.explicit
  wait := by
    obtain ⟨w, active, consumption, awake⟩ := before.wait
    obtain ⟨w', active', same, awake'⟩ := h.held _ w before.home active awake
    exact ⟨w', active', same.trans consumption, awake'⟩
  hidden invisible := h.pending _ (hidden invisible) (before.hidden invisible)
  untimed unset member := before.untimed unset (h.events _ member)
  only token w home active phase :=
    before.only token w home (h.foreign token w home active phase) phase

theorem batched {expired : ExpiredEvents} (before : Batched d expired k) :
    Batched d expired k' where
  capacity := before.capacity
  wait owner token member := by
    obtain ⟨own, home, unjoined⟩ := before.wait owner token member
    exact ⟨own, home, fun id joined => unjoined id (h.owned id token home joined)⟩
  quantum := before.quantum
  gone event member queued := before.gone event member (h.events event queued)

theorem restores {quantum : QuantumUpdate} (before : Restores d quantum k) :
    Restores d quantum k' where
  obsolete := before.obsolete
  ensure := before.ensure
  exact id := by
    rw [h.cpu, h.ready, ← before.exact id, QuantumUpdate.Applied, QuantumUpdate.Applied,
      h.quantum_iff]

/-- The other processor's control state is as sound as before. -/
theorem control {control : Control} (before : ControlOk k d control)
    (hidden : ∀ prepared timing, control = .waiting prepared false timing →
      ¬touched prepared.token) :
    ControlOk k' d control := by
  cases control with
  | running => exact ⟨before.1.carry h.buffer, h.exact before.2.1, h.unprepared before.2.2⟩
  | waiting prepared visible timing =>
    refine ⟨before.1.carry h.buffer, h.exact before.2.1, h.registering before.2.2 ?_⟩
    rintro rfl
    exact hidden prepared timing rfl
  | dispatching now expired =>
    exact ⟨h.batched before.1, h.sound before.2.1, h.unprepared before.2.2⟩
  | rearming quantum expired =>
    exact ⟨before.1, h.restores before.2.1, h.unprepared before.2.2⟩

end Spares

/-! ### The invariant and what a section of one processor does to it -/

/-- What every completer may rely on: the token belongs to no join, and its owner
no longer hides it. -/
def System.Known (s : System) (token : WaitToken) : Prop :=
  (∀ id, s.kernel.joinerOf id ≠ some token) ∧
    ∀ c prepared timing, s.control c = .waiting prepared false timing → prepared.token ≠ token

/-- The invariant of the kernel between critical sections. -/
structure System.Sound (s : System) : Prop where
  coherent : Coherent s.kernel
  time : TimeOk s.kernel
  control : ∀ c, ControlOk s.kernel c (s.control c)
  notified : ∀ c, s.kernel.scheduler.schedulerIpiPending c = true →
    s.ipisHandled c < s.kernel.ipisSent c
  handled : ∀ c, s.ipisHandled c ≤ s.kernel.ipisSent c
  published : ∀ token ∈ s.published, s.Known token
  claimed : ∀ token ∈ s.claimed, token ∈ s.published ∧
    .waitDeadlineOf token ∉ s.kernel.events token.cpu

/-- A section gives published tokens no deadline and no target. -/
structure System.Leaves (s : System) (k' : Kernel) : Prop where
  timed : ∀ token ∈ s.published, .waitDeadlineOf token ∈ k'.events token.cpu →
    .waitDeadlineOf token ∈ s.kernel.events token.cpu
  joined : ∀ token ∈ s.published, ∀ id, k'.joinerOf id = some token →
    s.kernel.joinerOf id = some token

/-- Published tokens were prepared before. -/
def System.Issued (s : System) : Prop :=
  ∀ token ∈ s.published, ∀ t, s.kernel.find token.thread = some t →
    token.sequence ≤ t.wait.nextSequence

variable {s : System}

/-- A section that may block its thread gives nothing to published tokens. -/
theorem Waited.leaves (h : Waited c s.kernel k') (issued : s.Issued) : s.Leaves k' := by
  have old : ∀ token ∈ s.published, ¬s.kernel.Next c token := by
    rintro token member ⟨t, _, found, sequence⟩
    have := issued token member t found
    omega
  refine ⟨fun token member queued => ?_, fun token member id joined =>
    (h.joined id token joined).resolve_right (old token member)⟩
  by_cases own : token.cpu = c
  · rw [own] at queued ⊢
    exact (h.timed _ token queued).resolve_right (old token member)
  · rwa [events_of_states (h.closed.clocks _ own)] at queued

variable {queued : TimedEvent → Prop}

theorem Reclocked.leaves (h : Reclocked c queued s.kernel k') (timed : ∀ token ∈ s.published,
      queued (.waitDeadlineOf token) → .waitDeadlineOf token ∈ s.kernel.events c) :
    s.Leaves k' := by
  refine ⟨fun token member later => ?_, fun _ _ _ joined => joinerOf_congr h.scheduler ▸ joined⟩
  by_cases own : token.cpu = c
  · rw [own] at later ⊢
    exact timed token member ((h.events _).mp later)
  · rwa [events_of_states (h.others _ own)] at later

theorem Quiet.leaves (h : Quiet c touched s.kernel k') : s.Leaves k' := by
  refine ⟨fun token _ queued => ?_, fun token _ id => h.joined id token⟩
  by_cases own : token.cpu = c
  · rw [own] at queued ⊢
    exact h.timed _ token queued
  · rwa [events_of_states (h.clocks _ own)] at queued

/-- Processor `c` executed a section and is now in the given control state. -/
def System.after (s : System) (c : CpuId) (k : Kernel) (control : Control) : System :=
  { s with kernel := k, control := update s.control c control }

theorem System.after_same {control : Control} (same : s.control c = control) :
    s.after c k control = { s with kernel := k } := by
  rw [System.after, ← same, update_eq_self]

/-- The notifications of all processors are accounted for. -/
def System.Accounts (s : System) (k : Kernel) : Prop :=
  (∀ c, k.scheduler.schedulerIpiPending c = true → s.ipisHandled c < k.ipisSent c) ∧
    ∀ c, s.ipisHandled c ≤ k.ipisSent c

namespace System.Sound

variable {s : System} {touched : WaitToken → Prop} {control : Control}

section

variable (h : s.Sound)

include h

/-- The notifications that a section raised were sent by it. -/
theorem accounts (frame : Frame c s.kernel k') : s.Accounts k' := by
  have handled : ∀ d, s.ipisHandled d ≤ k'.ipisSent d := fun d => (h.handled d).trans (frame.sent d)
  refine ⟨fun d pending => ?_, handled⟩
  rcases frame.notified d pending with before | sent
  · exact Nat.lt_of_lt_of_le (h.notified d before) (frame.sent d)
  · exact Nat.lt_of_le_of_lt (h.handled d) sent

theorem accounts_same (scheduler : k'.scheduler = s.kernel.scheduler)
    (sent : k'.ipisSent = s.kernel.ipisSent) : s.Accounts k' := by
  rw [Accounts, scheduler, sent]
  exact ⟨h.notified, h.handled⟩

/-- A step spares all processors but one, whose control state is sound again. -/
theorem advance (spares : ∀ d, d ≠ c → Spares d touched s.kernel k') (coherent : Coherent k')
    (time : TimeOk k') (accounts : s.Accounts k') (leaves : s.Leaves k')
    (own : ControlOk k' c control)
    (unseen : ∀ prepared timing, control = .waiting prepared false timing →
      prepared.token ∉ s.published)
    (hidden : ∀ d prepared timing, d ≠ c → s.control d = .waiting prepared false timing →
      ¬touched prepared.token) : (s.after c k' control).Sound where
  coherent := coherent
  time := time
  control d := by
    change ControlOk k' d (update s.control c control d)
    by_cases same : d = c
    · subst same
      rw [update_self]
      exact own
    · rw [update_of_ne same]
      exact (spares d same).control (h.control d) fun prepared timing =>
        hidden d prepared timing same
  notified := accounts.1
  handled := accounts.2
  published token member := by
    obtain ⟨unjoined, visible⟩ := h.published token member
    refine ⟨fun id joined => unjoined id (leaves.joined token member id joined), ?_⟩
    rintro d prepared timing waiting rfl
    change update s.control c control d = _ at waiting
    by_cases same : d = c
    · rw [same, update_self] at waiting
      exact unseen prepared timing waiting member
    · rw [update_of_ne same] at waiting
      exact visible d prepared timing waiting rfl
  claimed token member := by
    obtain ⟨known, untimed⟩ := h.claimed token member
    exact ⟨known, fun queued => untimed (leaves.timed token known queued)⟩

/-- A section of processor `c` that ends no wait in the middle of its registration. -/
theorem critical (within : Within c (fun _ => False) s.kernel k') (coherent : Coherent k')
    (time : TimeOk k') (leaves : s.Leaves k') (own : ControlOk k' c control)
    (unseen : ∀ prepared timing, control = .waiting prepared false timing →
      prepared.token ∉ s.published) : (s.after c k' control).Sound :=
  h.advance (fun _ apart => within.spares apart) coherent time
    (h.accounts within.toFrame) leaves own unseen fun _ _ _ _ _ no => no

/-- What is known of a processor in a given control state. -/
theorem known (same : s.control c = control) : ControlOk s.kernel c control :=
  same ▸ h.control c

section

variable (running : s.control c = .running)

include running

theorem steady : Steady c s.kernel :=
  ⟨h.coherent, h.time, (h.known running).2.1⟩

theorem unprepared : s.kernel.Unprepared c :=
  (h.known running).2.2

theorem bufferReady : s.kernel.BufferReady c :=
  (h.known running).1

/-- A section between two points of thread execution. -/
theorem between (steady : Steady c k') (closed : Closed c (fun _ => False) s.kernel k')
    (leaves : s.Leaves k') : Sound { s with kernel := k' } := by
  have own : ControlOk k' c .running :=
    ⟨(h.bufferReady running).carry (closed.buffers c), steady.exact,
      closed.unprepared (h.unprepared running)⟩
  rw [← after_same running]
  exact h.critical closed.toWithin steady.toCoherent steady.time leaves own (by simp)

end

/-- Nothing changed that the invariant reads. -/
theorem aside (same : Aside s.kernel k') : Sound { s with kernel := k' } where
  coherent := h.coherent.congr same.scheduler
  time := h.time.keep (c := 0) same.quiet.toWithin same.clocks
  control d := by
    have spares : Spares d (fun _ => False) s.kernel k' := same.spares
    exact spares.control (h.control d) fun _ _ _ no => no
  notified := (h.accounts_same same.scheduler same.sent).1
  handled := (h.accounts_same same.scheduler same.sent).2
  published token member := by
    obtain ⟨unjoined, visible⟩ := h.published token member
    exact ⟨joinerOf_congr same.scheduler ▸ unjoined, visible⟩
  claimed token member := events_congr same.clocks ▸ h.claimed token member

end

end System.Sound

/-! ### The code of the sections -/

section Rules

variable {E : Panic → Prop} {s : System} {α : Type}

variable {operation : KernelM α}

theorem wp_onKernel {Q : α → System → Prop} :
    WP E (onKernel operation) Q s ↔
      WP E operation (fun value k' => Q value { s with kernel := k' }) s.kernel := by
  simp only [WP, onKernel]
  cases operation s.kernel with
  | error panic => rfl
  | ok outcome => rfl

/-- A call whose specification is steady and quiet keeps the invariant. -/
theorem System.Sound.wp_call (h : s.Sound) (running : s.control c = .running)
    (spec : Settles c s.kernel operation) :
    WP Contract (onKernel operation) (fun _ t => t.Sound) s :=
  wp_onKernel.mpr (spec.mono fun _ _ done =>
    h.between running done.steady done.quiet.toClosed done.quiet.leaves)

/-- So does a call that may block. -/
theorem System.Sound.wp_wait (h : s.Sound) (issued : s.Issued) (running : s.control c = .running)
    (spec : Waits c s.kernel operation) : WP Contract (onKernel operation) (fun _ t => t.Sound) s :=
  wp_onKernel.mpr (spec.mono fun _ _ done =>
    h.between running done.steady done.closed (done.leaves issued))

/-- The result of such a call may be dropped. -/
theorem wp_discard {operation : SystemM α} {Q : System → Prop}
    (kept : WP E operation (fun _ => Q) s) : WP E (do let _ ← operation) (fun _ => Q) s :=
  (wp_bind _).mpr kept

end Rules

namespace Action

/-- The section stops at most where a caller broke its contract, and keeps the invariant. -/
abbrev SoundFrom (s : System) (action : Action) : Prop :=
  WP Contract action.run (fun _ t => t.Sound) s

variable {s : System}

section

variable (h : s.Sound)

include h

theorem registerSecondary_sound : SoundFrom s registerSecondary := by
  refine wp_discard (wp_onKernel.mpr ?_)
  rw [registerSecondaryCpu, wp_bind, wp_get, wp_ite]
  refine ⟨fun _ => ?_, fun _ => h⟩
  rw [wp_bind, wp_set, wp_pure]
  exact h.aside ⟨rfl, rfl, rfl⟩

theorem threadExit_sound {code : Nat} (enabled : (threadExit c code).Enabled s) :
    SoundFrom s (threadExit c code) := by
  refine h.wp_call enabled.1.2 (wp_exitCurrent (h.steady enabled.1.2) enabled.1.1 ?_)
  intro id t running found
  refine (enabled.2 t ?_).1
  rw [System.currentThread, running, Option.bind_some, found]

theorem requestReschedule_sound : SoundFrom s (requestReschedule c) := by
  rw [SoundFrom, run, wp_onKernel, requestRescheduleOn, wp_modify]
  exact h.aside .setPreemption

theorem nestPreemption_sound {change : PreemptionState → Except Panic PreemptionState}
    (refuses : ∀ state panic, change state = .error panic → Contract panic) :
    WP Contract (onKernel (nestPreemption c change)) (fun _ t => t.Sound) s := by
  refine wp_onKernel.mpr ?_
  simp only [WP, nestPreemption]
  cases changed : change (s.kernel.preemption c) with
  | error panic => exact refuses _ panic changed
  | ok state => exact h.aside .setPreemption

theorem preemptEnter_sound : SoundFrom s (preemptEnter c) := by
  refine nestPreemption_sound h fun state panic refused => ?_
  rw [PreemptionState.enter] at refused
  split at refused
  · cases refused
    rfl
  · cases refused

theorem preemptLeave_sound : SoundFrom s (preemptLeave c) := by
  refine nestPreemption_sound h fun state panic refused => ?_
  rw [PreemptionState.leave] at refused
  split at refused
  · cases refused
    rfl
  · cases refused

end

variable {token : WaitToken}

variable (h : s.Sound)

include h

theorem finishWait_sound (enabled : (finishWait c token).Enabled s) :
    SoundFrom s (finishWait c token) := by
  refine wp_discard (h.wp_call enabled.1.2 ?_)
  refine wp_transitionFinishWait h.coherent enabled.2 fun result k' coherent quiet clocks cpu => ?_
  refine ⟨(h.steady enabled.1.2).carry coherent quiet.toWithin clocks ?_ ?_, quiet⟩
  · rw [cpu]
  · rw [ready, cpu, ready]

theorem enterRunningThread_sound (enabled : (enterRunningThread c).Enabled s) :
    SoundFrom s (enterRunningThread c) := by
  refine wp_onKernel.mpr (wp_prepareRunningThreadEntry (h.steady enabled) fun m quiet steady => ?_)
  rw [← System.after_same enabled]
  have spares : ∀ d, d ≠ c → Spares d (fun _ => False) s.kernel
      (m.setCpu c { m.cpu c with online := true }) := fun d apart =>
    (quiet.toWithin.spares apart).setCpu apart
  have accounts : s.Accounts m := h.accounts quiet.toFrame
  have leaves : s.Leaves m := quiet.leaves
  refine h.advance spares steady.toCoherent steady.time accounts ⟨leaves.timed, leaves.joined⟩
    ⟨?_, steady.exact, ?_⟩ (by simp) fun _ _ _ _ _ no => no
  · exact (h.bufferReady enabled).carry (quiet.buffers c)
  · exact quiet.unprepared (h.unprepared enabled)

/-! #### Registering a wait -/

/-- The wait that a thread just prepared. -/
theorem registering_prepared (timing : WaitTiming) (running : s.control c = .running)
    {id : ThreadId} {t : Thread} (current : (s.kernel.cpu c).current = some id)
    (found : s.kernel.find id = some t) (home : t.homeCpu = c) (inactive : t.wait.active = none)
    (coherent : Coherent (s.kernel.preparing id t .explicit)) :
    Registering c ⟨t.nextToken id, .explicit⟩ false timing (s.kernel.preparing id t .explicit) := by
  have registered : (s.kernel.preparing id t .explicit).registration =
      update s.kernel.registration (t.nextToken id)
        (some ⟨t.nextToken id, .prepared, .explicit⟩) :=
    registration_preparing found inactive
  have absent : s.kernel.registration (t.nextToken id) = none := by
    cases stored : s.kernel.registration (t.nextToken id) with
    | none => rfl
    | some w =>
      obtain ⟨stored, _⟩ := (registration_found found rfl).mp stored
      cases inactive.symm.trans stored
  have fresh : (s.kernel.preparing id t .explicit).registration (t.nextToken id) =
      some ⟨t.nextToken id, .prepared, .explicit⟩ := by
    rw [registered, update_self]
  refine ⟨current, home, rfl, ⟨_, fresh, rfl, by simp⟩,
    fun _ => ⟨⟨_, fresh, by simp⟩, coherent.unjoined fresh (by simp)⟩, ?_, ?_⟩
  · intro _ member
    obtain ⟨_, _, ⟨w, stored, _⟩, _⟩ := (h.time.events c).1 _ _ member
    cases absent.symm.trans stored
  · intro token w own active phase
    by_contra other
    rw [registered, update_of_ne other] at active
    exact h.unprepared running token w own active phase

theorem prepareWait_sound (issued : s.Issued) {caller : WaitCaller}
    (enabled : (prepareWait c caller).Enabled s) : SoundFrom s (prepareWait c caller) := by
  have running := enabled.2
  rw [SoundFrom, run, wp_bind, wp_onKernel]
  refine wp_transitionPrepareWaitWith h.coherent fun id t current found home inactive coherent => ?_
  have within : Within c (fun _ => False) s.kernel
      ((s.kernel.preparing id t .explicit).log (.prepared (t.nextToken id))) :=
    (Within.preparing found home inactive).trans Quiet.log.toWithin
  have steady := (h.steady running).carry (coherent.log _) within rfl rfl Iff.rfl
  have logged : Spares c (fun _ => False) (s.kernel.preparing id t .explicit)
      ((s.kernel.preparing id t .explicit).log (.prepared (t.nextToken id))) := Aside.log.spares
  have prepared := registering_prepared h caller.timing running current found home inactive
    coherent
  have joiners := joinerOf_preparing .explicit found
  refine h.critical within steady.toCoherent steady.time
    ⟨fun _ _ queued => queued, fun _ _ id joined => (congrFun joiners id).symm.trans joined⟩
    ⟨h.bufferReady running, steady.exact, logged.registering prepared fun _ no => no⟩ ?_
  rintro _ _ ⟨⟩ member
  exact absurd (issued _ member t found) (Nat.not_succ_le_self _)

theorem scheduleDeadline_sound {deadline : Nat}
    (enabled : (scheduleDeadline c deadline).Enabled s) :
    SoundFrom s (scheduleDeadline c deadline) := by
  obtain ⟨_, prepared, waiting⟩ := enabled
  obtain ⟨buffer, exact, registering⟩ := h.known waiting
  obtain ⟨wait, quantum, single⟩ := h.time.events c
  rw [SoundFrom, run, registerDeadline, wp_bind, wp_get, waiting]
  refine .bind (wp_onKernel.mpr ?_)
  refine wp_scheduleOwn h.time h.coherent.table ?_ fun k' retimed => ?_
  · exact registering.home
  have time : TimeOk k' := by
    refine retimed.time h.time ?_ ?_ ?_
    · rintro owner token (same | member)
      · cases same
        exact ⟨registering.home, registering.home, registering.hidden rfl⟩
      · exact wait owner token member
    · rintro owner id (same | member)
      · cases same
      · exact quantum owner id member
    · rintro id other (same | first) (same' | second)
      · cases same
      · cases same
      · cases same'
      · exact single id other first second
  have exact' : QuantumExact k' c := by
    intro id
    rw [retimed.events, retimed.cpu, retimed.ready, ← exact id]
    exact ⟨fun queued => queued.resolve_left (by rintro ⟨⟩), Or.inr⟩
  have kept : Registering c prepared false .scheduled k' := by
    obtain ⟨current, home, explicit, wait, hidden, _, only⟩ := registering
    refine ⟨by rw [retimed.cpu]; exact current, home, explicit, ?_,
      fun invisible => (hidden invisible).congr retimed.scheduler, fun no => absurd rfl no, ?_⟩
    · rw [registration_congr retimed.scheduler]
      exact wait
    · rw [registration_congr retimed.scheduler]
      exact only
  have secret : prepared.token ∉ s.published := fun member =>
    (h.published _ member).2 c prepared _ waiting rfl
  refine h.critical retimed.closed.toWithin (retimed.coherent h.coherent) time
    (retimed.toReclocked.leaves ?_) ⟨buffer.carry (retimed.buffers c), exact', kept⟩ ?_
  · rintro token member (same | before)
    · obtain ⟨_, rfl⟩ := TimedEvent.waitDeadline.inj same
      exact absurd member secret
    · exact before
  · rintro _ _ ⟨⟩
    exact secret

theorem revealToken_sound (enabled : (revealToken c).Enabled s) : SoundFrom s (revealToken c) := by
  obtain ⟨_, prepared, timing, waiting⟩ := enabled
  obtain ⟨buffer, exact, registering⟩ := h.known waiting
  rw [SoundFrom, run, reveal, wp_bind, wp_get, waiting]
  have kept : Registering c prepared true timing s.kernel :=
    { registering with hidden := fun no => (by cases no) }
  have same : Calm c s.kernel s.kernel := .refl _
  have revealed : (s.after c s.kernel (.waiting prepared true timing)).Sound :=
    h.critical same.toWithin h.coherent h.time same.leaves ⟨buffer, exact, kept⟩ (by simp)
  have known : System.Known (s.after c s.kernel (.waiting prepared true timing))
      prepared.token := by
    refine ⟨(registering.hidden rfl).2, fun d other timing' waiting' same => ?_⟩
    change update s.control c _ d = _ at waiting'
    by_cases own : d = c
    · rw [own, update_self] at waiting'
      cases waiting'
    · -- The other processor's token names it, this one's names this processor.
      rw [update_of_ne own] at waiting'
      exact own (by rw [← (h.known waiting').2.2.home, same, registering.home])
  refine { revealed with published := fun token member => ?_, claimed := fun token member => ?_ }
  · rcases List.mem_cons.mp member with rfl | before
    · exact known
    · exact revealed.published token before
  · have before : token ∈ s.claimed → token ∈ prepared.token :: s.published ∧
        .waitDeadlineOf token ∉ s.kernel.events token.cpu := fun member =>
      ⟨List.mem_cons_of_mem _ (h.claimed token member).1, (h.claimed token member).2⟩
    change token ∈ (if timing = .untimed then prepared.token :: s.claimed else s.claimed) at member
    split at member
    · next never =>
      rcases List.mem_cons.mp member with rfl | member
      · refine ⟨List.mem_cons_self, ?_⟩
        rw [registering.home]
        exact registering.untimed (by simp [never])
      · exact before member
    · exact before member

theorem commitWait_sound (enabled : (commitWait c).Enabled s) : SoundFrom s (commitWait c) := by
  obtain ⟨online, prepared, visible, timing, waiting⟩ := enabled
  obtain ⟨buffer, exact, registering⟩ := h.known waiting
  obtain ⟨w, active, consumption, awake⟩ := registering.wait
  rw [SoundFrom, run, commitRegistered, wp_bind, wp_get, waiting]
  refine .bind (wp_onKernel.mpr ?_)
  refine wp_commitPreparedWait ⟨h.coherent, h.time, exact⟩ online registering.current active
    (consumption.trans registering.explicit.symm) awake
    fun result k' fresh steady quiet committed => ?_
  rw [wp_bind, wp_stopIf]
  refine ⟨fun stale => absurd stale fresh, fun _ => ?_⟩
  refine h.critical quiet.toWithin steady.toCoherent steady.time quiet.leaves
    ⟨buffer.carry (quiet.buffers c), steady.exact, fun token w' home stored phase => ?_⟩ (by simp)
  have before := quiet.settled token w' stored phase
  obtain rfl := registering.only token w' home before phase
  exact committed w' stored phase

theorem cancelWait_sound (enabled : (cancelWait c).Enabled s) : SoundFrom s (cancelWait c) := by
  obtain ⟨online, prepared, visible, waiting⟩ := enabled
  obtain ⟨buffer, exact, registering⟩ := h.known waiting
  obtain ⟨w, active, consumption, awake⟩ := registering.wait
  rw [SoundFrom, run, cancelRegistered, wp_bind, wp_get, waiting]
  refine .bind (wp_onKernel.mpr ?_)
  refine wp_transitionCancelWait h.coherent registering.current active awake
    fun result k' coherent quiet clocks cpu gone => ?_
  have time : TimeOk k' := by
    refine h.time.carry quiet.toWithin clocks ?_
    rintro _ rfl d
    refine h.time.untimed ?_ d d
    rw [registering.home]
    exact registering.untimed (by simp)
  have exact' : QuantumExact k' c := by
    intro id
    have ready : k'.ready c = s.kernel.ready c := by rw [ready, cpu, ready]
    rw [events_congr clocks, exact id, cpu, ready]
  refine h.advance (fun _ apart => quiet.toWithin.spares apart) coherent time
    (h.accounts quiet.toFrame) quiet.leaves ⟨buffer.carry (quiet.buffers c), exact', ?_⟩
    (by simp) ?_
  · intro token w' home stored phase
    have before := quiet.settled token w' stored phase
    obtain rfl := registering.only token w' home before phase
    cases gone.symm.trans stored
  · rintro d other timing apart waiting' same
    exact apart (by rw [← (h.known waiting').2.2.home, same, registering.home])

/-! #### Completers -/

theorem completeWait_sound {cause : WaitCause} (enabled : (completeWait c token cause).Enabled s) :
    SoundFrom s (completeWait c token cause) := by
  obtain ⟨⟨online, executing⟩, claimed⟩ := enabled
  obtain ⟨member, unqueued⟩ := h.claimed token claimed
  have known := h.published token member
  have exact : QuantumExact s.kernel c := by
    rcases executing with running | ⟨prepared, visible, timing, waiting⟩
    · exact (h.known running).2.1
    · exact (h.known waiting).2.1
  refine wp_discard (wp_onKernel.mpr ?_)
  refine wp_completeWait ⟨h.coherent, h.time, exact⟩ online known.1 unqueued
    fun result k' done steady => ?_
  have spares := fun d (apart : d ≠ c) => done.quiet.toWithin.spares apart
  have finish : ∀ control, s.control c = control → ControlOk k' c control →
      System.Sound { s with kernel := k' } := by
    intro control same own
    rw [← System.after_same same]
    refine h.advance spares steady.toCoherent steady.time (h.accounts done.quiet.toFrame)
      done.quiet.leaves own (fun prepared timing waiting member => ?_)
      fun d prepared timing _ waiting => known.2 d prepared timing waiting
    exact (h.published _ member).2 c prepared timing (same.trans waiting) rfl
  rcases executing with running | ⟨prepared, visible, timing, waiting⟩
  · exact finish .running running ⟨(h.bufferReady running).carry (done.quiet.buffers c),
      steady.exact, done.quiet.unprepared (h.unprepared running)⟩
  · obtain ⟨buffer, _, registering⟩ := h.known waiting
    refine finish _ waiting ⟨buffer.carry (done.quiet.buffers c), steady.exact, ?_⟩
    obtain ⟨current, home, explicit, ⟨w, active, consumption, awake⟩, hidden, untimed, only⟩ :=
      registering
    refine ⟨by rw [done.cpu]; exact current, home, explicit, ?_, fun invisible => ?_,
      fun unset member => untimed unset (done.quiet.timed _ _ member),
      fun other w' own stored phase => ?_⟩
    · obtain ⟨w', active', same, awake'⟩ := done.held _ w active awake
      exact ⟨w', active', same.trans consumption, awake'⟩
    · subst invisible
      exact done.quiet.pending _ (known.2 c prepared timing waiting) (hidden rfl)
    · exact only other w' own (done.quiet.settled other w' stored phase) phase

/-- A completer's processor and the owner of the deadline keep their control
states, and so does everybody else. -/
theorem cancelDeadline_sound (enabled : (cancelDeadline c token).Enabled s) :
    SoundFrom s (cancelDeadline c token) := by
  refine .bind (wp_onKernel.mpr (wp_cancelRemote h.time fun canceled k' retimed => ?_))
  obtain ⟨wait, quantum, single⟩ := h.time.events token.cpu
  have spares : ∀ d, Spares d (fun _ => False) s.kernel k' := by
    intro d
    by_cases same : d = token.cpu
    · subst same
      refine .of_scheduler retimed.scheduler (retimed.buffers _)
        (fun event member => ((retimed.events event).mp member).1) fun id member => ?_
      exact (retimed.events _).mpr ⟨member, by rintro ⟨⟩⟩
    · have events := events_of_states (retimed.others d same)
      exact .of_scheduler retimed.scheduler (retimed.buffers d) (fun _ member => events ▸ member)
        fun _ member => events ▸ member
  refine ⟨retimed.coherent h.coherent, retimed.time h.time (fun owner named queued =>
    wait owner named queued.1) (fun owner id queued => quantum owner id queued.1)
    (fun id other first second => single id other first.1 second.1),
    fun d => (spares d).control (h.control d) fun _ _ _ no => no,
    (h.accounts_same retimed.scheduler retimed.sent).1,
    (h.accounts_same retimed.scheduler retimed.sent).2, fun other member => ?_,
    fun other member => ?_⟩
  · obtain ⟨unjoined, visible⟩ := h.published other member
    exact ⟨joinerOf_congr retimed.scheduler ▸ unjoined, visible⟩
  · rcases List.mem_cons.mp member with rfl | member
    · exact ⟨enabled.2, fun queued => ((retimed.events _).mp queued).2 rfl⟩
    · obtain ⟨known, absent⟩ := h.claimed other member
      exact ⟨known, fun queued => absent ((spares other.cpu).events _ queued)⟩

/-! #### Interrupts -/

theorem schedulerIpi_sound (enabled : (schedulerIpi c).Enabled s) :
    SoundFrom s (schedulerIpi c) := by
  obtain ⟨online, running⟩ := enabled
  rw [SoundFrom, run, handleSchedulerIpi, wp_bind, wp_modify, wp_onKernel]
  refine wp_finishSchedulerIpi (h.steady running) online (h.unprepared running)
    fun k' steady quiet answered => ?_
  have after := h.between running steady quiet.toClosed (quiet.leaves (s := s))
  refine { after with notified := fun d raised => ?_, handled := fun d => ?_ }
  · change update s.ipisHandled c (s.kernel.ipisSent c) d < k'.ipisSent d
    by_cases same : d = c
    · subst same
      rw [update_self]
      exact answered raised
    · rw [update_of_ne same]
      exact after.notified d raised
  · change update s.ipisHandled c (s.kernel.ipisSent c) d ≤ k'.ipisSent d
    by_cases same : d = c
    · subst same
      rw [update_self]
      exact quiet.sent d
    · rw [update_of_ne same]
      exact after.handled d

/-- A change of the executing processor's clock spares all others. -/
theorem reclocked_sound {control : Control} (retimed : Reclocked c queued s.kernel k')
    (time : TimeOk k') (leaves : s.Leaves k') (own : ControlOk k' c control)
    (settled : ∀ prepared visible timing, control ≠ .waiting prepared visible timing) :
    (s.after c k' control).Sound := by
  have spares : ∀ d, d ≠ c → Spares d (fun _ => False) s.kernel k' := by
    intro d apart
    have events := events_of_states (retimed.others d apart)
    exact .of_scheduler retimed.scheduler (by rw [retimed.others d apart])
      (fun _ member => events ▸ member) fun _ member => events ▸ member
  exact h.advance spares (retimed.coherent h.coherent) time
    (h.accounts_same retimed.scheduler retimed.sent) leaves own
    (fun prepared timing waiting => absurd waiting (settled prepared false timing))
    fun _ _ _ _ _ no => no

theorem timerBegin_sound (enabled : (timerBegin c).Enabled s) : SoundFrom s (timerBegin c) := by
  obtain ⟨_, running⟩ := enabled
  rw [SoundFrom, run, beginTimer, wp_bind, wp_onKernel, wp_nowCounter, wp_bind, wp_onKernel]
  have ticked : System.Sound { s with kernel := s.kernel.ticked } := h.aside ⟨rfl, rfl, rfl⟩
  have steady := ticked.steady (c := c) running
  obtain ⟨wait, quantum, single⟩ := steady.time.events c
  refine wp_beginTimerInterrupt steady.time steady.table (ticked.bufferReady running)
    (fun k' retimed => ?_) fun expired k' retimed batch => ?_
  · have time : TimeOk k' := retimed.time steady.time wait quantum single
    refine ticked.between running ⟨retimed.coherent steady.toCoherent, time, fun id => ?_⟩
      retimed.closed (retimed.toReclocked.leaves fun _ _ queued => queued)
    rw [retimed.events, retimed.cpu, retimed.ready]
    exact steady.exact id
  · have time : TimeOk k' := retimed.time steady.time
      (fun owner token queued => wait owner token queued.1)
      (fun owner id queued => quantum owner id queued.1)
      fun id other first second => single id other first.1 second.1
    have sound : QuantumSound k' c := by
      intro id member
      rw [retimed.cpu, retimed.ready]
      exact ((steady.exact id).mp ((retimed.events _).mp member).1).2
    have unprepared : k'.Unprepared c := by
      intro token w home stored
      rw [registration_congr retimed.scheduler] at stored
      exact ticked.unprepared running token w home stored
    exact reclocked_sound ticked retimed time (retimed.leaves fun _ _ queued => queued.1)
      ⟨batch, sound, unprepared⟩ (by simp)

theorem timerSchedule_sound (enabled : (timerSchedule c).Enabled s) :
    SoundFrom s (timerSchedule c) := by
  obtain ⟨online, now, expired, dispatching⟩ := enabled
  obtain ⟨batch, sound, unprepared⟩ := h.known dispatching
  rw [SoundFrom, run, scheduleTimer, wp_bind, wp_get, dispatching]
  refine .bind (wp_onKernel.mpr ?_)
  refine wp_finishTimerInterrupt h.coherent h.time batch unprepared sound online
    fun quantum k' coherent time quiet clocks restores => ?_
  refine h.advance (fun _ apart => quiet.toWithin.spares apart) coherent time
    (h.accounts quiet.toFrame) quiet.leaves
    ⟨batch.capacity, restores, quiet.unprepared unprepared⟩ (by simp) ?_
  intro d prepared timed apart waiting ended
  -- An expired wait belongs to this processor, a hidden one to the other.
  exact apart ((h.known waiting).2.2.home.symm.trans (batch.wait _ _ ended).2.1)

theorem timerEnd_sound (enabled : (timerEnd c).Enabled s) : SoundFrom s (timerEnd c) := by
  obtain ⟨_, quantum, expired, rearming⟩ := enabled
  obtain ⟨capacity, restores, unprepared⟩ := h.known rearming
  rw [SoundFrom, run, endTimer, wp_bind, wp_get, rearming]
  refine .bind (wp_onKernel.mpr ?_)
  refine wp_endTimerInterrupt h.time h.coherent.table restores capacity
    fun k' retimed buffer time exact => ?_
  refine reclocked_sound h retimed time (retimed.leaves ?_)
    ⟨buffer, exact, fun token w home stored => ?_⟩ (by simp)
  · rintro token _ (⟨queued, _⟩ | ⟨deadline, requested⟩)
    · exact queued
    · obtain ⟨_, other⟩ := restores.ensure _ _ requested
      cases other
  · rw [registration_congr retimed.scheduler] at stored
    exact unprepared token w home stored

/-- Every enabled section keeps the invariant and stops at most where its callers
broke their part of the contract. -/
theorem run_sound (issued : s.Issued) {action : Action} (enabled : action.Enabled s) :
    action.SoundFrom s := by
  cases action with
  | registerSecondary => exact registerSecondary_sound h
  | initializeCurrentCpu cpu =>
    exact wp_discard (h.wp_call enabled (wp_initializeCurrentCpu (h.steady enabled)))
  | enterRunningThread cpu => exact enterRunningThread_sound h enabled
  | threadSpawn cpu attrs =>
    exact wp_discard (h.wp_call enabled.2 (wp_spawnThread (h.steady enabled.2) enabled.1))
  | threadSpawnUser cpu addressSpace stack attrs =>
    exact wp_discard (h.wp_call enabled.2 (wp_spawnUserThread (h.steady enabled.2) enabled.1))
  | replaceUserResources cpu addressSpace stack =>
    exact wp_discard (h.wp_call enabled.2 (wp_replaceCurrentUserResources (h.steady enabled.2)))
  | threadExit cpu code => exact threadExit_sound h enabled
  | threadJoin cpu target =>
    exact wp_discard (h.wp_wait issued enabled.2 (wp_joinThread (h.steady enabled.2) enabled.1))
  | takeJoinResult cpu =>
    exact wp_discard (h.wp_call enabled.2 (wp_takeCurrentJoinResult (h.steady enabled.2)))
  | prepareWait cpu caller => exact prepareWait_sound h issued enabled
  | scheduleDeadline cpu deadline => exact scheduleDeadline_sound h enabled
  | revealToken cpu => exact revealToken_sound h enabled
  | commitWait cpu => exact commitWait_sound h enabled
  | cancelWait cpu => exact cancelWait_sound h enabled
  | sleepUser cpu deadline =>
    exact wp_discard (h.wp_wait issued enabled.2
      (wp_sleepUserUntilCounter (h.steady enabled.2) enabled.1))
  | completeWait cpu token cause => exact completeWait_sound h enabled
  | cancelDeadline cpu token => exact cancelDeadline_sound h enabled
  | finishWait cpu token => exact finishWait_sound h enabled
  | requestReschedule cpu => exact requestReschedule_sound h
  | preemptCheckpoint cpu =>
    exact h.wp_call enabled.2
      (wp_preemptCheckpoint (h.steady enabled.2) enabled.1 (h.unprepared enabled.2))
  | preemptEnter cpu => exact preemptEnter_sound h
  | preemptLeave cpu => exact preemptLeave_sound h
  | schedulerIpi cpu => exact schedulerIpi_sound h enabled
  | timerBegin cpu => exact timerBegin_sound h enabled
  | timerSchedule cpu => exact timerSchedule_sound h enabled
  | timerEnd cpu => exact timerEnd_sound h enabled

end Action

/-! ### All runs -/

namespace System

theorem timeOk_initCpuStates {cpuCount : Nat} {counter : CpuId → Nat → Nat}
    (clocks : k.clocks = .initCpuStates cpuCount counter) :
    TimeOk k ∧ (∀ d, k.BufferReady d) ∧ ∀ d, k.events d = [] := by
  have states : ∀ d state, k.clocks.states d = some state →
      state = .tryNew (kernelThreadCapacity * timedEventCapacityPerThread) := by
    intro d state present
    rw [clocks] at present
    simp only [Clocks.initCpuStates] at present
    split at present
    · exact (Option.some.inj present).symm
    · cases present
  refine ⟨fun d state present => ?_, fun d state present => ?_, fun d => ?_⟩
  · obtain rfl := states d state present
    refine ⟨DeadlineQueue.wellFormed_tryWithCapacity _, rfl, ?_, ?_, ?_⟩
    · rintro _ _ ⟨⟩
    · rintro _ _ ⟨⟩
    · rintro _ _ ⟨⟩
  · rw [states d state present]
    rfl
  · cases present : k.clocks.states d with
    | none => rw [events, present]
    | some state =>
      rw [events_of_some present, states d state present]
      rfl

/-- Boot ends in a sound state. -/
theorem sound_booted {config : BootConfig} (accepted : config.Accepted)
    (boot : bootstrap config = .ok (.ok k)) : (booted k).Sound := by
  obtain ⟨fits, scheduler, made, run⟩ := bootstrap_ok boot
  obtain ⟨coherent, quiet, clocks⟩ := (wp_bootstrapThreads made fits accepted).of_ok run
  obtain ⟨time, buffer, events⟩ := timeOk_initCpuStates clocks
  have cpus : ∀ d, (preBoot config scheduler).cpu d = .new config.threadCapacity := by
    obtain ⟨_, rfl⟩ := transitionNew_ok made
    exact fun _ => rfl
  have offline : ∀ d, (k.cpu d).online = false := by
    intro d
    by_cases first : d = 0
    · rw [first, quiet.online, cpus]
      rfl
    · rw [quiet.others d first, cpus]
      rfl
  have unprepared : ∀ d, k.Unprepared d := by
    intro d token w _ active phase
    have before := quiet.settled token w active phase
    rw [registration, find_preBoot made] at before
    cases before
  refine ⟨coherent, time, fun d => ⟨buffer d, fun id => ?_, unprepared d⟩, fun d raised => ?_,
    fun d => Nat.zero_le _, by simp [booted], by simp [booted]⟩
  · change .quantumExpired d id ∈ k.events d ↔ (k.cpu d).online = true ∧ _
    rw [events d, offline d]
    simp
  · rcases quiet.notified d raised with before | sent
    · obtain ⟨_, rfl⟩ := transitionNew_ok made
      cases before
    · exact Nat.lt_of_le_of_lt (Nat.zero_le _) sent

end System

end Genrt
