import Genrt.Sched.Handoff

/-!
# Specifications of the blocking calls

Committing a prepared wait blocks its thread and hands the processor over, or
consumes an outcome that came first. A sleep prepares, queues its deadline and
commits inside one section; a join registers itself with its target between
preparing and committing. Each leaves the kernel in a steady state with no wait
of the processor half prepared.
-/

namespace Genrt

open Effect Kernel Function

variable {k k' : Kernel} {c : CpuId} {id next : ThreadId} {t u : Thread}

/-! ### After the handoff -/

/-- With no quantum event left, the new current thread gets one if it needs it. -/
theorem wp_finishBlockAfterQuantumCancel (coherent : Coherent k) (time : TimeOk k)
    (none : ∀ id, .quantumExpired c id ∉ k.events c) (online : (k.cpu c).online = true)
    {Q : Unit → Kernel → Prop}
    (post : ∀ k', Steady c k' → Calm c k k' → k'.scheduler = k.scheduler → Q () k') :
    WP Contract (finishBlockAfterQuantumCancel c id) Q k := by
  rw [finishBlockAfterQuantumCancel, wp_bind, wp_cpuState, wp_bind, consumeCheckpointOn,
    wp_modifyGet]
  have same : Aside k (k.setPreemption c
    ((k.preemption c).consumeCheckpoint (k.cpu c).online).2) := .setPreemption
  have aside : Calm c k (k.setPreemption c
    ((k.preemption c).consumeCheckpoint (k.cpu c).online).2) := same.quiet
  have time' := time.keep aside.toWithin same.clocks
  refine wp_ensureQuantumEvent time' (coherent.table.congr (by rfl)) fun k' ensured => ?_
  refine post k' ⟨ensured.coherent (coherent.congr rfl), ensured.time_ensured time'
    fun id member => absurd member (none id), fun id => ?_⟩ (aside.trans ensured.quiet_ensured)
    ensured.scheduler
  rw [ensured.quantum_ensured fun id member => absurd member (none id), ensured.cpu, ensured.ready,
    same.cpu, online]
  exact (and_iff_right rfl).symm

/-- The quantum event of the outgoing thread goes first. -/
theorem wp_finishBlockCurrent (coherent : Coherent k) (time : TimeOk k)
    (only : ∀ other, .quantumExpired c other ∈ k.events c → other = id)
    (online : (k.cpu c).online = true) {Q : Unit → Kernel → Prop}
    (post : ∀ k', Steady c k' → Calm c k k' → k'.scheduler = k.scheduler → Q () k') :
    WP Contract (finishBlockCurrent c id) Q k := by
  obtain ⟨wait, quantum, single⟩ := time.events c
  rw [finishBlockCurrent, wp_bind]
  refine wp_cancelOwn time rfl fun _ m canceled => ?_
  have time' : TimeOk m := canceled.time time (fun owner token member => wait owner token member.1)
    (fun owner id member => quantum owner id member.1)
    fun id other first second => single id other first.1 second.1
  refine wp_finishBlockAfterQuantumCancel (canceled.coherent coherent) time'
    (fun other member => ?_) (by rw [canceled.cpu, online]) fun k' steady quiet same => ?_
  · obtain ⟨queued, apart⟩ := (canceled.events _).mp member
    exact apart (by rw [only other queued])
  · exact post k' steady ((canceled.quiet fun _ _ queued => queued.1).trans quiet)
      (same.trans canceled.scheduler)

/-! ### Committing -/

variable {prepared : PreparedWait} {queue : BoundedQueue ThreadId}

theorem Quiet.blocked {touched : WaitToken → Prop} (found : k.find id = some t)
    (live : k.find next = some u) (apart : next ≠ id)
    (active : t.wait.active = some ⟨prepared.token, .prepared, prepared.consumption⟩)
    (own : prepared.token.cpu = c) :
    Quiet c touched k (k.blocked c id next (t.wait.commit prepared).2 queue) := by
  have wait : (t.wait.commit prepared).2.active =
      some ⟨prepared.token, .blocked, prepared.consumption⟩ := by
    simp [WaitMetadata.commit, active]
  suffices committed : Quiet c touched k (k.modifyThread id.index fun t' =>
      { t' with wait := (t.wait.commit prepared).2, state := .blocked }) by
    refine committed.trans (.dispatched (t := u) ?_ rfl)
    rw [find_modifyThread_other found apart, live]
  refine .of_wait .modifyThread rfl (find_modifyThread_eq found) found rfl ?_ ?_ ?_
  · intro w stored _ _
    obtain rfl := Option.mem_unique active stored
    exact ⟨_, wait, rfl, by simp⟩
  · intro w away stored _
    obtain rfl := Option.mem_unique active stored
    exact absurd own away
  · intro w stored phase
    obtain rfl := Option.mem_unique wait stored
    cases phase

/-- The thread of a prepared wait may block. -/
theorem Coherent.blocked (h : Coherent k) (prepared : PreparedWait)
    (running : (k.cpu c).current = some id) (found : k.find id = some t)
    (active : t.wait.active = some ⟨prepared.token, .prepared, prepared.consumption⟩)
    (worker : (k.cpu c).idle ≠ some id) (selected : Selected k c next u queue) :
    Coherent (k.blocked c id next (t.wait.commit prepared).2 queue) := by
  have status := h.current_status running found
  refine h.block running found rfl rfl status.1 ?_ rfl worker selected rfl rfl
  simpa [WaitMetadata.commit, active] using (h.thread id t found).block status.2 active

/-- A prepared wait blocks its thread; the next thread's address space is
installed before the caller's last step. -/
theorem wp_commitWaitWith_block {finish : ThreadId → KernelM Unit}
    (running : (k.cpu c).current = some id) (found : k.find id = some t)
    (status : t.homeCpu = c ∧ t.state = .running) (housed : (k.cpu c).idle ≠ none)
    (active : t.wait.active = some ⟨prepared.token, .prepared, prepared.consumption⟩)
    (select : (k.cpu c).idle ≠ some id → ∃ next u rest, Selected k c next u rest)
    {Q : CommitResult → Kernel → Prop}
    (post : ∀ next u rest, Selected k c next u rest → (k.cpu c).idle ≠ some id → next ≠ id →
      Coherent (k.blocked c id next (t.wait.commit prepared).2 rest) ∧
      ∀ k', Aside (k.blocked c id next (t.wait.commit prepared).2 rest) k' →
        WP Contract (finish id) (fun _ k'' => Q (.blocked (.switch id next)) k'') k') :
    WP Contract (commitWaitWith c prepared finish) Q k := by
  rw [commitWaitWith, wp_bind]
  refine wp_transitionCommitWait_block running found status housed active select
    fun next u rest selected worker => ?_
  have apart := ne_of_state selected.found found (by simp [selected.state, status.2])
  obtain ⟨coherent, continues⟩ := post next u rest selected worker apart
  have live : (k.blocked c id next (t.wait.commit prepared).2 rest).find next =
      some { u with state := .running } := by
    rw [Kernel.blocked, find_dispatched (t := u), update_self]
    rw [find_modifyThread_other found apart, selected.found]
  refine ⟨coherent, .bind (wp_activateThreadAddressSpace (t := { u with state := .running })
    ?_ fun k' same => (wp_bind _).mpr ?_)⟩
  · exact live
  · exact continues k' (Aside.log.trans same)

/-- A thread that blocks itself never finds its processor without a successor. -/
theorem Coherent.successor (h : Coherent k) (running : (k.cpu c).current = some id)
    (worker : (k.cpu c).idle ≠ some id) : ∃ next u rest, Selected k c next u rest := by
  obtain ⟨idle, present⟩ := h.idle_of_current running
  refine h.exists_selected (by simp [present]) ?_
  rw [running]
  exact worker.symm

theorem Kernel.find_blocked {wait : WaitMetadata} (found : k.find id = some t)
    (live : k.find next = some u) (apart : next ≠ id) :
    (k.blocked c id next wait queue).find =
      update (update k.find id (some { t with wait := wait, state := .blocked }))
        next (some { u with state := .running }) :=
  find_handoff found live apart

/-- A thread that committed has a blocked registration. -/
theorem Kernel.committed_blocked (prepared : PreparedWait)
    (found : k.find prepared.token.thread = some t) (live : k.find next = some u)
    (apart : next ≠ prepared.token.thread)
    (active : t.wait.active = some ⟨prepared.token, .prepared, prepared.consumption⟩)
    (same : k'.scheduler =
      (k.blocked c prepared.token.thread next (t.wait.commit prepared).2 queue).scheduler) :
    ∀ w, k'.registration prepared.token = some w → w.phase ≠ .prepared := by
  intro w stored
  rw [registration_congr same] at stored
  obtain ⟨t', found', stored, _⟩ := registration_eq_some.mp stored
  rw [find_blocked found live apart, update_of_ne apart.symm,
    update_self] at found'
  obtain rfl := Option.some.inj found'
  have blocked : (t.wait.commit prepared).2.active =
      some ⟨prepared.token, .blocked, prepared.consumption⟩ := by
    simp [WaitMetadata.commit, active]
  obtain rfl := Option.mem_unique blocked stored
  simp

/-- Committing one's own registration blocks or consumes the early outcome. -/
theorem wp_commitPreparedWait (h : Steady c k) (online : (k.cpu c).online = true) {w : ActiveWait}
    (running : (k.cpu c).current = some prepared.token.thread)
    (registered : k.registration prepared.token = some w)
    (consumption : w.consumption = prepared.consumption) (awake : w.phase ≠ .blocked)
    {Q : CommitResult → Kernel → Prop}
    (post : ∀ result k', result ≠ .stale → Steady c k' → Calm c k k' →
      (∀ w, k'.registration prepared.token = some w → w.phase ≠ .prepared) → Q result k') :
    WP Contract (commitPreparedWait c prepared) Q k := by
  obtain ⟨t, found, active, named⟩ := registration_eq_some.mp registered
  have status := h.current_status running found
  have ok := h.thread _ t found
  have own : prepared.token.cpu = c := by
    rw [← named]
    exact ok.token_cpu status.1 w active
  obtain ⟨token, phase, consumption'⟩ := w
  subst consumption
  obtain rfl : token = prepared.token := named
  cases phase with
  | blocked => exact absurd rfl awake
  | prepared =>
    refine wp_commitWaitWith_block running found status (h.dispatch.started c _ running) active
      (h.toCoherent.successor running) fun next u rest selected worker apart => ?_
    have coherent := h.toCoherent.blocked _ running found active worker selected
    have quiet : Calm c k (k.blocked c prepared.token.thread next
        (t.wait.commit prepared).2 rest) := .blocked found selected.found apart active own
    refine ⟨coherent, fun m same => ?_⟩
    have aside : Calm c _ m := same.quiet
    have clocks : m.clocks = k.clocks := same.clocks
    have entered : (m.cpu c).online = true := by
      rw [(quiet.trans aside).online, online]
    refine wp_finishBlockCurrent (coherent.congr same.scheduler)
      (h.time.keep (quiet.trans aside).toWithin clocks) (fun other member => ?_) entered
      fun k' steady rest' scheduler => ?_
    · rw [events_congr clocks] at member
      exact Option.some.inj (((h.exact other).mp member).2.1.symm.trans running)
    · exact post _ k' (by simp) steady ((quiet.trans aside).trans rest')
        (committed_blocked prepared found selected.found apart active
          (scheduler.trans same.scheduler))
  | completed cause =>
    rw [commitPreparedWait, commitWaitWith, wp_bind]
    refine wp_transitionCommitWait_early h.toCoherent running found active fun coherent => ?_
    have quiet : Calm c k ((k.modifyThread prepared.token.thread.index fun t' =>
        { t' with wait := { t.wait with active := none } }).log
          (.committed prepared.token (.early cause))) := by
      refine Quiet.trans (.consume found rfl (ok.token_cpu status.1) fun w stored => Or.inr ?_) .log
      obtain rfl := Option.mem_unique active stored
      exact ⟨cause, rfl⟩
    refine post _ _ (by simp) (h.carry (coherent.log _) quiet.toWithin rfl rfl Iff.rfl) quiet
      fun w stored => ?_
    have finds := find_modifyThread_eq (f := fun t' =>
      { t' with wait := { t.wait with active := none } }) found
    cases ((registration_self finds rfl).mp stored).1

/-! ### Sleeping -/

/-- No join owns a token that was just prepared. -/
theorem Coherent.unjoined (h : Coherent k) {token : WaitToken} {w : ActiveWait}
    (registered : k.registration token = some w) (awake : w.phase ≠ .blocked) :
    ∀ other, k.joinerOf other ≠ some token := by
  intro other joined
  obtain ⟨t, found, active, _⟩ := registration_eq_some.mp registered
  obtain ⟨j, live, _, stored, _⟩ := h.join.joining other token joined
  obtain rfl := Option.mem_unique found live
  obtain rfl := Option.mem_unique active stored
  exact awake rfl

/-- The running thread as it is after it prepared a wait. -/
def Thread.preparing (t : Thread) (id : ThreadId) (consumption : WaitConsumption) : Thread :=
  { t with wait := ⟨t.wait.nextSequence + 1, some ⟨t.nextToken id, .prepared, consumption⟩⟩ }

theorem Kernel.find_preparing {consumption : WaitConsumption} (found : k.find id = some t) :
    (k.preparing id t consumption).find = update k.find id (some (t.preparing id consumption)) :=
  find_modifyThread_eq found

theorem wp_sleepUserUntilCounter (h : Steady c k) (online : (k.cpu c).online = true)
    {deadline : Nat} : Waits c k (sleepUserUntilCounter c deadline) := by
  rw [Waits, sleepUserUntilCounter, wp_bind]
  refine wp_transitionPrepareWaitWith h.toCoherent
    fun id t running found home inactive coherent => ?_
  have within : Within c (fun _ => False) k (k.preparing id t .automatic) :=
    .preparing found home inactive
  have time₁ : TimeOk ((k.preparing id t .automatic).log (.prepared (t.nextToken id))) :=
    h.time.keep (within.trans Quiet.log.toWithin) rfl
  have registered : (k.preparing id t .automatic).registration (t.nextToken id) =
      some ⟨t.nextToken id, .prepared, .automatic⟩ := by
    rw [registration_preparing found inactive, update_self]
  have pending : ((k.preparing id t .automatic).log (.prepared (t.nextToken id))).Pending
      (t.nextToken id) :=
    ⟨⟨_, registered, by simp⟩, coherent.unjoined registered (by simp)⟩
  rw [wp_bind]
  refine wp_publishSleepOwn time₁ (coherent.table.congr rfl) home fun k₂ slept => ?_
  obtain ⟨wait, quantum, single⟩ := time₁.events c
  have time₂ : TimeOk k₂ := by
    refine slept.time time₁ ?_ ?_ ?_
    · rintro owner token (same | ⟨queued, _⟩)
      · cases same
        exact ⟨home, home, pending⟩
      · exact wait owner token queued
    · rintro owner other (same | ⟨queued, _⟩)
      · cases same
      · exact quantum owner other queued
    · rintro first second (same | ⟨queued, _⟩) (same' | ⟨queued', _⟩)
      · cases same
      · cases same
      · cases same'
      · exact single first second queued queued'
  have none₂ : ∀ other, .quantumExpired c other ∉ k₂.events c := by
    intro other member
    rcases (slept.events _).mp member with same | ⟨queued, apart⟩
    · cases same
    · have current := ((h.exact other).mp queued).2.1
      obtain rfl := Option.mem_unique running current
      exact apart rfl
  have coherent₂ : Coherent k₂ := slept.coherent (coherent.log _)
  have found₂ : k₂.find id = some (t.preparing id .automatic) := by
    rw [find, slept.scheduler]
    exact (congrFun (find_preparing found) id).trans (update_self ..)
  have running₂ : (k₂.cpu c).current = some id := by rw [slept.cpu]; exact running
  have status := coherent₂.current_status running₂ found₂
  rw [wp_bind]
  refine wp_commitWaitWith_block running₂ found₂ status
    (coherent₂.dispatch.started c _ running₂) rfl (coherent₂.successor running₂)
    fun next u rest selected worker apart => ?_
  have active : (t.preparing id .automatic).wait.active =
      some ⟨t.nextToken id, .prepared, .automatic⟩ := rfl
  have blocked := coherent₂.blocked ⟨t.nextToken id, .automatic⟩ running₂ found₂ active worker
    selected
  have quiet : Calm c k₂ (k₂.blocked c id next
      ((t.preparing id .automatic).wait.commit ⟨t.nextToken id, .automatic⟩).2 rest) :=
    .blocked found₂ selected.found apart active home
  refine ⟨blocked, fun m same => ?_⟩
  have aside : Calm c k₂ m := quiet.trans same.quiet
  refine wp_finishBlockAfterQuantumCancel (blocked.congr same.scheduler)
    (time₂.keep aside.toWithin same.clocks) (fun other member => none₂ other ?_) ?_
    fun k' steady rest' scheduler => ?_
  · rwa [events_congr same.clocks] at member
  · rw [aside.online, slept.cpu]
    exact online
  · have later : Calm c k₂ k' := aside.trans rest'
    refine ⟨steady, .of_preparing found home inactive
      (Quiet.log.toClosed.trans (slept.closed.trans later.toClosed)) ?_,
      fun owner token queued => ?_,
      fun other token joined => Or.inl ?_⟩
    · exact committed_blocked ⟨t.nextToken id, .automatic⟩ found₂ selected.found apart active
        (scheduler.trans same.scheduler)
    · rcases (slept.events _).mp (later.timed owner token queued) with new | ⟨before, _⟩
      · cases new
        exact Or.inr ⟨t, running, found, rfl⟩
      · exact Or.inl before
    · have before := later.joined other token joined
      rw [joinerOf_congr slept.scheduler] at before
      exact (congrFun (joinerOf_preparing _ found) other).symm.trans before

end Genrt
