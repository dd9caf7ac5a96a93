import Genrt.Sched.Select

/-!
# Specifications of the switching transitions

From a state that satisfies the scheduler invariant, every transition that hands
a processor over returns, ends in a state that satisfies it again, and changes
nothing that belongs to other processors. The rules give the final state in full.
-/

namespace Genrt

open Effect Kernel WaitMetadata Function

variable {E : Panic → Prop} {k : Kernel} {c : CpuId}

namespace Coherent

variable {id next : ThreadId} {t : Thread}

/-- A thread that is not ready is not queued, and neither is its slot. -/
theorem unqueued (h : Coherent k) (found : k.find id = some t)
    (away : t.state ≠ .ready ∨ t.homeCpu ≠ c) : ∀ queued ∈ k.ready c, queued.index ≠ id.index := by
  intro queued member same
  have somewhere : queued ∈ k.ready c ∨ queued ∈ k.remote c := Or.inl member
  obtain ⟨u, found', home, state, _⟩ := h.find_of_queued somewhere
  obtain rfl := find_unique found' found same
  obtain rfl := Option.mem_unique found found'
  rcases away with away | away
  · exact away state
  · exact away home

end Coherent

variable {next id : ThreadId} {Q : SwitchOutcome → Kernel → Prop} {t : Thread}

/-- The processor after the current thread was put back and another one started. -/
def Kernel.rotated (k : Kernel) (c : CpuId) (id next : ThreadId) (queue : BoundedQueue ThreadId) :
    Kernel :=
  (k.modifyThread id.index fun t => { t with state := .ready }).dispatched c next
    { k.cpu c with readyQueue := queue }

theorem wp_transitionOptionalSwitch_nil (h : Coherent k) (running : (k.cpu c).current = some id)
    (empty : k.ready c = []) : WP E (transitionOptionalSwitch c) Q k ↔ Q .continueCurrent k := by
  obtain ⟨t, found, status⟩ := h.find_current running
  simp [transitionOptionalSwitch, running, wp_assertCurrentRunning running found status,
    wp_readyPopFront_nil empty, h.wp_validateAfterTransition]

variable {rest : List ThreadId}

/-- The head of the queue takes over; the self-check is still to come. -/
theorem wp_transitionOptionalSwitch_unchecked (h : Coherent k)
    (running : (k.cpu c).current = some id) (found : k.find id = some t)
    (head : k.ready c = next :: rest) (post : ∀ queue : BoundedQueue ThreadId,
      queue.items = (if (k.cpu c).idle = some id then rest else rest ++ [id]) →
      queue.capacity = (k.cpu c).readyQueue.capacity →
      WP E (do validateAfterTransition; pure (.switch id next)) Q (k.rotated c id next queue)) :
    WP E (transitionOptionalSwitch c) Q k := by
  obtain ⟨home, state⟩ := h.current_status running found
  obtain ⟨u, popped, selected, left, _⟩ := h.selected_head head
  have filled : k.ready c ≠ [] := by simp [head]
  have apart := ne_of_state selected.found found (by simp [selected.state, state])
  have live := find_modifyThread_other
    (f := fun t => { t with state := .ready }) found apart
  rw [transitionOptionalSwitch, wp_bind, wp_runningThread, running]
  refine .bind ((wp_assertCurrentRunning running found ⟨home, state⟩).mpr ?_)
  refine .bind ((wp_readyPopFront_cons selected filled).mpr ?_)
  refine (wp_bind _).mpr ?_
  by_cases idle : (k.cpu c).idle = some id
  · -- An idle thread leaves the queue as it is.
    have done := post popped (by rw [if_pos idle, left]) selected.capacity
    refine (wp_makeReadyAndQueue_idle (t := t) ?_ ?_).mpr
      (.bind ((wp_makeRunning (t := u) ?_ selected.state selected.home).mpr ?_))
    · exact found
    · simpa using idle
    · exact live.trans selected.found
    · simpa [rotated] using done
  · refine wp_makeReadyAndQueue_worker (t := t) ?_ home ?_ ?_ ?_ fun queue items capacity => ?_
    · exact found
    · simpa using idle
    · intro queued member
      refine h.unqueued (c := c) found (Or.inl (by simp [state])) queued ?_
      rw [ready_setCpu_self] at member
      rw [head, ← left]
      exact .tail _ member
    · rw [ready_setCpu_self, cpu_setCpu_self]
      have fits := (k.cpu c).readyQueue.fits
      have count : (k.ready c).length = popped.items.length + 1 := by rw [head, left]; rfl
      change popped.items.length < popped.capacity
      rw [selected.capacity]
      exact Nat.lt_of_succ_le (Nat.le_trans (Nat.le_of_eq count.symm) fits)
    · rw [ready_setCpu_self, left] at items
      rw [cpu_setCpu_self] at capacity
      have done := post queue (by rw [if_neg idle, items]) (capacity.trans selected.capacity)
      refine wp_onlyIf.mpr ⟨fun no => absurd no.1 (by decide), fun _ => ?_⟩
      refine .bind ((wp_makeRunning (t := u) ?_ selected.state selected.home).mpr ?_)
      · exact live.trans selected.found
      · simpa [rotated] using done

theorem wp_transitionOptionalSwitch_cons (h : Coherent k) (running : (k.cpu c).current = some id)
    (found : k.find id = some t) (unprepared : t.wait.isPrepared = false)
    (head : k.ready c = next :: rest) (post : ∀ queue : BoundedQueue ThreadId,
      queue.items = (if (k.cpu c).idle = some id then rest else rest ++ [id]) →
      queue.capacity = (k.cpu c).readyQueue.capacity →
      Coherent (k.rotated c id next queue) →
      Q (.switch id next) (k.rotated c id next queue)) : WP E (transitionOptionalSwitch c) Q k := by
  refine wp_transitionOptionalSwitch_unchecked h running found head fun queue items capacity => ?_
  have kept : (k.cpu c).idle ≠ some id ∧ queue.items = rest ++ [id] ∨
      (k.cpu c).idle = some id ∧ queue.items = rest := by
    by_cases idle : (k.cpu c).idle = some id
    · exact Or.inr ⟨idle, by rw [items, if_pos idle]⟩
    · exact Or.inl ⟨idle, by rw [items, if_neg idle]⟩
  have coherent : Coherent (k.rotated c id next queue) :=
    h.rotate running found rfl rfl unprepared head rfl capacity kept
  rw [wp_bind, coherent.wp_validateAfterTransition]
  exact post queue items capacity coherent

/-! ### Blocking -/

/-- A prepared wait may block its thread. -/
theorem ThreadOk.block {w : ActiveWait} (ok : ThreadOk id t) (running : t.state = .running)
    (active : t.wait.active = some w) :
    ThreadOk id { t with
      wait := { t.wait with active := some { w with phase := .blocked } }, state := .blocked } := by
  obtain ⟨blocked, prepared, completed, exited, token, code, owner, detached⟩ := ok
  constructor <;> simp_all [isBlocked, isPrepared,
    isCompleted]

/-- The processor after the current thread blocked and another one started. -/
def Kernel.blocked (k : Kernel) (c : CpuId) (id next : ThreadId) (wait : WaitMetadata)
    (queue : BoundedQueue ThreadId) : Kernel :=
  (k.modifyThread id.index fun t => { t with wait := wait, state := .blocked }).dispatched c next
    { k.cpu c with readyQueue := queue }

variable {prepared : PreparedWait}

/-- A commit of the thread's own prepared wait blocks it. Whether the resulting
state satisfies the invariant is left to the callers: a join registers itself
with its target between preparing and committing. -/
theorem wp_transitionCommitWait_block (running : (k.cpu c).current = some id)
    (found : k.find id = some t) (status : t.homeCpu = c ∧ t.state = .running)
    (housed : (k.cpu c).idle ≠ none)
    (active : t.wait.active = some ⟨prepared.token, .prepared, prepared.consumption⟩)
    {Q : CommitState × Option SwitchOutcome → Kernel → Prop}
    (select : (k.cpu c).idle ≠ some id → ∃ next u rest, Selected k c next u rest)
    (post : ∀ next u rest, Selected k c next u rest → (k.cpu c).idle ≠ some id →
      Coherent (k.blocked c id next (t.wait.commit prepared).2 rest) ∧
      Q (.block prepared.token, some (.switch id next))
        ((k.blocked c id next (t.wait.commit prepared).2 rest).log
          (.committed prepared.token (.block prepared.token)))) :
    WP Contract (transitionCommitWait c prepared) Q k := by
  obtain ⟨idle, present⟩ := Option.ne_none_iff_exists'.mp housed
  have slot := threadAt_of_find found
  have commit : (t.wait.commit prepared).1 = .block prepared.token := by
    simp [commit, active]
  rw [transitionCommitWait, wp_bind]
  simp only [assertPreemptionEnabledOn, wp_bind, wp_get, wp_stopIf]
  refine ⟨fun _ => rfl, fun _ => ?_⟩
  rw [wp_runningThread, wp_orStop_some running, wp_assertCurrentRunning running found status,
    wp_idleThread present]
  refine ⟨fun _ => rfl, fun apart => ?_⟩
  have worker : (k.cpu c).idle ≠ some id := by
    rw [present]
    exact fun same => apart (Option.some.inj same).symm
  obtain ⟨next, u, rest, selected⟩ := select worker
  obtain ⟨coherent, done⟩ := post next u rest selected worker
  have apart := ne_of_state selected.found found (by simp [selected.state, status.2])
  rw [wp_threadWait slot, wp_record, commit]
  have selected' := selected.modifyThread found apart
    fun t' => { t' with wait := (t.wait.commit prepared).2 }
  refine .bind ((wp_selectNext (selected'.congr (by rfl) (by rfl) (by rfl))).mpr ?_)
  refine .bind ((wp_setState (t := { t with wait := (t.wait.commit prepared).2 })
    (threadAt_modifyThread slot)).mpr (.bind ?_))
  refine (wp_makeRunning (t := u) ?_ selected.state selected.home).mpr (.bind ?_)
  · simpa using (selected.modifyThread found apart _).found
  · refine Coherent.wp_validateAfterTransition ?_ |>.mpr ?_
    · simpa [blocked, comp_def] using coherent.log _
    · simpa [blocked, comp_def] using done

/-- The outcome of a wait may be taken by its running thread. -/
theorem ThreadOk.consume (ok : ThreadOk id t) (running : t.state = .running) {wait : WaitMetadata}
    (active : wait.active = none) : ThreadOk id { t with wait := wait } := by
  obtain ⟨blocked, prepared, completed, exited, token, code, owner, detached⟩ := ok
  constructor <;> simp_all [isBlocked, isPrepared,
    isCompleted]

/-- A commit of a completed wait consumes it and lets the thread continue. -/
theorem wp_transitionCommitWait_early (h : Coherent k) {cause : WaitCause}
    (running : (k.cpu c).current = some id) (found : k.find id = some t)
    (active : t.wait.active = some ⟨prepared.token, .completed cause, prepared.consumption⟩)
    {Q : CommitState × Option SwitchOutcome → Kernel → Prop}
    (post : Coherent (k.modifyThread id.index fun t' =>
        { t' with wait := { t.wait with active := none } }) →
      Q (.early cause, none) ((k.modifyThread id.index fun t' =>
        { t' with wait := { t.wait with active := none } }).log
          (.committed prepared.token (.early cause)))) :
    WP Contract (transitionCommitWait c prepared) Q k := by
  have status := h.current_status running found
  obtain ⟨idle, present⟩ := h.idle_of_current running
  have slot := threadAt_of_find found
  have commit : t.wait.commit prepared = (.early cause, { t.wait with active := none }) := by
    simp [commit, active]
  have coherent := h.touch (f := fun t' => { t' with wait := { t.wait with active := none } })
    found rfl rfl ((h.thread id t found).consume status.2 rfl) rfl (by simp [status.2])
  rw [transitionCommitWait, wp_bind]
  simp only [assertPreemptionEnabledOn, wp_bind, wp_get, wp_stopIf]
  refine ⟨fun _ => rfl, fun _ => ?_⟩
  rw [wp_runningThread, wp_orStop_some running, wp_assertCurrentRunning running found status,
    wp_idleThread present]
  refine ⟨fun _ => rfl, fun _ => ?_⟩
  rw [wp_threadWait slot, wp_record, commit]
  exact .bind ((coherent.log _).wp_validateAfterTransition.mpr (post coherent))

/-! ### Exit and first dispatch -/

/-- A running thread without a wait may exit. -/
theorem ThreadOk.exit {id : ThreadId} {t : Thread} (ok : ThreadOk id t)
    (idle : t.wait.active = none) (code : Nat) :
    ThreadOk id { t with exitCode := some code, state := .exited } := by
  obtain ⟨blocked, prepared, completed, exited, token, _, owner, detached⟩ := ok
  constructor <;> simp_all [isBlocked, isPrepared,
    isCompleted]

/-- The processor after the current thread exited and another one started. -/
def Kernel.exited (k : Kernel) (c : CpuId) (id next : ThreadId) (code : Nat)
    (queue : BoundedQueue ThreadId) : Kernel :=
  (k.modifyThread id.index fun t => { t with exitCode := some code, state := .exited }).dispatched
    c next { k.cpu c with readyQueue := queue, retired := some id }

/-- A notification is sent unless one is on its way. -/
def Kernel.notify (k : Kernel) (c : CpuId) : Kernel :=
  if k.scheduler.schedulerIpiPending c then k
  else { k.setPending c true with
    ipisSent := update k.ipisSent c (k.ipisSent c + 1) }

theorem wp_requestSchedulerIpi {Q : Unit → Kernel → Prop} (post : Q () (k.notify c)) :
    WP Contract (requestSchedulerIpi c) Q k := by
  rw [notify] at post
  rw [requestSchedulerIpi, wp_bind, wp_get, wp_onlyIf]
  split at post
  · next sent => exact ⟨fun unsent => absurd sent (by simp [unsent]), fun _ => post⟩
  · next unsent =>
    refine ⟨fun _ => ?_, fun sent => absurd unsent (by simpa using sent)⟩
    rw [wp_bind, wp_modify, wp_bind, wp_stopIf]
    exact ⟨fun _ => rfl, fun _ => post⟩

theorem Kernel.notify_scheduler : (k.notify c).scheduler = (k.setPending c true).scheduler := by
  rw [notify]
  split
  · next sent =>
    simp only [setPending]
    rw [← sent, update_eq_self]
  · rfl

@[simp] theorem Kernel.find_notify : (k.notify c).find = k.find := by
  funext id
  rw [find, notify_scheduler]
  rfl

@[simp] theorem Kernel.cpu_notify : (k.notify c).cpu = k.cpu := by
  funext d
  rw [cpu, notify_scheduler]
  rfl

@[simp] theorem Kernel.ready_notify : (k.notify c).ready = k.ready := by
  funext d
  rw [ready, cpu_notify, ready]

@[simp] theorem Kernel.clocks_notify : (k.notify c).clocks = k.clocks := by
  rw [notify]
  split <;> rfl

/-- The exiting thread must have consumed its waits. -/
theorem wp_transitionExitCurrent (h : Coherent k) {code : Nat}
    (running : (k.cpu c).current = some id) (found : k.find id = some t)
    (consumed : t.wait.active = none) (finalized : (k.cpu c).retired = none)
    (post : ∀ next u rest, Selected k c next u rest → (k.cpu c).idle ≠ some id →
      Coherent ((k.exited c id next code rest).setPending c true) → Q (.switch id next)
        (((k.exited c id next code rest).log (.exited id code t.user)).notify c)) :
    WP Contract (transitionExitCurrent c code) Q k := by
  have status := h.current_status running found
  obtain ⟨idle, present⟩ := h.idle_of_current running
  have slot := threadAt_of_find found
  rw [transitionExitCurrent, wp_bind, wp_runningThread, wp_bind, wp_orStop_some running, wp_bind,
    wp_assertCurrentRunning running found status, wp_bind, wp_idleThread present]
  refine .stopIf (fun _ => rfl) fun apart => ?_
  have worker : (k.cpu c).idle ≠ some id := by
    rw [present]
    exact fun same => apart (Option.some.inj same).symm
  obtain ⟨next, u, rest, selected⟩ := h.exists_selected (c := c) (by simp [present])
    (by rw [running]; exact fun same => worker same.symm)
  have apart := ne_of_state selected.found found (by simp [selected.state, status.2])
  have coherent : Coherent ((k.exited c id next code rest).setPending c true) :=
    h.exit running found rfl rfl status.1
      ((h.thread id t found).exit consumed code) rfl worker selected rfl rfl finalized
  have done := post next u rest selected worker coherent
  rw [wp_bind, wp_cpuState, wp_bind, wp_stopIf]
  refine ⟨fun left => absurd left (by simp [finalized]), fun _ => ?_⟩
  refine .bind ((wp_threadMut slot).mpr ?_)
  refine .bind ((wp_setState (threadAt_modifyThread slot)).mpr ?_)
  refine .bind ((wp_thread (threadAt_modifyThread
    (threadAt_modifyThread slot))).mpr ?_)
  refine .bind (wp_record.mpr (.bind (wp_modifyCpu.mpr ?_)))
  have selected' := selected.modifyThread found apart
    fun t => { t with exitCode := some code, state := .exited }
  refine .bind ((wp_selectNext (selected'.congr ?_ ?_ ?_)).mpr ?_)
  · simp [comp_def]
  · simp
  · simp
  refine .bind ((wp_makeRunning (t := u) ?_ selected.state selected.home).mpr ?_)
  · simpa [comp_def] using selected'.found
  refine .bind (wp_requestSchedulerIpi ?_)
  have final : Coherent (((k.exited c id next code rest).log (.exited id code t.user)).notify c) :=
    coherent.congr notify_scheduler
  refine .bind ((Coherent.wp_validateAfterTransition ?_).mpr ?_)
  · simpa [exited, comp_def] using final
  · simpa [exited, comp_def] using done

/-- A processor that runs nothing yet starts the selected thread. -/
theorem wp_transitionInitialDispatch (h : Coherent k) (vacant : (k.cpu c).current = none)
    (housed : (k.cpu c).idle ≠ none) {Q : Except SchedError Unit → Kernel → Prop}
    (post : ∀ next u rest, Selected k c next u rest →
      Coherent (k.dispatched c next { k.cpu c with readyQueue := rest, initialized := true }) →
      Q (.ok ()) (k.dispatched c next { k.cpu c with readyQueue := rest, initialized := true })) :
    WP Contract (transitionInitialDispatch c) Q k := by
  obtain ⟨next, u, rest, selected⟩ := h.exists_selected housed (by simpa [vacant] using housed.symm)
  have coherent : Coherent
      (k.dispatched c next { k.cpu c with readyQueue := rest, initialized := true }) :=
    h.start vacant selected rfl rfl rfl
  have done := post next u rest selected coherent
  rw [transitionInitialDispatch, wp_bind, wp_cpuState, vacant]
  refine .bind ((wp_selectNext selected).mpr ((wp_bind _).mpr
    ((wp_makeRunning (t := u) ?_ selected.state selected.home).mpr
      (.bind (wp_modifyCpu.mpr ((wp_bind _).mpr
        ((Coherent.wp_validateAfterTransition ?_).mpr ?_)))))))
  · exact selected.found
  · simpa [dispatched] using coherent
  · simpa [dispatched] using done

end Genrt
