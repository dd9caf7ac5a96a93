import Genrt.Sched.Clock
import Genrt.Sched.Switch

/-!
# Specifications of wait completion

Completing changes something only when the token is the registered one and not
completed yet: a prepared wait keeps running, a blocked thread becomes ready on
its home processor. A completer outside the timer announces the first peer of
the current thread; the timer leaves that to its last section.
-/

namespace Genrt

open Effect WaitMetadata Kernel Function

variable {k : Kernel} {c : CpuId} {id : ThreadId} {t : Thread} {token : WaitToken}

variable {queue : BoundedQueue ThreadId}

namespace Kernel

/-- A change that leaves the thread in a slot as it is changes nothing. -/
theorem modifyThread_eq_self {index : Nat} {f : Thread → Thread}
    (found : k.threadAt index = some t) (same : f t = t) : k.modifyThread index f = k := by
  obtain ⟨slot, present, occupant⟩ := Option.bind_eq_some_iff.mp found
  have slots : k.scheduler.lifecycle.slots.modify index
      (fun slot => { slot with thread := slot.thread.map f }) = k.scheduler.lifecycle.slots := by
    refine List.ext_getElem? fun i => ?_
    rw [List.getElem?_modify]
    by_cases here : index = i
    · obtain ⟨generation, sequence, stack, thread⟩ := slot
      subst here occupant
      simp [present, same]
    · simp [here]
  rw [modifyThread, modifySlot, slots]
  rfl

/-- A blocked thread became ready in the queue of processor `c`. -/
def woken (k : Kernel) (c : CpuId) (id : ThreadId) (wait : WaitMetadata)
    (queue : BoundedQueue ThreadId) : Kernel :=
  (k.modifyThread id.index fun t => { t with wait := wait, state := .ready }).setCpu c
    { k.cpu c with readyQueue := queue }

theorem ready_woken {wait : WaitMetadata} : (k.woken c id wait queue).ready c = queue.items := by
  simp [woken]

/-- A blocked thread became ready in the ingress of processor `c`. -/
def posted (k : Kernel) (c : CpuId) (id : ThreadId) (wait : WaitMetadata)
    (queue : BoundedQueue ThreadId) : Kernel :=
  (k.modifyThread id.index fun t => { t with wait := wait, state := .ready }).setRemote c queue

end Kernel

/-- The first completion of a prepared wait leaves its thread running. -/
theorem ThreadOk.complete (ok : ThreadOk id t) (running : t.state = .running) {w : ActiveWait}
    {cause : WaitCause} (active : t.wait.active = some w) :
    ThreadOk id { t with
      wait := { t.wait with active := some { w with phase := .completed cause } } } := by
  obtain ⟨_, prepared, completed, exited, named, code, owner, detached⟩ := ok
  constructor <;> simp_all [isBlocked, isPrepared,
    isCompleted]

/-- The thread of a blocked wait with no join behind it. -/
structure Sleeper (k : Kernel) (id : ThreadId) (t : Thread) : Prop where
  found : k.find id = some t
  blocked : t.state = .blocked
  free : ∀ other token, k.joinerOf other = some token → token.thread ≠ id

namespace Sleeper

variable (h : Coherent k) (sleeper : Sleeper k id t)
include h sleeper

theorem worker : (k.cpu t.homeCpu).idle ≠ some id := by
  intro idle
  have := h.dispatch.idle_ok t.homeCpu id idle
  simp [sleeper.found, sleeper.blocked] at this

theorem ready_room : (k.ready t.homeCpu).length < (k.cpu t.homeCpu).readyQueue.capacity := by
  have room : (k.ready t.homeCpu).length + 2 ≤ k.slots.length := by
    refine h.room sleeper.found (sleeper.worker h) (h.housed id t sleeper.found) ?_
      (h.dispatch.queue_nodup _) fun _ => Or.inl
    intro member
    obtain ⟨u, found, _, state, _⟩ := h.find_of_queued (Or.inl member)
    obtain rfl := Option.mem_unique sleeper.found found
    cases sleeper.blocked.symm.trans state
  have := (h.cpu t.homeCpu).readyCapacity
  omega

theorem unposted : id ∉ k.remote t.homeCpu := by
  intro member
  obtain ⟨u, found, _, state, _⟩ := h.find_of_queued (Or.inr member)
  obtain rfl := Option.mem_unique sleeper.found found
  cases sleeper.blocked.symm.trans state

theorem remote_room :
    (k.remote t.homeCpu).length < (k.scheduler.remoteReady t.homeCpu).capacity := by
  have room : (k.remote t.homeCpu).length + 2 ≤ k.slots.length :=
    h.room sleeper.found (sleeper.worker h) (h.housed id t sleeper.found) (sleeper.unposted h)
      (h.dispatch.ingress_nodup _) fun _ => Or.inr
  have := (h.cpu t.homeCpu).remoteCapacity
  omega

end Sleeper

/-! ### Waking -/

variable {d : CpuId}

theorem Frame.notify : Frame c k (k.notify d) := by
  rw [Kernel.notify]
  split
  · exact .refl k
  · refine ⟨fun _ _ => rfl, fun _ _ => rfl, fun _ => rfl, rfl, fun e => ?_, fun e raised => ?_⟩
    · simp only [update_apply]
      split
      · next same => exact same ▸ Nat.le_succ _
      · exact le_rfl
    · by_cases same : e = d
      · subst same
        exact Or.inr (by simp)
      · refine Or.inl ?_
        change (k.setPending d true).scheduler.schedulerIpiPending e = true at raised
        rwa [pending_setPending, if_neg same] at raised

variable {touched : WaitToken → Prop}

theorem Quiet.notify : Quiet c touched k (k.notify d) := by
  refine .of_registration .notify (fun _ _ queued => ?_) ?_ fun other token owned => ?_
  · rwa [events_congr clocks_notify] at queued
  · funext other
    rw [registration, find_notify, registration]
  · rwa [joinerOf, find_notify] at owned

theorem Quiet.setRemote : Quiet c touched k (k.setRemote d queue) :=
  .of_scheduler (fun _ _ => rfl) rfl rfl rfl (fun _ same => same) rfl fun _ _ same => same

/-- A thread that is not in the ingress of another processor is posted there. -/
theorem wp_publishRemoteReady (fresh : id ∉ k.remote d)
    (room : (k.remote d).length < (k.scheduler.remoteReady d).capacity) {Q : Unit → Kernel → Prop}
    (post : ∀ queue : BoundedQueue ThreadId, queue.items = k.remote d ++ [id] →
      queue.capacity = (k.scheduler.remoteReady d).capacity →
      Q () ((k.setRemote d queue).notify d)) : WP Contract (publishRemoteReady id d) Q k := by
  obtain ⟨queue, pushed, items, capacity⟩ := BoundedQueue.pushBack_of_room room id
  rw [publishRemoteReady, wp_bind, wp_get, wp_bind, wp_stopIf]
  refine ⟨fun member => absurd member fresh, fun _ => ?_⟩
  rw [wp_bind, wp_orStop_some pushed, wp_bind, wp_modify]
  exact wp_requestSchedulerIpi (post queue items capacity)

/-! ### Completion -/

variable {consumption : WaitConsumption}

/-- A blocked wait that no join owns has a sleeping thread. -/
theorem Coherent.sleeper (h : Coherent k) (found : k.find token.thread = some t)
    (active : t.wait.active = some ⟨token, .blocked, consumption⟩)
    (free : ∀ other, k.joinerOf other ≠ some token) : Sleeper k token.thread t := by
  refine ⟨found, (h.thread _ t found).blocked.mpr (by simp [isBlocked, active]), ?_⟩
  intro other token' registered same
  obtain ⟨j, live, _, stored, _⟩ := h.join.joining other token' registered
  rw [same, found] at live
  obtain rfl := Option.some.inj live
  rw [active] at stored
  injection stored with stored
  injection stored with named
  exact free other (named ▸ registered)

section Complete

variable {cause : WaitCause} {notify : Bool} {Q : CompletionResult → Kernel → Prop}

/-- The kernel after a completion stored its outcome in the wait of its thread. -/
def Kernel.stored (k : Kernel) (token : WaitToken) (cause : WaitCause) (t : Thread) : Kernel :=
  k.modifyThread token.thread.index fun t' => { t' with wait := (t.wait.complete token cause).2 }

theorem wp_complete_live (found : k.find token.thread = some t) {E : Panic → Prop} :
    WP E (completeWaitTransition c token cause notify) Q k ↔
      WP E (do
          afterCompletion c token notify (t.wait.complete token cause).1
          validateAfterTransition
          pure (t.wait.complete token cause).1) Q
        ((k.stored token cause t).log
          (.completed token cause (t.wait.complete token cause).1)) := by
  rw [completeWaitTransition, wp_bind, wp_threadMatches, found]
  refine (wp_bind _).trans ((wp_threadWait (threadAt_of_find found)).trans ?_)
  exact (wp_bind _).trans wp_record

/-- The log says that a completion woke the thread. -/
abbrev Kernel.reported (k : Kernel) (token : WaitToken) (cause : WaitCause) : Kernel :=
  (k.log (.completed token cause .wokeBlocked)).log (.readied token)

variable {consumption : WaitConsumption}

theorem wp_complete_early (h : Coherent k) (found : k.find token.thread = some t)
    (active : t.wait.active = some ⟨token, .prepared, consumption⟩)
    (post : Coherent (k.stored token cause t) → Q .completedPrepared
      ((k.stored token cause t).log (.completed token cause .completedPrepared))) :
    WP Contract (completeWaitTransition c token cause notify) Q k := by
  have ok := h.thread _ t found
  have running := ok.prepared (by simp [isPrepared, active])
  have outcome : (t.wait.complete token cause).1 = .completedPrepared := by
    simp [complete, active]
  have coherent : Coherent (k.stored token cause t) := by
    refine h.touch found rfl rfl ?_ rfl (by simp [running])
    simpa [complete, active] using ok.complete running active
  have slot : (k.stored token cause t).threadAt token.thread.index =
      some { t with wait := (t.wait.complete token cause).2 } :=
    threadAt_modifyThread (threadAt_of_find found)
  rw [wp_complete_live found, outcome]
  refine .bind (.bind ((wp_threadState
    (k := (k.stored token cause t).log _) slot).mpr ?_))
  refine wp_stopIf.mpr ⟨fun awake => absurd running awake, fun _ => (wp_bind _).mpr ?_⟩
  exact (coherent.log _).wp_validateAfterTransition.mpr (post coherent)

/-- The thread of a completed blocked wait may become ready. -/
theorem ThreadOk.ready_of_complete (ok : ThreadOk token.thread t) (cause : WaitCause)
    (active : t.wait.active = some ⟨token, .blocked, consumption⟩) :
    ThreadOk token.thread { t with wait := (t.wait.complete token cause).2, state := .ready } := by
  have blocked := ok.blocked.mpr (by simp [isBlocked, active])
  generalize token.thread = id at ok ⊢
  obtain ⟨_, prepared, completed, exited, named, code, owner, detached⟩ := ok
  cases consumption <;> constructor <;>
    simp_all [WaitMetadata.complete, isBlocked, isPrepared, isCompleted]

theorem complete_blocked {w : WaitMetadata}
    (active : w.active = some ⟨token, .blocked, consumption⟩) :
    (w.complete token cause).1 = .wokeBlocked := by
  cases consumption <;> simp [complete, active]

/-- The thread of a blocked wait enters the queue of the executing processor. -/
theorem wp_complete_local {E : Panic → Prop} (h : Coherent k) (sleeper : Sleeper k token.thread t)
    (active : t.wait.active = some ⟨token, .blocked, consumption⟩) (home : t.homeCpu = c)
    (post : ∀ queue : BoundedQueue ThreadId, queue.items = k.ready c ++ [token.thread] →
      queue.capacity = (k.cpu c).readyQueue.capacity →
      Coherent (k.woken c token.thread (t.wait.complete token cause).2 queue) →
      WP E (onlyIf (notify = true ∧ k.ready c = []) (noteRunnablePeerAvailable c))
        (fun _ => WP E (onlyIf (notify = false) (requestRescheduleOn c))
          fun _ k' => Coherent k' ∧ Q .wokeBlocked k')
        ((k.woken c token.thread (t.wait.complete token cause).2 queue).reported token cause)) :
    WP E (completeWaitTransition c token cause notify) Q k := by
  have ok := (h.thread _ t sleeper.found).ready_of_complete cause active
  have found : ((k.stored token cause t).log (.completed token cause .wokeBlocked)).find
      token.thread = some { t with wait := (t.wait.complete token cause).2 } :=
    find_modifyThread_self sleeper.found
  have slot := threadAt_of_find found
  rw [wp_complete_live sleeper.found, complete_blocked active, wp_bind, afterCompletion,
    wakeBlocked, wp_bind, wp_threadState slot]
  refine .stopIf (fun awake => absurd sleeper.blocked awake) fun _ => ?_
  rw [wp_bind, wp_threadHomeCpu slot, wp_bind, wp_record, if_pos home, wp_bind, home]
  refine wp_makeReadyAndQueue_worker
    (k := (k.stored token cause t).reported token cause) found home ?_ ?_ ?_ ?_
  · have worker := sleeper.worker h
    rwa [home] at worker
  · intro queued member
    exact h.unqueued sleeper.found (Or.inl (by simp [sleeper.blocked])) queued member
  · have room := sleeper.ready_room h
    rwa [home] at room
  · intro queue items capacity
    have done := post queue items capacity
      (h.wake ⟨sleeper.found, sleeper.blocked, home, rfl, rfl, ok, rfl, sleeper.free⟩ items
        capacity rfl)
    have final : (((k.stored token cause t).reported token cause).modifyThread token.thread.index
        fun t => { t with state := .ready }).setCpu c { k.cpu c with readyQueue := queue } =
        (k.woken c token.thread (t.wait.complete token cause).2 queue).reported token cause := by
      simp [stored, woken, comp_def]
    rw [← final] at done
    refine done.mono fun _ _ requested => requested.mono fun _ k' => ?_
    rintro ⟨coherent, finished⟩
    exact .bind (coherent.wp_validateAfterTransition.mpr finished)

/-- The thread of a blocked wait enters the ingress of its home processor. -/
theorem wp_complete_remote (h : Coherent k) (sleeper : Sleeper k token.thread t)
    (active : t.wait.active = some ⟨token, .blocked, consumption⟩) (away : t.homeCpu ≠ c)
    (post : ∀ queue : BoundedQueue ThreadId, queue.items = k.remote t.homeCpu ++ [token.thread] →
      queue.capacity = (k.scheduler.remoteReady t.homeCpu).capacity →
      Coherent (((k.posted t.homeCpu token.thread (t.wait.complete token cause).2 queue).reported
        token cause).notify t.homeCpu) →
      Q .wokeBlocked (((k.posted t.homeCpu token.thread (t.wait.complete token cause).2
        queue).reported token cause).notify t.homeCpu)) :
    WP Contract (completeWaitTransition c token cause notify) Q k := by
  have ok := (h.thread _ t sleeper.found).ready_of_complete cause active
  let kept := (k.stored token cause t).log (.completed token cause .wokeBlocked)
  have slot : kept.threadAt token.thread.index =
      some { t with wait := (t.wait.complete token cause).2 } :=
    threadAt_of_find (find_modifyThread_self sleeper.found)
  rw [wp_complete_live sleeper.found, complete_blocked active, wp_bind, afterCompletion,
    wakeBlocked, wp_bind, wp_threadState slot]
  refine .stopIf (fun awake => absurd sleeper.blocked awake) fun _ => ?_
  rw [wp_bind, wp_threadHomeCpu slot, wp_bind, wp_record, if_neg away, wp_bind,
    wp_setState (k := kept.log (.readied token)) slot]
  refine wp_publishRemoteReady ?_ ?_ ?_
  · have unposted := sleeper.unposted h
    exact unposted
  · have room := sleeper.remote_room h
    exact room
  · intro queue items capacity
    have coherent : Coherent ((k.posted t.homeCpu token.thread (t.wait.complete token cause).2
        queue).setPending t.homeCpu true) :=
      h.post ⟨sleeper.found, sleeper.blocked, rfl, rfl, rfl, ok, rfl, sleeper.free⟩ items capacity
    have notified : Coherent (((k.posted t.homeCpu token.thread (t.wait.complete token cause).2
        queue).reported token cause).notify t.homeCpu) := coherent.congr notify_scheduler
    have done := post queue items capacity notified
    have final : (((k.stored token cause t).reported token cause).modifyThread token.thread.index
        fun t => { t with state := .ready }).setRemote t.homeCpu queue =
        (k.posted t.homeCpu token.thread (t.wait.complete token cause).2 queue).reported token
          cause := by
      simp [stored, posted, comp_def]
      rfl
    rw [← final] at done notified
    exact .bind (notified.wp_validateAfterTransition.mpr done)

end Complete

/-- What a completion of `token` by processor `c` leaves behind, whoever wins. -/
structure Completed (c : CpuId) (token : WaitToken) (cause : WaitCause) (k : Kernel)
    (result : CompletionResult) (k' : Kernel) : Prop where
  coherent : Coherent k'
  quiet : Quiet c (· = token) k k'
  held : ∀ other w, k.registration other = some w → w.phase ≠ .blocked →
    ∃ w', k'.registration other = some w' ∧ w'.consumption = w.consumption ∧ w'.phase ≠ .blocked
  cpu : k'.cpu c = { k.cpu c with readyQueue := (k'.cpu c).readyQueue }
  ready : ∃ more, k'.ready c = k.ready c ++ more
  others : ∀ id, id ≠ token.thread → k'.find id = k.find id
  joins : k'.joinerOf = k.joinerOf
  woke : ∀ t consumption, k.find token.thread = some t →
    t.wait.active = some ⟨token, .blocked, consumption⟩ → result = .wokeBlocked ∧
      k'.find token.thread =
        some { t with wait := (t.wait.complete token cause).2, state := .ready }

namespace Completed

variable {cause : WaitCause} {result : CompletionResult} {k' k'' : Kernel}

/-- Clocks, logs and preemption flags may change afterwards. -/
theorem after (h : Completed c token cause k result k') (same : k''.scheduler = k'.scheduler)
    (quiet : Quiet c (· = token) k' k'') : Completed c token cause k result k'' := by
  have finds : k''.find = k'.find := by
    funext id
    rw [find, same, find]
  have cpus : k''.cpu = k'.cpu := by
    funext d
    rw [Kernel.cpu, same, Kernel.cpu]
  have readies : k''.ready = k'.ready := by
    funext d
    rw [Kernel.ready, cpus, Kernel.ready]
  refine ⟨h.coherent.congr same, h.quiet.trans quiet, ?_, ?_, ?_, ?_,
    (joinerOf_congr same).trans h.joins, ?_⟩
  · rw [registration_congr same]
    exact h.held
  · rw [cpus]
    exact h.cpu
  · rw [readies]
    exact h.ready
  · rw [finds]
    exact h.others
  · rw [finds]
    exact h.woke

/-- Nothing was registered that the completion could end. -/
theorem of_lost (h : Coherent k)
    (lost : ∀ t, k.find token.thread = some t → (t.wait.complete token cause).1.wins = false) :
    Completed c token cause k result k where
  coherent := h
  quiet := .refl k
  held other w active phase := ⟨w, active, rfl, phase⟩
  cpu := rfl
  ready := ⟨[], (List.append_nil _).symm⟩
  others _ _ := rfl
  joins := rfl
  woke t consumption found active := by
    have := lost t found
    rw [complete_blocked active] at this
    cases this

/-- The wait of the token's thread took the completion. -/
theorem of_update {phase : WaitPhase} {state : ThreadState} (found : k.find token.thread = some t)
    (active : t.wait.active = some ⟨token, phase, consumption⟩)
    (unfinished : ∀ cause, phase ≠ .completed cause) (finds : k'.find = update k.find token.thread
      (some { t with wait := (t.wait.complete token cause).2, state := state }))
    (coherent : Coherent k') (frame : Frame c k k') (clocks : k'.clocks = k.clocks)
    (cpu : k'.cpu c = { k.cpu c with readyQueue := (k'.cpu c).readyQueue })
    (ready : ∃ more, k'.ready c = k.ready c ++ more)
    (woke : phase = .blocked → result = .wokeBlocked ∧ state = .ready) :
    Completed c token cause k result k' := by
  have kept : ∀ w, t.wait.active = some w → w.phase ≠ .blocked →
      ∃ w', (t.wait.complete token cause).2.active = some w' ∧ w'.token = w.token ∧
        w'.consumption = w.consumption ∧ w'.phase ≠ .blocked := by
    intro w stored awake
    obtain rfl := Option.mem_unique active stored
    cases phase with
    | prepared => simp [complete, active]
    | blocked => exact absurd rfl awake
    | completed cause => exact absurd rfl (unfinished cause)
  refine ⟨coherent, .of_wait frame clocks finds found rfl ?_ (fun w _ => kept w) ?_,
    fun other w => held_of_wait finds found (fun _ => True) (fun w _ => kept w) other w trivial,
    cpu, ready, ?_, joinerOf_update finds found rfl, ?_⟩
  · intro w stored apart
    obtain rfl := Option.mem_unique active stored
    exact absurd rfl apart
  · intro w stored prepared
    cases phase with
    | prepared =>
      obtain rfl : ⟨token, .completed cause, consumption⟩ = w := by
        simpa [complete, active] using stored
      cases prepared
    | blocked =>
      cases consumption with
      | explicit =>
        obtain rfl : ⟨token, .completed cause, .explicit⟩ = w := by
          simpa [complete, active] using stored
        cases prepared
      | automatic => simp [complete, active] at stored
    | completed cause => exact absurd rfl (unfinished cause)
  · intro id apart
    rw [finds, update_of_ne apart]
  · intro u consumption' live blocked
    obtain rfl := Option.mem_unique found live
    rw [active] at blocked
    cases blocked
    obtain ⟨rfl, rfl⟩ := woke rfl
    exact ⟨rfl, by rw [finds, update_self]⟩

end Completed

section Complete

variable {cause : WaitCause} {notify : Bool} {Q : CompletionResult → Kernel → Prop}

/-- Completing a wait, with the announcement of a local wake left open. -/
theorem wp_completeWaitTransition (h : Coherent k) (free : ∀ other, k.joinerOf other ≠ some token)
    (done : ∀ result k', Completed c token cause k result k' → k'.clocks = k.clocks →
      k'.ready c = k.ready c → Q result k')
    (woken : ∀ k', Completed c token cause k .wokeBlocked k' → k'.clocks = k.clocks →
      k'.ready c = k.ready c ++ [token.thread] →
      WP Contract (onlyIf (notify = true ∧ k.ready c = []) (noteRunnablePeerAvailable c))
        (fun _ => WP Contract (onlyIf (notify = false) (requestRescheduleOn c))
          fun _ k' => Coherent k' ∧ Q .wokeBlocked k') k') :
    WP Contract (completeWaitTransition c token cause notify) Q k := by
  cases found : k.find token.thread with
  | none =>
    rw [completeWaitTransition, wp_bind, wp_threadMatches, found]
    refine .bind (wp_record.mpr (done .stale _ ?_ rfl rfl))
    refine (Completed.of_lost h fun t live => ?_).after (by rfl) .log
    cases found.symm.trans live
  | some t =>
    have lost : ∀ result, result.wins = false → t.wait.complete token cause = (result, t.wait) →
        WP Contract (completeWaitTransition c token cause notify) Q k := by
      intro result loses outcome
      have same : k.stored token cause t = k := by
        rw [stored, outcome]
        exact modifyThread_eq_self (threadAt_of_find found) rfl
      have kept : Completed c token cause k result k := .of_lost h fun u live => by
        obtain rfl := Option.mem_unique found live
        rwa [outcome]
      rw [wp_complete_live found, same, outcome]
      cases result with
      | completedPrepared | wokeBlocked => cases loses
      | alreadyCompleted | stale =>
        refine .bind ((wp_pure ()).mpr ((wp_bind _).mpr ?_))
        exact (h.log _).wp_validateAfterTransition.mpr (done _ _ (kept.after (by rfl) .log) rfl rfl)
    cases active : t.wait.active with
    | none => exact lost .stale rfl (by simp [complete, active])
    | some w =>
      obtain ⟨named, phase, consumption⟩ := w
      by_cases same : named = token
      · subst same
        cases phase with
        | completed first =>
          exact lost .alreadyCompleted rfl (by simp [complete, active])
        | prepared =>
          refine wp_complete_early h found active fun coherent => done _ _ ?_ rfl rfl
          have stored : Completed c named cause k .completedPrepared (k.stored named cause t) :=
            .of_update found active (by simp) (find_modifyThread_eq found) coherent
              .modifyThread rfl rfl ⟨[], (List.append_nil _).symm⟩ (by simp)
          exact stored.after (by rfl) .log
        | blocked =>
          have sleeper := h.sleeper found active free
          by_cases home : t.homeCpu = c
          · refine wp_complete_local h sleeper active home fun queue items _ coherent => ?_
            refine woken _ (((Completed.of_update found active (by simp)
              (find_modifyThread_eq found) coherent
              (Frame.modifyThread.trans (.setCpu rfl)) rfl ?_ ⟨[named.thread], ?_⟩
              fun _ => ⟨rfl, rfl⟩).after (by rfl) .log).after (by rfl) .log) rfl ?_
            · simp [Kernel.woken]
            · exact ready_woken.trans items
            · exact ready_woken.trans items
          · refine wp_complete_remote h sleeper active home fun queue _ _ coherent => ?_
            refine done _ _ (.of_update found active (by simp) ?_ coherent (.trans ?_ .notify) ?_ ?_
              ⟨[], ?_⟩ fun _ => ⟨rfl, rfl⟩) ?_ ?_
            · rw [find_notify]
              exact find_modifyThread_eq found
            · exact .of_scheduler (fun _ _ => rfl) rfl rfl rfl fun _ same => same
            · rw [clocks_notify]
              rfl
            · rw [cpu_notify]
              rfl
            · rw [ready_notify, List.append_nil]
              rfl
            · rw [clocks_notify]
              rfl
            · rw [ready_notify]
              rfl
      · exact lost .stale rfl (by simp [complete, active, same])

/-- The timer completes without announcing the thread; it asks for a reschedule. -/
theorem wp_completeWaitForTimer (h : Coherent k) (free : ∀ other, k.joinerOf other ≠ some token)
    (post : ∀ result k', Completed c token cause k result k' → k'.clocks = k.clocks → Q result k') :
    WP Contract (completeWaitTransition c token cause false) Q k := by
  refine wp_completeWaitTransition h free
    (fun result k' done clocks _ => post result k' done clocks) fun k' done clocks _ => ?_
  refine wp_onlyIf.mpr ⟨fun announced => absurd announced.1 (by decide), fun _ => ?_⟩
  refine wp_onlyIf.mpr ⟨fun _ => ?_, fun quiet => absurd rfl quiet⟩
  have requested : Completed c token cause k .wokeBlocked
      (k'.setPreemption c (k'.preemption c).request) := done.after rfl (.of_scheduler
    (fun _ _ => rfl) rfl rfl rfl (fun _ same => same) rfl fun _ _ same => same)
  exact ⟨requested.coherent, post _ _ requested clocks⟩

/-- A completer outside the timer keeps the quantum event in step. -/
theorem wp_completeWait (h : Steady c k) (online : (k.cpu c).online = true)
    (free : ∀ other, k.joinerOf other ≠ some token)
    (untimed : .waitDeadlineOf token ∉ k.events token.cpu)
    (post : ∀ result k', Completed c token cause k result k' → Steady c k' → Q result k') :
    WP Contract (completeWaitTransition c token cause true) Q k := by
  have carry : ∀ result k', Completed c token cause k result k' → k'.clocks = k.clocks →
      TimeOk k' := by
    intro result k' done clocks
    refine h.time.carry done.quiet.toWithin clocks ?_
    rintro _ rfl d
    exact h.time.untimed untimed d d
  refine wp_completeWaitTransition h.toCoherent free (fun result k' done clocks same => ?_)
    fun m done clocks ready => ?_
  · refine post result k' done ⟨done.coherent, carry result k' done clocks, fun id => ?_⟩
    rw [events_congr clocks, h.exact id, done.cpu, same]
  · refine wp_announce h.exact online done.coherent (carry _ m done clocks) clocks done.cpu ready
      (by simp) fun k' same quiet steady => ?_
    refine wp_onlyIf.mpr ⟨fun silent => absurd silent (by decide), fun _ => ?_⟩
    exact ⟨steady.toCoherent, post _ _ (done.after same quiet.lift) steady⟩

end Complete

end Genrt
