import Genrt.Sched.Publish
import Genrt.Sched.Thread

/-!
# Specifications of checkpoints and scheduler interrupts

An entry that may hand the processor over finds and leaves the kernel in a
steady state: the scheduler invariant holds, the deadline queues are in order,
and the quantum event exists exactly when it is needed. It prepares no wait and
ends none that a deadline could still end.
-/

namespace Genrt

open Effect Kernel Function

variable {k k' : Kernel} {c : CpuId}

/-! ### Address spaces -/

theorem Aside.setUserSpace {space : CpuUserAddressSpace} : Aside k (k.setUserSpace c space) :=
  ⟨rfl, rfl, rfl⟩

theorem Aside.setPreemption {state : PreemptionState} : Aside k (k.setPreemption c state) :=
  ⟨rfl, rfl, rfl⟩

theorem Aside.log {event : Event} : Aside k (k.log event) := ⟨rfl, rfl, rfl⟩

variable {Q : Except VmError Unit → Kernel → Prop} {E : Panic → Prop}

theorem wp_clearUserAddressSpace (post : ∀ result k', Aside k k' → Q result k') :
    WP E (clearUserAddressSpace c) Q k := by
  rw [clearUserAddressSpace, wp_bind, wp_modify, wp_bind, wp_get, wp_ite]
  refine ⟨fun _ => post _ _ .setUserSpace, fun _ => ?_⟩
  rw [wp_ite]
  exact ⟨fun _ => post _ _ .setUserSpace, fun _ => post _ _ (.trans .setUserSpace .setUserSpace)⟩

theorem wp_activateUserAddressSpace {space : AddressSpaceId}
    (post : ∀ result k', Aside k k' → Q result k') :
    WP E (activateUserAddressSpace c space) Q k := by
  have same : Aside k k := ⟨rfl, rfl, rfl⟩
  rw [activateUserAddressSpace, wp_bind, wp_get, wp_ite]
  refine ⟨fun _ => post _ _ same, fun _ => ?_⟩
  rw [wp_ite]
  refine ⟨fun _ => post _ _ .setUserSpace, fun _ => ?_⟩
  rw [wp_ite]
  refine ⟨fun _ => post _ _ same, fun _ => ?_⟩
  rw [wp_ite]
  exact ⟨fun _ => post _ _ .setUserSpace, fun _ => post _ _ .setUserSpace⟩

variable {Q : Unit → Kernel → Prop} {id : ThreadId} {t : Thread}

/-- The address space follows the thread, or the architecture refuses. -/
theorem wp_activateThreadAddressSpace (found : k.find id = some t)
    (post : ∀ k', Aside k k' → Q () k') : WP Contract (activateThreadAddressSpace c id) Q k := by
  have finish : ∀ (result : Except VmError Unit) k', Aside k k' →
      WP Contract (stopIf (result ≠ .ok ()) .activationFailed) Q k' :=
    fun result k' same => wp_stopIf.mpr ⟨fun _ => rfl, fun _ => post k' same⟩
  rw [activateThreadAddressSpace, wp_bind, wp_threadAddressSpace (threadAt_of_find found)]
  cases t.user.map UserThreadResources.addressSpace with
  | some space => exact .bind (wp_activateUserAddressSpace finish)
  | none =>
    refine .bind (wp_cpuState.mpr (wp_ite.mpr ⟨fun _ => ?_, fun _ => ?_⟩))
    · rw [wp_bind, retainUserAddressSpaceForIdle, wp_bind, wp_modify, wp_pure]
      exact finish _ _ .setUserSpace
    · exact .bind (wp_clearUserAddressSpace finish)

/-! ### Optional switches -/

/-- A thread of an unprepared processor may be put back. -/
theorem Coherent.unprepared (h : Coherent k) (before : k.Unprepared c) (found : k.find id = some t)
    (home : t.homeCpu = c) : t.wait.isPrepared = false := by
  cases active : t.wait.active with
  | none => simp [WaitMetadata.isPrepared, active]
  | some w =>
    have named := (h.thread id t found).token w active
    have registered : k.registration w.token = some w :=
      registration_eq_some.mpr ⟨t, by rw [named]; exact found, active, rfl⟩
    have phase := before w.token w (by rw [named]; exact home) registered
    obtain ⟨token, phase', consumption⟩ := w
    cases phase' with
    | prepared => exact absurd rfl phase
    | blocked | completed => simp [WaitMetadata.isPrepared, active]

theorem Quiet.rotated {touched : WaitToken → Prop} {next : ThreadId} {u : Thread}
    {queue : BoundedQueue ThreadId} (found : k.find id = some t) (live : k.find next = some u)
    (apart : next ≠ id) : Quiet c touched k (k.rotated c id next queue) := by
  refine (Quiet.modifyThread (f := fun t => { t with state := .ready }) found rfl rfl).trans
    (.dispatched (t := u) ?_ rfl)
  rw [find_modifyThread_other found apart, live]

/-- The processor runs the head of its queue, if there is one. -/
theorem wp_handoffOptional (h : Coherent k) (before : k.Unprepared c)
    (running : (k.cpu c).current = some id)
    (post : ∀ k', Coherent k' → Calm c k k' → k'.clocks = k.clocks →
      (∃ next, (k'.cpu c).current = some next) → (k.ready c = [] → k'.cpu = k.cpu) → Q () k') :
    WP Contract (handoffOptional c) Q k := by
  rw [handoffOptional, wp_bind]
  cases head : k.ready c with
  | nil =>
    rw [wp_transitionOptionalSwitch_nil h running head]
    exact post k h (.refl k) rfl ⟨id, running⟩ fun _ => rfl
  | cons next rest =>
    obtain ⟨t, found, home, state⟩ := h.find_current running
    have queued : next ∈ k.ready c ∨ next ∈ k.remote c := Or.inl (by simp [head])
    obtain ⟨u, live, _, ready, _⟩ := h.find_of_queued queued
    have apart : next ≠ id := ne_of_state live found (by simp [ready, state])
    refine wp_transitionOptionalSwitch_cons h running found (h.unprepared before found home) head
      fun queue _ _ coherent => ?_
    have live' : (k.rotated c id next queue).find next = some { u with state := .running } := by
      rw [rotated, find_dispatched (t := u), update_self]
      rw [find_modifyThread_other found apart, live]
    refine wp_activateThreadAddressSpace live' fun k' same => ?_
    refine post k' (coherent.congr same.scheduler)
      ((Quiet.rotated found live apart).trans same.quiet) same.clocks ⟨next, ?_⟩ fun empty => ?_
    · rw [same.cpu, rotated, cpu_dispatched, if_pos rfl]
    · rw [head] at empty
      cases empty

/-! ### Checkpoints -/

/-- Replacing the event of the thread that ran before makes the state steady. -/
theorem wp_replaced {before : Kernel} (h : Steady c before) (coherent : Coherent k)
    (running : (before.cpu c).current = some id) (quiet : Calm c before k)
    (clocks : k.clocks = before.clocks) (online : (before.cpu c).online = true)
    (post : ∀ k', Steady c k' → Calm c before k' → Q () k') :
    WP Contract (replaceQuantumEvent c id) Q k := by
  have time : TimeOk k := h.time.keep quiet.toWithin clocks
  refine wp_replaceQuantumEvent time coherent.table (fun other member => ?_)
    fun k' retimed later time' exact => ?_
  · rw [events_congr clocks] at member
    exact Option.some.inj (((h.exact other).mp member).2.1.symm.trans running)
  · refine post k' ⟨retimed.coherent coherent, time', fun other => ?_⟩ (quiet.trans later)
    rw [exact other, retimed.cpu, retimed.ready, quiet.online, online]
    simp

theorem wp_checkpointHandoff (h : Steady c k) (before : k.Unprepared c) :
    Settles c k (checkpointHandoff c) := by
  rw [Settles, checkpointHandoff, wp_bind, wp_cpuState, wp_bind, consumeCheckpointOn, wp_modifyGet]
  have same : Aside k (k.setPreemption c
    ((k.preemption c).consumeCheckpoint (k.cpu c).online).2) := .setPreemption
  have steady := h.aside same
  have aside : Calm c k (k.setPreemption c
    ((k.preemption c).consumeCheckpoint (k.cpu c).online).2) := same.quiet
  refine wp_onlyIf.mpr ⟨fun consumed => ?_, fun _ => ⟨steady, aside⟩⟩
  have online : (k.cpu c).online = true := by
    by_contra offline
    rw [Bool.not_eq_true] at offline
    simp [PreemptionState.consumeCheckpoint, offline] at consumed
  rw [wp_bind, wp_runningThread]
  cases running : (k.cpu c).current with
  | none =>
    rw [same.cpu, running]
    exact ⟨steady, aside⟩
  | some id =>
    rw [same.cpu, running]
    refine .bind (wp_handoffOptional steady.toCoherent (aside.unprepared before)
      (by rw [same.cpu, running]) fun m coherent quiet clocks _ _ => ?_)
    exact wp_replaced steady coherent (by rw [same.cpu, running]) quiet clocks
      (by rw [same.cpu, online]) fun k' steady' quiet' => ⟨steady', aside.trans quiet'⟩

theorem wp_preemptCheckpoint (h : Steady c k) (online : (k.cpu c).online = true)
    (before : k.Unprepared c) : Settles c k (preemptCheckpoint c) := by
  rw [Settles, preemptCheckpoint, wp_bind]
  refine (wp_transitionFinalizeRetired h online).mono fun _ k₁ done => ?_
  exact (wp_checkpointHandoff done.2 (done.1.quiet.unprepared before)).after done.1.quiet

/-- A scheduler interrupt answers the notifications sent so far. -/
theorem wp_finishSchedulerIpi (h : Steady c k) (online : (k.cpu c).online = true)
    (before : k.Unprepared c) (post : ∀ k', Steady c k' → Calm c k k' →
      (k'.scheduler.schedulerIpiPending c = true → k.ipisSent c < k'.ipisSent c) → Q () k') :
    WP Contract (finishSchedulerIpi c) Q k := by
  rw [finishSchedulerIpi, wp_bind]
  refine (wp_transitionFinalizeRetired h online).mono fun _ k₁ done => ?_
  obtain ⟨finalized, steady₁⟩ := done
  have online₁ : (k₁.cpu c).online = true := by rw [finalized.cpu]; exact online
  rw [wp_bind, wp_cpuState, wp_onlyIf]
  refine ⟨fun _ => ?_, fun off => absurd online₁ off⟩
  rw [wp_bind]
  refine wp_consumeSchedulerIpi steady₁.toCoherent (by rw [finalized.cpu])
    fun k₂ coherent₂ ready₂ cpu₂ quiet₂ clocks₂ acknowledged => ?_
  have time₂ : TimeOk k₂ := steady₁.time.keep quiet₂.toWithin clocks₂
  have sound₂ : QuantumSound k₂ c := by
    intro id member
    rw [events_congr clocks₂] at member
    obtain ⟨_, running, filled⟩ := (steady₁.exact id).mp member
    refine ⟨by rw [cpu₂, running], ?_⟩
    rw [ready₂]
    simp [filled]
  rw [wp_bind]
  refine wp_noteRunnablePeerAvailable time₂ coherent₂.table fun k₃ noted => ?_
  have steady₃ : Steady c k₃ := by
    refine ⟨noted.coherent coherent₂, noted.time_ensured time₂ fun id member =>
      (sound₂ id member).1, fun id => ?_⟩
    rw [noted.quantum_ensured sound₂, noted.cpu, noted.ready, cpu₂, online₁]
    simp
  have quiet₃ : Calm c k₁ k₃ := quiet₂.trans noted.quiet_ensured
  refine (wp_checkpointHandoff steady₃
    (quiet₃.unprepared (finalized.quiet.unprepared before))).mono fun _ k' ⟨steady, quiet⟩ => ?_
  refine post k' steady (finalized.quiet.trans (quiet₃.trans quiet)) fun raised => ?_
  have later : Calm c k₂ k' := noted.quiet_ensured.trans quiet
  have sent := finalized.quiet.sent c
  rcases later.notified c raised with before | after
  · exact Nat.lt_of_le_of_lt sent (Nat.lt_of_lt_of_le (acknowledged before) (later.sent c))
  · exact Nat.lt_of_le_of_lt (sent.trans (quiet₂.sent c)) after

end Genrt
