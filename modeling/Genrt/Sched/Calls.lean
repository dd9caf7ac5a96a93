import Genrt.Sched.Bootstrap
import Genrt.Sched.Join

/-!
# Specifications of exit, spawn and processor entry

The remaining calls of running threads, and the two steps in which a processor
joins the scheduler: it creates and selects its idle thread, and later enters
the selected thread with its quantum event in place.
-/

namespace Genrt

open Effect Kernel

variable {k k' : Kernel} {c : CpuId} {id next : ThreadId} {t u : Thread}

/-! ### Exit -/

theorem Quiet.exited {touched : WaitToken → Prop} {code : Nat} {queue : BoundedQueue ThreadId}
    (found : k.find id = some t) (live : k.find next = some u) (apart : next ≠ id) :
    Quiet c touched k (k.exited c id next code queue) := by
  refine (Quiet.modifyThread (f := fun t => { t with exitCode := some code, state := .exited })
    found rfl rfl).trans (.dispatched (t := u) ?_ rfl)
  rw [find_modifyThread_other found apart, live]

variable {Q : Unit → Kernel → Prop}

theorem wp_detachExited (found : k.threadAt id.index = some t) (post : ∀ k', Aside k k' → Q () k') :
    WP Contract (detachExited c id next) Q k := by
  rw [detachExited, wp_bind, wp_threadAddressSpace found, wp_bind, wp_cpuState, wp_onlyIf]
  refine ⟨fun _ => ?_, fun _ => post k ⟨rfl, rfl, rfl⟩⟩
  rw [wp_bind]
  exact wp_clearUserAddressSpace fun result k' same =>
    wp_stopIf.mpr ⟨fun _ => rfl, fun _ => post k' same⟩

/-- The exiting thread has consumed its last wait. -/
theorem wp_exitCurrent (h : Steady c k) (online : (k.cpu c).online = true)
    (consumed : ∀ id t, (k.cpu c).current = some id → k.find id = some t → t.wait.active = none)
    {code : Nat} : Settles c k (exitCurrent c code) := by
  simp only [Settles, exitCurrent, assertPreemptionEnabledOn, wp_bind, wp_get, wp_stopIf]
  refine ⟨fun _ => rfl, fun _ => ?_⟩
  refine (wp_transitionFinalizeRetired h online).mono fun _ k₁ done => ?_
  obtain ⟨finalized, steady⟩ := done
  cases running : (k₁.cpu c).current with
  | none =>
    rw [transitionExitCurrent, wp_bind, wp_runningThread, running]
    exact (wp_bind _).mpr rfl
  | some id =>
    have before : (k.cpu c).current = some id := by rw [← running, finalized.cpu]
    obtain ⟨t, found₀, _, state⟩ := h.toCoherent.find_current before
    have found := finalized.running id t found₀ state
    refine wp_transitionExitCurrent steady.toCoherent running found (consumed id t before found₀)
      (by rw [finalized.cpu]) fun next u rest selected worker coherent => ?_
    have apart := ne_of_state selected.found found (by simp [selected.state, state])
    generalize shape : ((k₁.exited c id next code rest).log (.exited id code t.user)).notify c = k₂
    have same₂ : k₂.scheduler = ((k₁.exited c id next code rest).setPending c true).scheduler := by
      rw [← shape, notify_scheduler]
      rfl
    have quiet₂ : Calm c k₁ k₂ := by
      rw [← shape]
      exact (Quiet.trans (.exited found selected.found apart) .log).trans .notify
    have clocks₂ : k₂.clocks = k₁.clocks := by
      rw [← shape, clocks_notify]
      rfl
    have coherent₂ : Coherent k₂ := coherent.congr same₂
    have finds₂ : k₂.find = Function.update (Function.update k₁.find id
        (some { t with exitCode := some code, state := .exited })) next
          (some { u with state := .running }) := by
      rw [← shape, find_notify]
      exact find_handoff found selected.found apart
    have gone : k₂.find id = some { t with exitCode := some code, state := .exited } := by
      rw [finds₂, Function.update_of_ne apart.symm, Function.update_self]
    rw [wp_bind]
    refine wp_detachExited (threadAt_of_find gone) fun k₃ same₃ => ?_
    have started : k₃.find next = some { u with state := .running } := by
      rw [same₃.find, finds₂, Function.update_self]
    rw [wp_bind]
    refine wp_activateThreadAddressSpace started fun k₄ same₄ => ?_
    have same := same₃.trans same₄
    have quiet : Calm c k₁ k₄ := quiet₂.trans same.quiet
    have clocks : k₄.clocks = k₁.clocks := same.clocks.trans clocks₂
    refine wp_finishBlockCurrent (coherent₂.congr same.scheduler)
      (steady.time.keep quiet.toWithin clocks) (fun other member => ?_)
      (by rw [quiet.online, finalized.quiet.online, online]) fun k' steady' rest' _ => ?_
    · rw [events_congr clocks] at member
      exact Option.some.inj (((steady.exact other).mp member).2.1.symm.trans running)
    · exact ⟨steady', finalized.quiet.trans (quiet.trans rest')⟩

/-! ### Spawn -/

/-- Threads can be published on online processors. -/
theorem Coherent.housed_of_online (h : Coherent k) (online : (k.cpu c).online = true) :
    (k.cpu c).idle ≠ none := by
  obtain ⟨id, running⟩ := Option.ne_none_iff_exists'.mp
    ((h.cpu c).initialized.mp ((h.cpu c).online online))
  exact h.dispatch.started c id running

theorem wp_resolveAffinity {E : Panic → Prop} {affinity : ThreadAffinity}
    {Q : Except SpawnError CpuId → Kernel → Prop} (refused : ∀ error, Q (.error error) k)
    (resolved : ∀ target, (k.cpu target).online = true → Q (.ok target) k) :
    WP E (resolveAffinity c affinity) Q k := by
  rw [resolveAffinity.eq_def, wp_bind, wp_isRegistered, wp_ite]
  refine ⟨fun _ => refused _, fun _ => ?_⟩
  rw [wp_bind, wp_cpuState, wp_ite]
  exact ⟨fun _ => refused _, fun on => resolved _ (by simpa using on)⟩

/-- A slot is taken and published, or there is none. -/
theorem wp_spawn {α : Type} (h : Steady c k) (online : (k.cpu c).online = true) {target : CpuId}
    (there : (k.cpu target).online = true) {user : Option UserThreadResources} {joinable : Bool}
    (detached : joinable = false → user = none) {full : α} {made : ThreadId → α} :
    Settles c k (do
      match ← takeFreeSlot with
      | none => pure full
      | some index => made <$> transitionPublishRuntime c target index user joinable) := by
  rw [Settles, wp_bind]
  refine wp_takeFreeSlot (c := c) (fun _ => .refl h) fun index m back cpu quiet => ?_
  rw [wp_map]
  refine (wp_transitionPublishRuntime (back.symm ▸ h) (by rw [cpu, online]) ?_ detached).after quiet
  rw [cpu]
  exact h.toCoherent.housed_of_online there

variable {attrs : ThreadAttrs}

theorem wp_spawnThread (h : Steady c k) (online : (k.cpu c).online = true) :
    Settles c k (spawnThread c attrs) := by
  rw [Settles, spawnThread, wp_bind]
  refine (wp_transitionFinalizeRetired h online).mono fun _ k₁ done => ?_
  obtain ⟨finalized, steady⟩ := done
  rw [wp_bind]
  refine wp_resolveAffinity (fun _ => ⟨steady, finalized.quiet⟩) fun target there => ?_
  exact (wp_spawn steady (by rw [finalized.quiet.online, online]) there fun _ => rfl).after
    finalized.quiet

variable {addressSpace : AddressSpaceId} {stack : OwnedUserStack}

theorem wp_spawnUserThread (h : Steady c k) (online : (k.cpu c).online = true) :
    Settles c k (spawnUserThread c addressSpace stack attrs) := by
  rw [Settles, spawnUserThread, wp_bind]
  refine wp_resolveAffinity (fun _ => .refl h) fun target there => ?_
  refine wp_ite.mpr ⟨fun _ => .refl h, fun joinable => ?_⟩
  exact wp_spawn h online there fun off => absurd off joinable

/-! ### User resources -/

theorem wp_replaceCurrentUserResources (h : Steady c k) :
    Settles c k (replaceCurrentUserResources c addressSpace stack) := by
  rw [Settles, replaceCurrentUserResources, wp_bind, wp_runningThread]
  cases running : (k.cpu c).current with
  | none => exact .refl h
  | some id =>
    obtain ⟨t, found, _, state⟩ := h.toCoherent.find_current running
    have ok := h.thread id t found
    refine .bind ((wp_thread (threadAt_of_find found)).mpr ?_)
    cases owned : t.user with
    | none => exact .refl h
    | some old =>
      refine wp_ite.mpr ⟨fun _ => .refl h, fun matched => (wp_bind _).mpr ?_⟩
      refine wp_activateUserAddressSpace fun result k₁ same => ?_
      have steady₁ := h.aside same
      refine wp_ite.mpr ⟨fun _ => ⟨steady₁, same.quiet⟩, fun _ => ?_⟩
      have found₁ : k₁.find id = some t := by rw [same.find, found]
      refine .bind ((wp_threadMut (threadAt_of_find found₁)).mpr ?_)
      have quiet : Calm c k₁ (k₁.modifyThread id.index
          fun t => { t with user := some ⟨addressSpace, stack⟩ }) :=
        .modifyThread found₁ rfl rfl
      refine ⟨steady₁.carry (steady₁.toCoherent.touch found₁ rfl rfl ?_ rfl (by simp [state]))
        quiet.toWithin rfl rfl Iff.rfl, same.quiet.trans quiet⟩
      refine { ok with owner := ?_, detached := ?_ }
      · intro u given
        obtain rfl := Option.some.inj given
        exact not_not.mp matched
      · intro off
        have := (ok.detached off).1
        cases owned.symm.trans this

/-! ### Entering the scheduler -/

/-- The flags of a processor are not part of the core. -/
theorem Core.setFlags (h : Core k) {state : CpuSchedulerState}
    (current : state.current = (k.cpu c).current) (idle : state.idle = (k.cpu c).idle)
    (retired : state.retired = (k.cpu c).retired)
    (queue : state.readyQueue = (k.cpu c).readyQueue) : Core (k.setCpu c state) := by
  have idles : ∀ d, ((k.setCpu c state).cpu d).idle = (k.cpu d).idle := by
    intro d
    rw [cpu_setCpu]
    split
    · next same => rw [same, idle]
    · rfl
  have retireds : ∀ d, ((k.setCpu c state).cpu d).retired = (k.cpu d).retired := by
    intro d
    rw [cpu_setCpu]
    split
    · next same => rw [same, retired]
    · rfl
  refine ⟨?_, h.thread, fun id t found => ?_, ⟨h.join.joining, h.join.unique, fun id t found => ?_⟩,
    h.table.congr rfl⟩
  · rw [view_setCpu, current, idle, retired, queue]
    simpa using h.dispatch
  · rw [idles]
    exact h.housed id t found
  · rw [retireds]
    exact h.join.retired id t found

/-- A processor that runs a thread may go online. -/
theorem Coherent.enter (h : Coherent k) (running : (k.cpu c).current = some id) :
    Coherent (k.setCpu c { k.cpu c with online := true }) := by
  refine ⟨h.toCore.setFlags rfl rfl rfl rfl, ?_⟩
  refine CpuOk.keep_local (c := c) h.cpu (fun d apart => cpu_setCpu_of_ne apart) (by rfl)
    (by rfl) (by rfl) ?_
  obtain ⟨flag, _, notified, ready, ingress⟩ := h.cpu c
  refine ⟨?_, ?_, ?_, ?_, ingress⟩ <;> rw [cpu_setCpu_self]
  · exact flag
  · exact fun _ => h.initialized running
  · exact notified
  · exact ready

/-- A processor that was not online enters its current thread. -/
theorem wp_prepareRunningThreadEntry (h : Steady c k) (post : ∀ m, Calm c k m →
      Steady c (m.setCpu c { m.cpu c with online := true }) →
      Q () (m.setCpu c { m.cpu c with online := true })) :
    WP Contract (prepareRunningThreadEntry c) Q k := by
  rw [prepareRunningThreadEntry, wp_bind, wp_runningThread]
  refine .orStop (fun _ => rfl) fun id running => ?_
  obtain ⟨t, found, _, state⟩ := h.toCoherent.find_current running
  rw [wp_bind, wp_cpuState]
  refine .stopIf (fun _ => rfl) fun offline => ?_
  have none : ∀ id, .quantumExpired c id ∉ k.events c :=
    fun id member => offline ((h.exact id).mp member).1
  rw [wp_bind]
  refine wp_ensureQuantumEvent h.time h.table fun k₁ ensured => ?_
  have coherent₁ := ensured.coherent h.toCoherent
  have time₁ := ensured.time_ensured h.time fun id member => absurd member (none id)
  have found₁ : k₁.find id = some t := by
    rw [find, ensured.scheduler]
    exact found
  rw [wp_bind]
  refine wp_activateThreadAddressSpace found₁ fun m same => ?_
  have quiet : Calm c k m := ensured.quiet_ensured.trans same.quiet
  have coherent : Coherent m := coherent₁.congr same.scheduler
  rw [wp_modifyCpu]
  have running' : (m.cpu c).current = some id := by rw [same.cpu, ensured.cpu, running]
  refine post m quiet ⟨coherent.enter running', ?_, fun other => ?_⟩
  · have time := time₁.keep (same.quiet (c := c)).toWithin same.clocks
    intro d state present
    obtain ⟨wf, capacity, wait, quantum, single⟩ := time d state present
    exact ⟨wf, capacity, wait, quantum, single⟩
  · have events : (m.setCpu c { m.cpu c with online := true }).events c = k₁.events c :=
      congrFun (events_congr same.clocks) c
    rw [events, ensured.quantum_ensured fun id member => absurd member (none id),
      ready_setCpu_self, cpu_setCpu_self, same.cpu, ensured.cpu]
    simp [Kernel.ready]

end Genrt
