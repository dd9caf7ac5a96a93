import Genrt.Evolution

/-!
# What the scheduler guarantees

The results below hold in every state that any interleaving of critical sections
reaches after boot. They follow from the invariant of the whole kernel.
-/

namespace Genrt

open Effect Kernel

/-! ### The scheduler's self-check -/

/-- The conditions of the self-check, spelled out over live threads. -/
structure Kernel.Valid (k : Kernel) : Prop where
  current : ∀ c, (k.cpu c).initialized = true → ∃ id t, (k.cpu c).current = some id ∧
    k.find id = some t ∧ t.homeCpu = c ∧ t.state = .running
  running : ∀ id t, k.find id = some t → t.state = .running →
    (k.cpu t.homeCpu).initialized = true ∧ (k.cpu t.homeCpu).current = some id
  ready : ∀ id t, k.find id = some t → t.state = .ready → (k.cpu t.homeCpu).idle ≠ some id →
    (k.ready t.homeCpu ++ k.remote t.homeCpu).count id = 1 ∧
      ∀ d, d ≠ t.homeCpu → id ∉ k.ready d ∧ id ∉ k.remote d
  queued : ∀ c id, id ∈ k.ready c ∨ id ∈ k.remote c →
    ∃ t, k.find id = some t ∧ t.homeCpu = c ∧ t.state = .ready ∧ (k.cpu c).idle ≠ some id
  free : ∀ (i : Nat) slot, k.slots[i]? = some slot → slot.thread = none →
    ∀ c id, id ∈ k.ready c ∨ id ∈ k.remote c → id.index ≠ i
  blocked : ∀ id t, k.find id = some t → (t.state = .blocked ↔ t.wait.isBlocked = true)
  prepared : ∀ id t, k.find id = some t → t.wait.isPrepared = true → t.state = .running
  completed : ∀ id t, k.find id = some t → t.wait.isCompleted = true →
    t.state = .ready ∨ t.state = .running
  exited : ∀ id t, k.find id = some t → t.state = .exited → t.wait.isNone = true
  retired : ∀ c id, (k.cpu c).retired = some id → (k.cpu c).current ≠ some id ∧
    ∃ t, k.find id = some t ∧ t.homeCpu = c ∧ t.state = .exited

namespace Coherent

variable {k : Kernel} (h : Coherent k)
include h

/-- A non-idle ready thread is queued once, at home. -/
theorem count_queued {id : ThreadId} {t : Thread} (found : k.find id = some t)
    (ready : t.state = .ready) (worker : (k.cpu t.homeCpu).idle ≠ some id) :
    (k.ready t.homeCpu ++ k.remote t.homeCpu).count id = 1 := by
  have queued := (h.dispatch.queued_iff t.homeCpu id).mpr
    ⟨by rw [view_thread, found, Option.map_some, ready], worker⟩
  have distinct : (k.ready t.homeCpu ++ k.remote t.homeCpu).Nodup :=
    List.Nodup.append (h.dispatch.queue_nodup _) (h.dispatch.ingress_nodup _)
      fun _ here there => h.dispatch.disjoint _ _ here there
  refine Nat.le_antisymm (List.nodup_iff_count_le_one.mp distinct id) ?_
  exact List.one_le_count_iff.mpr (List.mem_append.mpr queued)

theorem valid : k.Valid where
  current c initialized := by
    obtain ⟨id, running⟩ := Option.ne_none_iff_exists'.mp ((h.cpu c).initialized.mp initialized)
    obtain ⟨t, found, home, state⟩ := h.find_current running
    exact ⟨id, t, running, found, home, state⟩
  running id t found state := by
    have current := (h.dispatch.current_iff t.homeCpu id).mpr
      (by rw [view_thread, found, Option.map_some, state])
    have some : (k.cpu t.homeCpu).current = some id := current
    exact ⟨(h.cpu t.homeCpu).initialized.mpr (by rw [some]; simp), some⟩
  ready id t found state worker := by
    refine ⟨h.count_queued found state worker, fun d apart => ?_⟩
    rw [← not_or]
    intro queued
    obtain ⟨u, found', home, _, _⟩ := h.find_of_queued queued
    obtain rfl := Option.mem_unique found found'
    exact apart home.symm
  queued c id queued := h.find_of_queued queued
  free i slot present empty c id queued same := by
    obtain ⟨t, found, _⟩ := h.find_of_queued queued
    have occupied := threadAt_of_find found
    rw [same, threadAt] at occupied
    rw [slots] at present
    rw [present, Option.bind_some, empty] at occupied
    cases occupied
  blocked id t found := (h.thread id t found).blocked
  prepared id t found := (h.thread id t found).prepared
  completed id t found := (h.thread id t found).completed
  exited id t found state := by
    rw [WaitMetadata.isNone, (h.thread id t found).exited state]
    rfl
  retired c id retired := by
    have exited := h.dispatch.retired_ok c id retired
    simp only [view_thread, Option.map_eq_some_iff, Prod.mk.injEq] at exited
    obtain ⟨t, found, home, state⟩ := exited
    refine ⟨fun running => ?_, t, found, home, state⟩
    cases state.symm.trans (h.current_status running found).2

end Coherent

namespace System

/-- The boot processor enters the first thread while the second one waits. -/
theorem exists_entered : ∃ s, machine.Reachable s ∧ s.inKernel 0 ∧
    (s.kernel.cpu 0).current = some ⟨1, 1⟩ ∧ s.kernel.ready 0 = [⟨2, 1⟩] := by
  obtain ⟨s, run, shown⟩ := exists_played .twoThreads [.enterRunningThread 0]
    (fun s => (s.kernel.cpu 0).online && decide (s.control 0 = .running) &&
      decide ((s.kernel.cpu 0).current = some ⟨1, 1⟩) && decide (s.kernel.ready 0 = [⟨2, 1⟩]))
    ⟨by decide, by decide⟩ (by decide +kernel)
  simp only [Bool.and_eq_true, decide_eq_true_eq] at shown
  obtain ⟨⟨⟨online, control⟩, current⟩, ready⟩ := shown
  exact ⟨s, reachable_of_started run, ⟨online, .inl control⟩, current, ready⟩

/-- The first thread exits and is retired until the interrupt it requested. -/
theorem exists_retired : ∃ s, machine.Reachable s ∧ (s.kernel.cpu 0).retired = some ⟨1, 1⟩ := by
  obtain ⟨s, run, shown⟩ := exists_played .twoThreads [.enterRunningThread 0, .threadExit 0 7]
    (fun s => decide ((s.kernel.cpu 0).retired = some ⟨1, 1⟩)) ⟨by decide, by decide⟩
    (by decide +kernel)
  exact ⟨s, reachable_of_started run, of_decide_eq_true shown⟩

/-! ### The scheduler invariant -/

/-- Between critical sections the self-check passes and its conditions hold, and
no section halts on a panic that guards them. -/
theorem scheduler_valid {s : System} (reached : machine.Reachable s) :
    s.kernel.scheduler.validateInvariants = .ok () ∧ s.kernel.Valid ∧
      ∀ (action : Action) panic, action.Enabled s → action.run s = .error panic →
        panic.contract = true := by
  have coherent := (sound_of_reachable reached).coherent
  refine ⟨coherent.validate, coherent.valid, ?_⟩
  intro action panic enabled halt
  exact halts_of_reachable reached enabled halt

/-- Nothing stops a switch between the registration of a wait and its commit; a release
build goes on with a prepared thread in the ready queue. -/
theorem scheduler_invalid_switched : ∃ k, Transition.machine.Reachable k ∧
    k.platform.debugAssertions = false ∧
    k.scheduler.validateInvariants = .error (.invariant .preparedNotRunning) := by
  obtain ⟨k, k', boot, run, shown⟩ := Transition.exists_played .release
    [.prepareWait 0 .explicit, .optionalSwitch 0]
    (fun k => decide (k.platform.debugAssertions = false) &&
      decide (k.scheduler.validateInvariants = .error (.invariant .preparedNotRunning)))
    (by decide +kernel) (fun _ _ => True) (fun _ _ _ => trivial)
  simp only [Bool.and_eq_true, decide_eq_true_eq] at shown
  exact ⟨k', .run (.initial ⟨_, boot⟩) run, shown⟩

theorem scheduler_valid_entered : ∃ s, machine.Reachable s ∧
    s.kernel.scheduler.validateInvariants = .ok () ∧ s.kernel.Valid := by
  obtain ⟨s, reached, _⟩ := exists_entered
  exact ⟨s, reached, (scheduler_valid reached).1, (scheduler_valid reached).2.1⟩

/-! ### Notifications -/

/-- Remote work and retired threads wait for an interrupt that is on its way. -/
theorem work_is_notified {s : System} (reached : machine.Reachable s) (c : CpuId) :
    (s.kernel.remote c ≠ [] ∨ (s.kernel.cpu c).retired ≠ none →
      s.kernel.scheduler.schedulerIpiPending c = true ∧ s.ipisHandled c < s.kernel.ipisSent c) ∧
    (s.kernel.scheduler.schedulerIpiPending c = true → s.ipisHandled c < s.kernel.ipisSent c) := by
  have sound := sound_of_reachable reached
  refine ⟨fun work => ?_, sound.notified c⟩
  have pending := (sound.coherent.cpu c).notified work
  exact ⟨pending, sound.notified c pending⟩

theorem work_is_notified_retired : ∃ s, machine.Reachable s ∧
    (s.kernel.cpu 0).retired = some ⟨1, 1⟩ ∧ s.ipisHandled 0 < s.kernel.ipisSent 0 := by
  obtain ⟨s, reached, retired⟩ := exists_retired
  have work : (s.kernel.cpu 0).retired ≠ none := by
    rw [retired]
    exact Option.some_ne_none _
  exact ⟨s, reached, retired, ((work_is_notified reached 0).1 (.inr work)).2⟩

/-! ### Quantum events -/

/-- A processor that executes threads has queued the quantum event of its current
thread while a peer waits, and no other quantum event. -/
theorem quantum_events_exact {s : System} (reached : machine.Reachable s) {c : CpuId}
    (inKernel : s.inKernel c) (owner : CpuId) (id : ThreadId) :
    .quantumExpired owner id ∈ s.pendingEvents c ↔
      owner = c ∧ (s.kernel.cpu c).current = some id ∧ s.kernel.ready c ≠ [] := by
  have sound := sound_of_reachable reached
  have exact : QuantumExact s.kernel c := by
    have known := sound.control c
    rcases inKernel.2 with running | ⟨prepared, visible, timing, waiting⟩
    · rw [running] at known
      exact known.2.1
    · rw [waiting] at known
      exact known.2.1
  have same : s.pendingEvents c = s.kernel.events c := rfl
  rw [same]
  constructor
  · intro queued
    have own : owner = c := by
      cases present : s.kernel.clocks.states c with
      | none =>
        rw [events, present] at queued
        cases queued
      | some state =>
        rw [events_of_some present] at queued
        exact (sound.time c state present).quantum owner id queued
    subst own
    exact ⟨rfl, ((exact id).mp queued).2⟩
  · rintro ⟨rfl, current, peers⟩
    exact (exact id).mpr ⟨inKernel.1, current, peers⟩

theorem quantum_event_entered : ∃ s, machine.Reachable s ∧ s.inKernel 0 ∧
    .quantumExpired 0 ⟨1, 1⟩ ∈ s.pendingEvents 0 := by
  obtain ⟨s, reached, inKernel, current, ready⟩ := exists_entered
  refine ⟨s, reached, inKernel, (quantum_events_exact reached inKernel 0 ⟨1, 1⟩).mpr ?_⟩
  exact ⟨rfl, current, by rw [ready]; exact List.cons_ne_nil _ _⟩

/-! ### Wait deadlines -/

/-- A deadline that is queued ends a wait that is still registered, of a thread of that
processor which has blocked or is about to. One that was collected is no longer queued, and
a join has neither. -/
theorem deadlines_current {s : System} (reached : machine.Reachable s) (c : CpuId) :
    (∀ owner token, .waitDeadline owner token ∈ s.pendingEvents c → owner = c ∧
      (∀ id, s.kernel.joinerOf id ≠ some token) ∧ ∃ t w, s.kernel.find token.thread = some t ∧
        t.homeCpu = c ∧ t.wait.active = some w ∧ w.token = token ∧
        (w.phase = .blocked ∧ t.state = .blocked ∨ w.phase = .prepared ∧ t.state = .running)) ∧
    ∀ now expired, s.control c = .dispatching now expired →
      ∀ owner token, .waitDeadline owner token ∈ expired.items → owner = c ∧
        (∀ id, s.kernel.joinerOf id ≠ some token) ∧
        .waitDeadline owner token ∉ s.pendingEvents c := by
  have sound := sound_of_reachable reached
  refine ⟨fun owner token queued => ?_, fun now expired control owner token collected => ?_⟩
  · cases present : s.kernel.clocks.states c with
    | none =>
      rw [pendingEvents, present] at queued
      cases queued
    | some state =>
      rw [pendingEvents, present] at queued
      obtain ⟨rfl, home, ⟨⟨name, phase, consumption⟩, active, uncompleted⟩, unjoined⟩ :=
        (sound.time c state present).wait owner token queued
      obtain ⟨t, found, stored, named⟩ := registration_eq_some.mp active
      have ok := sound.coherent.thread _ t found
      refine ⟨rfl, unjoined, t, _, found, ?_, stored, named, ?_⟩
      · rw [← home, ← named, ok.token _ stored]
      · cases phase with
        | prepared => exact .inr ⟨rfl, ok.prepared (by rw [WaitMetadata.isPrepared, stored])⟩
        | blocked => exact .inl ⟨rfl, ok.blocked.mpr (by rw [WaitMetadata.isBlocked, stored])⟩
        | completed cause => exact absurd rfl (uncompleted cause)
  · have known := sound.control c
    rw [control] at known
    obtain ⟨own, -, unjoined⟩ := known.1.wait owner token collected
    exact ⟨own, unjoined, known.1.gone _ collected⟩

theorem deadlines_current_sleeping : ∃ s, machine.Reachable s ∧
    .waitDeadline 0 ⟨⟨1, 1⟩, 0, 1⟩ ∈ s.pendingEvents 0 ∧
    ∃ t, s.kernel.find ⟨1, 1⟩ = some t ∧ t.homeCpu = 0 := by
  obtain ⟨s, run, shown⟩ := exists_played .twoThreads
    [.enterRunningThread 0, .prepareWait 0 .sleep, .scheduleDeadline 0 5, .commitWait 0]
    (fun s => decide (.waitDeadline 0 ⟨⟨1, 1⟩, 0, 1⟩ ∈ s.pendingEvents 0)) ⟨by decide, by decide⟩
    (by decide +kernel)
  have reached := reachable_of_started run
  have queued := of_decide_eq_true shown
  obtain ⟨-, -, t, -, found, home, -⟩ := (deadlines_current reached 0).1 _ _ queued
  exact ⟨s, reached, queued, t, found, home⟩

/-! ### The direct wake -/

/-- A timer interrupt that wakes a sleeper directly from idle ends as it would
have through the ready queue, and a wake that is declined changes nothing. -/
theorem direct_wake_agrees {k : Kernel} {c : CpuId} {expired : ExpiredEvents} {current : ThreadId}
    (coherent : Coherent k) (quantum : QuantumSound k c) (batch : Batched c expired k)
    (online : (k.cpu c).online = true) (running : (k.cpu c).current = some current) (now : Nat) :
    (∀ k₀ outcome k₁, transitionFinalizeRetiredForTimer c k₀ = .ok ((), k) →
      directWake c expired k = .ok (some outcome, k₁) →
      (finishInterrupt c now expired k₀).map (fun result => result.2.forget) =
        (finishQueued c now current expired k).map fun result => result.2.forget) ∧
    ∀ token k', transitionTimedWakeFromIdle c token k = .ok (none, k') → k'.forget = k.forget := by
  constructor
  · intro k₀ outcome k₁ finalized woke
    obtain ⟨token, idle, t, found⟩ := directWake_some coherent woke
    obtain rfl := Option.mem_unique running found.sole.running
    rw [finishInterrupt_direct finalized online running woke, finishDirect_eq found,
      finishQueued_eq coherent quantum batch online found]
  · intro token k' declined
    have all : WP (fun _ => True) (transitionTimedWakeFromIdle c token)
        (fun result k' => result = none → k'.forget = k.forget) k := by
      refine wp_transitionTimedWakeFromIdle coherent (fun _ same _ => same) ?_
      intro idle t consumption sole active
      exact .bind (wp_iff.mpr ⟨fun _ _ _ never => (by cases never), fun _ _ => trivial⟩)
    exact all.of_ok declined rfl

/-- Nothing is retired, so there is nothing to finalize. -/
theorem finalize_unretired {k : Kernel} {c : CpuId} (unretired : (k.cpu c).retired = none) :
    transitionFinalizeRetiredForTimer c k = .ok ((), k) := by
  have same : WP (fun _ => False) (finalizeRetired c false) (fun _ k' => k' = k) k := by
    rw [finalizeRetired, wp_bind, wp_cpuState, unretired]
    exact rfl
  obtain ⟨_, _, run, rfl⟩ := WP.returns same
  exact run

/-- A timer interrupt of the first processor is about to wake a sleeper from idle. -/
def wakesDirectly (s : System) : Bool :=
  match s.control 0 with
  | .dispatching _ expired =>
    (s.kernel.cpu 0).online && decide ((s.kernel.cpu 0).current = some ⟨0, 1⟩) &&
      (s.kernel.cpu 0).retired.isNone &&
        match directWake 0 expired s.kernel with
        | .ok (some _, _) => true
        | _ => false
  | _ => false

/-- The only thread sleeps and its deadline has expired. -/
theorem exists_sleeping : ∃ s, machine.Reachable s ∧ s.wakesDirectly = true := by
  obtain ⟨s, run, shown⟩ := exists_played { BootConfig.twoThreads with staticThreads := 1 }
    [.enterRunningThread 0, .prepareWait 0 .sleep, .scheduleDeadline 0 0, .commitWait 0,
      .timerBegin 0]
    wakesDirectly ⟨by decide, by decide⟩ (by decide +kernel)
  exact ⟨s, reachable_of_started run, shown⟩

theorem direct_wake_agrees_sleeping : ∃ s now expired, machine.Reachable s ∧
    s.control 0 = .dispatching now expired ∧
    (finishInterrupt 0 now expired s.kernel).map (fun result => result.2.forget) =
      (finishQueued 0 now ⟨0, 1⟩ expired s.kernel).map fun result => result.2.forget := by
  obtain ⟨s, reached, wakes⟩ := exists_sleeping
  rw [wakesDirectly] at wakes
  split at wakes
  · next now expired control =>
    simp only [Bool.and_eq_true, decide_eq_true_eq, Option.isNone_iff_eq_none] at wakes
    obtain ⟨⟨⟨online, running⟩, unretired⟩, woke⟩ := wakes
    split at woke
    · next outcome k₁ wake =>
      have sound := sound_of_reachable reached
      have known := sound.control 0
      rw [control] at known
      obtain ⟨batch, quantum, _⟩ := known
      exact ⟨s, now, expired, reached, control,
        (direct_wake_agrees sound.coherent quantum batch online running now).1 _ _ _
          (finalize_unretired unretired) wake⟩
    · cases woke
  · cases wakes

end System

end Genrt
