import Genrt.Safety
import Genrt.Transitions

/-!
# How the system evolves

Every step of the system is a sequence of elementary changes that meet the
conditions of the scheduler invariant, and publishes no token but one that was
hidden before. Whatever elementary changes preserve is therefore preserved by all
runs, and holds together with the invariant of the whole kernel.
-/

namespace Genrt

open Effect

/-- A section of a running system. -/
def Mode.call : Mode := ⟨true, false, false, true⟩

/-- The initialisation of a secondary processor. -/
def Mode.secondary : Mode := ⟨true, true, false, true⟩

/-- Only the initialisation of a processor publishes at the initial generation. -/
def Action.mode : Action → Mode
  | .initializeCurrentCpu _ => .secondary
  | _ => .call

variable {mode : Mode}

section Facts

variable {s : System} {c : CpuId}

/-- The current thread has not exited. -/
theorem Coherent.current_alive {k : Kernel} (h : Coherent k) {id : ThreadId}
    (running : (k.cpu c).current = some id) : ∃ t, k.find id = some t ∧ t.exitCode = none := by
  obtain ⟨t, found, _, state⟩ := h.find_current running
  refine ⟨t, found, ?_⟩
  have code := (h.thread id t found).code
  rw [state] at code
  simpa using code

/-- Finalization leaves the current thread as it is. -/
theorem System.Sound.finalized_current (h : s.Sound) (inThread : s.inThread c) :
    WP (fun _ => True) (transitionFinalizeRetired c) (fun _ k₁ =>
      Coherent k₁ ∧ (k₁.cpu c).current = (s.kernel.cpu c).current ∧
        ∀ id, (s.kernel.cpu c).current = some id → k₁.find id = s.kernel.find id) s.kernel := by
  have spec : WP (fun _ => True) (transitionFinalizeRetired c)
      (fun _ k' => Finalized c s.kernel k' ∧ Steady c k') s.kernel :=
    (wp_transitionFinalizeRetired (h.steady inThread.2) inThread.1).mono_fault fun _ _ => trivial
  refine spec.mono fun _ k₁ done => ⟨done.1.coherent, by rw [done.1.cpu], fun id running => ?_⟩
  obtain ⟨t, found, _, state⟩ := h.coherent.find_current running
  rw [done.1.running id t found state, found]

/-- The kernel evolves, and a token is published only if its owner hid it. -/
def System.Advances (mode : Mode) (s t : System) : Prop :=
  Evolves mode s.kernel t.kernel ∧ ∀ token ∈ t.published, token ∈ s.published ∨
    ∃ c prepared timing, s.control c = .waiting prepared false timing ∧ prepared.token = token

theorem System.Advances.refl (s : System) : s.Advances mode s :=
  ⟨Evolves.refl _, fun _ => .inl⟩

/-- A section that is one operation of the kernel. -/
theorem traced_call {α : Type} {operation : KernelM α}
    (spec : WP (fun _ => True) operation (fun _ k' => Evolves mode s.kernel k') s.kernel) :
    WP (fun _ => True) (onKernel operation) (fun _ t => s.Advances mode t) s :=
  wp_onKernel.mpr (spec.mono fun _ _ done => ⟨done, fun _ => .inl⟩)

end Facts

theorem nestPreemption_traced {c : CpuId}
    {change : PreemptionState → Except Panic PreemptionState} :
    Traced mode (Action.nestPreemption c change) := by
  intro k
  refine wp_iff.mpr ⟨fun _ k' run => ?_, fun _ _ => trivial⟩
  unfold Action.nestPreemption at run
  split at run
  · cases run
  · cases run
    exact Evolves.aside rfl rfl (.refl k)

variable {s : System} {action : Action}

/-- Every section is a sequence of elementary changes. -/
theorem Action.traced (h : s.Sound) (enabled : action.Enabled s) :
    WP (fun _ => True) action.run (fun _ t => s.Advances action.mode t) s := by
  have coherent : ∀ {mode : Mode}, mode.strict = true → Coherent s.kernel := fun _ => h.coherent
  cases action with
  | registerSecondary => exact wp_discard (traced_call (Traced.registerSecondaryCpu _))
  | initializeCurrentCpu cpu =>
    exact wp_discard (traced_call (Traced.initializeCurrentCpu rfl rfl _))
  | enterRunningThread cpu => exact traced_call (Traced.prepareRunningThreadEntry _)
  | threadSpawn cpu attrs => exact wp_discard (traced_call (Traced.spawnThread rfl coherent))
  | threadSpawnUser cpu space stack attrs =>
    exact wp_discard (traced_call (Traced.spawnUserThread rfl _))
  | replaceUserResources cpu space stack =>
    exact wp_discard (traced_call (Traced.replaceCurrentUserResources
      fun _ _ running => h.coherent.current_alive running))
  | threadExit cpu code =>
    refine traced_call (Traced.exitCurrent rfl fun _ => ⟨h.coherent, ?_⟩)
    refine (h.finalized_current enabled.1).mono fun _ k₁ done id t running found => ?_
    obtain ⟨coherent₁, current, same⟩ := done
    have before : (s.kernel.cpu cpu).current = some id := current ▸ running
    obtain ⟨u, live, alive⟩ := coherent₁.current_alive running
    obtain rfl := Option.mem_unique found live
    rw [same id before] at found
    refine ⟨alive, (enabled.2 t ?_).2⟩
    rw [System.currentThread, before, Option.bind_some, found]
  | threadJoin cpu target =>
    refine wp_discard (traced_call (Traced.joinThread rfl fun _ => ⟨h.coherent, ?_⟩))
    exact (h.finalized_current enabled).mono fun _ k₁ done id running =>
      done.1.current_alive running
  | takeJoinResult cpu =>
    refine wp_discard (traced_call (Traced.takeCurrentJoinResult rfl fun _ id running => ?_))
    obtain ⟨t, found, _⟩ := h.coherent.current_alive running
    exact ⟨t, found⟩
  | prepareWait cpu caller =>
    exact .bind (traced_call (Traced.transitionPrepareWaitWith _))
  | scheduleDeadline cpu deadline =>
    rw [run, registerDeadline, wp_bind, wp_get]
    cases s.control cpu with
    | waiting prepared visible timing => exact .bind (traced_call (Traced.onClocks _))
    | _ => exact .refl s
  | revealToken cpu =>
    obtain ⟨_, prepared, timing, waiting⟩ := enabled
    rw [run, reveal, wp_bind, wp_get, waiting]
    refine ⟨Evolves.refl _, fun token member => ?_⟩
    rcases List.mem_cons.mp member with rfl | before
    · exact .inr ⟨cpu, prepared, timing, waiting, rfl⟩
    · exact .inl before
  | commitWait cpu =>
    rw [run, commitRegistered, wp_bind, wp_get]
    cases s.control cpu with
    | waiting prepared visible timing =>
      have traced : Traced .call (commitPreparedWait cpu prepared) := Traced.commitPreparedWait
      have committed := traced_call (traced s.kernel)
      refine .bind (committed.mono fun _ t done => ?_)
      exact .bind (wp_stopIf.mpr ⟨fun _ => trivial, fun _ => done⟩)
    | _ => exact .refl s
  | cancelWait cpu =>
    rw [run, cancelRegistered, wp_bind, wp_get]
    cases s.control cpu with
    | waiting prepared visible timing =>
      exact .bind (traced_call (Traced.transitionCancelWait _))
    | _ => exact .refl s
  | sleepUser cpu deadline => exact wp_discard (traced_call (Traced.sleepUserUntilCounter _))
  | completeWait cpu token cause => exact wp_discard (traced_call (Traced.completeWaitTransition _))
  | cancelDeadline cpu token => exact .bind (traced_call (Traced.onClocks _))
  | finishWait cpu token => exact wp_discard (traced_call (Traced.transitionFinishWait _))
  | requestReschedule cpu => exact traced_call (Traced.requestRescheduleOn _)
  | preemptCheckpoint cpu => exact traced_call (Traced.preemptCheckpoint rfl coherent)
  | preemptEnter cpu => exact traced_call (nestPreemption_traced _)
  | preemptLeave cpu => exact traced_call (nestPreemption_traced _)
  | schedulerIpi cpu =>
    rw [run, handleSchedulerIpi, wp_bind, wp_modify]
    have traced : Moves .call s.kernel (finishSchedulerIpi cpu) :=
      Traced.finishSchedulerIpi rfl coherent
    exact wp_onKernel.mpr (traced.mono fun _ _ done => ⟨done, fun _ => .inl⟩)
  | timerBegin cpu =>
    rw [run, beginTimer, wp_bind]
    have traced : Traced .call nowCounter := Traced.nowCounter
    refine wp_onKernel.mpr ((traced s.kernel).mono fun now t read => (wp_bind _).mpr ?_)
    refine wp_onKernel.mpr ((Traced.after read Traced.onClocks).mono fun batch k' done => ?_)
    cases batch with
    | none => exact ⟨done, fun _ => .inl⟩
    | some expired => exact ⟨done, fun _ => .inl⟩
  | timerSchedule cpu =>
    rw [run, scheduleTimer, wp_bind, wp_get]
    cases s.control cpu with
    | dispatching now expired =>
      exact .bind (traced_call (Traced.finishTimerInterrupt rfl coherent))
    | _ => exact .refl s
  | timerEnd cpu =>
    rw [run, endTimer, wp_bind, wp_get]
    cases s.control cpu with
    | rearming quantum expired => exact .bind (traced_call (Traced.onClocks _))
    | _ => exact .refl s

/-! ### All runs -/

namespace System

/-- The invariant together with the log of waits, in which published tokens were issued. -/
structure Recorded (s : System) : Prop extends s.Sound where
  log : WaitLog s.kernel
  sequence : ∀ token ∈ s.published, token.sequence ≤ s.kernel.lastSequence token.thread.index

theorem Recorded.issued (h : s.Recorded) : s.Issued := fun token member _ found =>
  (h.sequence token member).trans_eq (Kernel.lastSequence_of_find found)

theorem recorded_of_reachable (reached : machine.Reachable s) : s.Recorded := by
  refine reached.invariant ?_ ?_
  · rintro _ ⟨config, accepted, k, boot, rfl⟩
    obtain ⟨scheduler, made, evolves⟩ := Evolves.of_bootstrap boot
    exact ⟨sound_booted accepted boot,
      ((WaitLog.of_empty (Kernel.slots_preBoot made) rfl).evolves evolves).1, by simp [booted]⟩
  · rintro s action t _ h ⟨enabled, run⟩
    obtain ⟨evolves, published⟩ := (Action.traced h.toSound enabled).of_ok run
    obtain ⟨log, grows⟩ := h.log.evolves evolves
    refine ⟨(Action.run_sound h.toSound h.issued enabled).of_ok run, log, fun token member => ?_⟩
    refine Nat.le_trans ?_ (grows _)
    rcases published token member with before | ⟨c, prepared, timing, waiting, rfl⟩
    · exact h.sequence token before
    · -- A hidden token is still registered.
      obtain ⟨w, active, -⟩ := (h.known waiting).2.2.wait
      obtain ⟨u, found, stored, named⟩ := Kernel.registration_eq_some.mp active
      rw [← named, Kernel.lastSequence_of_find (named ▸ found), (h.log.own _ u w found stored).2]

/-- The invariant holds in every reachable state. -/
theorem sound_of_reachable (reached : machine.Reachable s) : s.Sound :=
  (recorded_of_reachable reached).toSound

/-- No section halts in a reachable state unless a caller broke its contract. -/
theorem halts_of_reachable (reached : machine.Reachable s) (enabled : action.Enabled s)
    {panic : Panic} (halt : action.run s = .error panic) : panic.contract = true :=
  have recorded := recorded_of_reachable reached
  (Action.run_sound recorded.toSound recorded.issued enabled).of_error halt

end System

/-! ### Reserved capacities -/

variable {k k' : Kernel}

/-- No change touches the reservation of a queue. -/
theorem Change.sizes (change : Change mode k k') : SameSizes k k' := by
  cases change with
  | aside _ _ sizes => exact sizes
  | _ => exact fun _ => ⟨rfl, rfl⟩

theorem Evolves.sizes (h : Evolves mode k k') : SameSizes k k' := by
  induction h with
  | refl => exact .refl k
  | tail _ change ih =>
    exact fun c => ⟨(change.sizes c).1.trans (ih c).1, (change.sizes c).2.trans (ih c).2⟩

/-- Every queue has the reservation that a table of `capacity` slots needs. -/
def Kernel.QueuesReserved (k : Kernel) (capacity : Nat) : Prop :=
  ∀ c, (k.cpu c).readyQueue.capacity = capacity - 1 ∧
    (k.scheduler.remoteReady c).capacity = capacity - 1

theorem Kernel.QueuesReserved.evolves {capacity : Nat} (h : k.QueuesReserved capacity)
    (changed : Evolves mode k k') : k'.QueuesReserved capacity :=
  fun c => ⟨(changed.sizes c).1.trans (h c).1, (changed.sizes c).2.trans (h c).2⟩

variable {config : BootConfig}

theorem Kernel.QueuesReserved.of_bootstrap (boot : bootstrap config = .ok (.ok k)) :
    k.QueuesReserved config.threadCapacity := by
  obtain ⟨scheduler, made, evolves⟩ := Evolves.of_bootstrap boot
  have before : (Kernel.preBoot config scheduler).QueuesReserved config.threadCapacity := by
    obtain ⟨_, rfl⟩ := transitionNew_ok made
    exact fun _ => ⟨rfl, rfl⟩
  exact before.evolves evolves

namespace System

/-- A state of a run that was booted with `config`. -/
def started (config : BootConfig) (s : System) : Prop :=
  config.Accepted ∧ ∃ k, bootstrap config = .ok (.ok k) ∧
    machine.Run (fun _ _ => True) (booted k) s

variable {s : System}

theorem reachable_of_started (run : started config s) : machine.Reachable s := by
  obtain ⟨accepted, k, boot, run⟩ := run
  exact Machine.Reachable.run (.initial ⟨config, accepted, k, boot, rfl⟩) run

theorem reserved_of_started (run : started config s) :
    s.kernel.QueuesReserved config.threadCapacity := by
  obtain ⟨accepted, k, boot, run⟩ := run
  induction run with
  | refl => exact .of_bootstrap boot
  | step before _ taken ih =>
    have sound := sound_of_reachable (reachable_of_started ⟨accepted, k, boot, before⟩)
    exact ih.evolves ((Action.traced sound taken.1).of_ok taken.2).1

/-! ### Runs to evaluate on -/

/-- A test that is sufficient for `Enabled`. -/
def ready (s : System) : Action → Bool
  | .registerSecondary => true
  | .initializeCurrentCpu cpu | .enterRunningThread cpu => decide (s.control cpu = .running)
  | .threadSpawn cpu _ | .threadJoin cpu _ | .takeJoinResult cpu | .prepareWait cpu _
  | .schedulerIpi cpu | .timerBegin cpu =>
    (s.kernel.cpu cpu).online && decide (s.control cpu = .running)
  | .threadExit cpu _ =>
    (s.kernel.cpu cpu).online && decide (s.control cpu = .running) &&
      (s.currentThread cpu).all fun t =>
        t.wait.active.isNone && t.lastJoinResult.isNone && t.reapedUser.isNone
  | .finishWait cpu token =>
    (s.kernel.cpu cpu).online && decide (s.control cpu = .running) &&
      decide ((s.kernel.cpu cpu).current = some token.thread)
  | .scheduleDeadline cpu _ =>
    match s.control cpu with
    | .waiting _ false .unscheduled => (s.kernel.cpu cpu).online
    | _ => false
  | .commitWait cpu =>
    match s.control cpu with
    | .waiting _ _ _ => (s.kernel.cpu cpu).online
    | _ => false
  | _ => false

theorem enabled_of_ready (ready : s.ready action = true) : action.Enabled s := by
  cases action with
  | registerSecondary => trivial
  | scheduleDeadline cpu deadline =>
    simp only [System.ready] at ready
    split at ready
    · next prepared control => exact ⟨ready, prepared, control⟩
    · cases ready
  | commitWait cpu =>
    simp only [System.ready] at ready
    split at ready
    · next prepared visible timing control => exact ⟨ready, prepared, visible, timing, control⟩
    · cases ready
  | threadExit cpu code =>
    simp only [System.ready, Bool.and_eq_true, decide_eq_true_eq] at ready
    refine ⟨ready.1, fun t running => ?_⟩
    have consumed := ready.2
    rw [running] at consumed
    simpa [and_assoc] using consumed
  | initializeCurrentCpu cpu | enterRunningThread cpu =>
    simpa [System.ready, Action.Enabled] using ready
  | threadSpawn cpu _ | threadJoin cpu _ | takeJoinResult cpu | prepareWait cpu _ | schedulerIpi cpu
  | timerBegin cpu | finishWait cpu _ =>
    simpa [System.ready, Action.Enabled, inThread, online] using ready
  | _ => cases ready

/-- Execute a section that is enabled. -/
def next (s : System) (action : Action) : Option System :=
  if s.ready action then
    match action.run s with
    | .error _ => none
    | .ok ((), t) => some t
  else none

theorem step_of_next {t : System} (taken : s.next action = some t) : machine.step s action t := by
  unfold next at taken
  split at taken
  · next ready =>
    split at taken
    · cases taken
    · next run =>
      cases taken
      exact ⟨enabled_of_ready ready, run⟩
  · cases taken

/-- Boot, and execute sections one after the other. -/
def playFrom (config : BootConfig) (actions : List Action) : Option System :=
  match bootstrap config with
  | .ok (.ok k) => Machine.execute next (booted k) actions
  | _ => none

/-- What an execution shows holds in some state of a run. -/
theorem exists_played (config : BootConfig) (actions : List Action) (shows : System → Bool)
    (accepted : config.Accepted) (played : (playFrom config actions).any shows = true) :
    ∃ s, started config s ∧ shows s = true := by
  rw [playFrom] at played
  split at played
  · next k boot =>
    obtain ⟨s, run, shown⟩ := (Option.any_eq_true _ _).mp played
    exact ⟨s, ⟨accepted, k, boot, .of_execute (fun _ _ _ _ taken => ⟨trivial, step_of_next taken⟩)
      run⟩, shown⟩
  · cases played

/-! ### Capacities -/

/-- The panics of exhausted queues and buffers. -/
def exhausted : List Panic :=
  [.readyQueueFull, .remoteReadyFull, .deadlineQueueFull, .expiredBufferFull]

/-- The deadline events of one processor: at most one per live thread, and at most
one quantum event. -/
theorem deadlines_bounded (sound : s.Sound) {capacity : Nat} {c : CpuId}
    (reserved : s.kernel.QueuesReserved capacity) (some : 0 < capacity) :
    (s.pendingEvents c).length ≤ timedEventCapacityPerThread * capacity := by
  have room := (sound.coherent.cpu c).readyCapacity
  rw [(reserved c).1] at room
  cases present : s.kernel.clocks.states c with
  | none =>
    rw [pendingEvents, present]
    exact Nat.zero_le _
  | some state =>
    have length := (sound.time c state present).length_le
    have count : state.queue.events.length = state.queue.entries.length := List.length_map ..
    rw [pendingEvents, present, count, timedEventCapacityPerThread]
    omega

/-- The deadline queue of a processor holds at most one deadline per thread, of
live threads only, and at most one quantum event. -/
theorem deadlines_distinct (sound : s.Sound) (c : CpuId) :
    (∀ owner owner' token token', .waitDeadline owner token ∈ s.pendingEvents c →
      .waitDeadline owner' token' ∈ s.pendingEvents c → token.thread = token'.thread →
        token = token' ∧ ∃ t, s.kernel.find token.thread = some t) ∧
    ∀ owner owner' id id', .quantumExpired owner id ∈ s.pendingEvents c →
      .quantumExpired owner' id' ∈ s.pendingEvents c → id = id' := by
  cases present : s.kernel.clocks.states c with
  | none =>
    rw [pendingEvents, present]
    exact ⟨fun _ _ _ _ => nofun, fun _ _ _ _ => nofun⟩
  | some state =>
    have ok := sound.time c state present
    rw [pendingEvents, present]
    constructor
    · intro owner owner' token token' queued queued' same
      obtain ⟨_, _, ⟨w, active, _⟩, _⟩ := ok.wait owner token queued
      obtain ⟨_, _, ⟨w', active', _⟩, _⟩ := ok.wait owner' token' queued'
      obtain ⟨t, found, stored, rfl⟩ := Kernel.registration_eq_some.mp active
      obtain ⟨t', found', stored', rfl⟩ := Kernel.registration_eq_some.mp active'
      refine ⟨?_, t, found⟩
      rw [same, found'] at found
      obtain rfl := Option.some.inj found
      rw [Option.mem_unique stored stored']
    · intro owner owner' id id' queued queued'
      obtain rfl := ok.quantum owner id queued
      obtain rfl := ok.quantum owner' id' queued'
      exact ok.single id id' queued queued'

/-- The capacities chosen at boot suffice in every state of every run, so that no
section halts because a queue or a buffer is full. -/
theorem capacities_suffice (run : started config s) :
    config.threadCapacity ≤ kernelThreadCapacity ∧
    (∀ c, (s.kernel.cpu c).readyQueue.capacity = config.threadCapacity - 1 ∧
      (s.kernel.ready c).length ≤ config.threadCapacity - 1 ∧
      (s.kernel.scheduler.remoteReady c).capacity = config.threadCapacity - 1 ∧
      (s.kernel.remote c).length ≤ config.threadCapacity - 1 ∧
      (s.pendingEvents c).length ≤ timedEventCapacityPerThread * config.threadCapacity ∧
      (∀ owner owner' token token', .waitDeadline owner token ∈ s.pendingEvents c →
        .waitDeadline owner' token' ∈ s.pendingEvents c → token.thread = token'.thread →
          token = token' ∧ ∃ t, s.kernel.find token.thread = some t) ∧
      (∀ owner owner' id id', .quantumExpired owner id ∈ s.pendingEvents c →
        .quantumExpired owner' id' ∈ s.pendingEvents c → id = id') ∧
      ∀ now expired, s.control c = .dispatching now expired →
        expired.items.length ≤ kernelThreadCapacity * timedEventCapacityPerThread) ∧
    ∀ (action : Action) panic, action.Enabled s → action.run s = .error panic →
      panic ∉ exhausted := by
  have reached := reachable_of_started run
  have sound := sound_of_reachable reached
  have reserved := reserved_of_started run
  obtain ⟨accepted, k, boot, _⟩ := run
  obtain ⟨fits, scheduler, made, _⟩ := bootstrap_ok boot
  have some : 0 < config.threadCapacity := by
    have one := accepted.someCpu
    omega
  refine ⟨(transitionNew_ok made).1, fun c => ?_, fun action panic enabled halt full => ?_⟩
  · obtain ⟨ready, remote⟩ := reserved c
    refine ⟨ready, ready ▸ (s.kernel.cpu c).readyQueue.fits, remote,
      remote ▸ (s.kernel.scheduler.remoteReady c).fits, deadlines_bounded sound reserved some,
      (deadlines_distinct sound c).1, (deadlines_distinct sound c).2, fun now expired control => ?_⟩
    have known := sound.control c
    rw [control] at known
    exact known.1.capacity ▸ expired.fits
  · have broken := halts_of_reachable reached enabled halt
    simp only [exhausted, List.mem_cons, List.not_mem_nil, or_false] at full
    rcases full with rfl | rfl | rfl | rfl <;> cases broken

theorem capacities_suffice_queued : ∃ s, started .threeThreads s ∧
    s.pendingEvents 0 = [.waitDeadline 0 ⟨⟨1, 1⟩, 0, 1⟩, .quantumExpired 0 ⟨2, 1⟩] ∧
    (s.pendingEvents 0).length ≤ timedEventCapacityPerThread * 4 ∧
    ∃ t, s.kernel.find ⟨1, 1⟩ = some t := by
  obtain ⟨s, run, shown⟩ := exists_played .threeThreads
    [.enterRunningThread 0, .prepareWait 0 .sleep, .scheduleDeadline 0 5, .commitWait 0]
    (fun s => decide (s.pendingEvents 0 =
      [.waitDeadline 0 ⟨⟨1, 1⟩, 0, 1⟩, .quantumExpired 0 ⟨2, 1⟩]))
    ⟨by decide, by decide⟩ (by decide +kernel)
  have queued := of_decide_eq_true shown
  obtain ⟨-, -, -, -, room, waits, -⟩ := (capacities_suffice run).2.1 0
  have member : .waitDeadline 0 ⟨⟨1, 1⟩, 0, 1⟩ ∈ s.pendingEvents 0 := queued ▸ .head _
  exact ⟨s, run, queued, room, (waits _ _ _ _ member member rfl).2⟩

end System

end Genrt
