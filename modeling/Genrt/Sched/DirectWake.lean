import Genrt.Sched.Interrupt

/-!
# The direct wake agrees with the queue

A timer interrupt that finds the processor idle and a single sleeper to wake
skips the ready queue. Here both ways are run to the end of the interrupt on the
same state: up to the log, which the kernel does not keep, they give the same
kernel or halt on the same panic.

The two ways differ in the order of their log entries, so what runs after them
must not look at the log.
-/

namespace Genrt

open Effect Kernel

variable {k : Kernel} {c : CpuId} {expired : ExpiredEvents}

/-! ### Operations that do not look at the log -/

/-- The kernel with another log. -/
def Kernel.withHistory (k : Kernel) (history : List Event) : Kernel := { k with history := history }

/-- The operation neither reads nor writes the log. -/
def Oblivious {α : Type} (operation : KernelM α) : Prop :=
  ∀ k history, operation (k.withHistory history) =
    (operation k).map fun result => (result.1, result.2.withHistory history)

namespace Oblivious

variable {α β : Type} {operation : KernelM α}

theorem bind {next : α → KernelM β} (first : Oblivious operation)
    (second : ∀ a, Oblivious (next a)) : Oblivious (operation >>= next) := by
  intro k history
  simp only [Bind.bind, StateT.bind, first k history]
  cases operation k with
  | error panic => rfl
  | ok result => exact second result.1 result.2 history

theorem stopIf {condition : Prop} [Decidable condition] {panic : Panic} :
    Oblivious (Effect.stopIf condition panic) := by
  intro k history
  rw [Effect.stopIf]
  split_ifs
  · rfl
  · rfl

theorem onClocks {operation : TimeM α} : Oblivious (Genrt.onClocks operation) := by
  intro k history
  simp only [Genrt.onClocks, withHistory]
  cases operation k.clocks with
  | error panic => rfl
  | ok result => rfl

theorem thread {index : Nat} : Oblivious (thread index) := by
  intro k history
  have same : (k.withHistory history).threadAt index = k.threadAt index := rfl
  simp only [Genrt.thread, Bind.bind, StateT.bind, Except.bind, MonadState.get, getThe,
    MonadStateOf.get, StateT.get, pure, Except.pure, same]
  cases k.threadAt index with
  | none => rfl
  | some t => rfl

theorem activateUserAddressSpace {space : AddressSpaceId} :
    Oblivious (Genrt.activateUserAddressSpace c space) := by
  intro k history
  simp only [Genrt.activateUserAddressSpace, Bind.bind, StateT.bind, Except.bind, MonadState.get,
    getThe, MonadStateOf.get, StateT.get, pure, Except.pure, withHistory]
  split_ifs <;> rfl

theorem clearUserAddressSpace : Oblivious (Genrt.clearUserAddressSpace c) := by
  intro k history
  simp only [Genrt.clearUserAddressSpace, modify, modifyGet, MonadStateOf.modifyGet,
    StateT.modifyGet, Bind.bind, StateT.bind, Except.bind, MonadState.get, getThe, MonadStateOf.get,
    StateT.get, pure, Except.pure, withHistory, setUserSpace]
  split_ifs <;> rfl

theorem activateThreadAddressSpace {id : ThreadId} :
    Oblivious (activateThreadAddressSpace c id) := by
  refine bind (bind thread fun _ _ _ => rfl) fun space => ?_
  cases space with
  | some space => exact bind activateUserAddressSpace fun _ => stopIf
  | none =>
    refine bind (fun _ _ => rfl) fun state => ?_
    dsimp only
    split_ifs
    · exact bind (fun _ _ => rfl) fun _ => stopIf
    · exact bind clearUserAddressSpace fun _ => stopIf

/-- The outcome up to the log does not depend on the log. -/
theorem forget (h : Oblivious operation) {history : List Event} :
    (operation (k.withHistory history)).map (fun result => result.2.forget) =
      (operation k).map fun result => result.2.forget := by
  rw [h k history]
  cases operation k with
  | error panic => rfl
  | ok result => rfl

end Oblivious

/-! ### The end of the interrupt -/

/-- Cancelling an event that is not queued changes nothing. -/
theorem TimeState.finishDispatch_absent {cell : TimeCell} {event : TimedEvent}
    (absent : event ∉ cell.state.queue.events) :
    finishDispatch ⟨some event, none⟩ expired cell = finishDispatch ⟨none, none⟩ expired cell := by
  have missing : cell.state.queue.findEventIndex event = none :=
    DeadlineQueue.findEventIndex_none.mpr absent
  have same : cancelObsolete (some event) cell = cancelObsolete none cell := by
    simp [cancelObsolete, cancelEvent, DeadlineQueue.cancel, missing, onlyIf, bind, StateT.bind,
      Except.bind, MonadState.get, getThe, MonadStateOf.get, StateT.get, pure, Except.pure,
      StateT.pure, set, MonadStateOf.set, StateT.set]
  simp only [finishDispatch, bind, StateT.bind, same]

theorem endTimerInterrupt_absent {event : TimedEvent} (absent : event ∉ k.events c) :
    onClocks (Clocks.endTimerInterrupt c ⟨some event, none⟩ expired) k =
      onClocks (Clocks.endTimerInterrupt c ⟨none, none⟩ expired) k := by
  simp only [onClocks, Clocks.endTimerInterrupt, Clocks.withTimeMut]
  cases present : k.clocks.states c with
  | none => rfl
  | some state =>
    rw [events_of_some present] at absent
    dsimp only
    rw [TimeState.finishDispatch_absent absent]

/-- The rest of the interrupt after a direct wake. -/
def finishDirect (cpu : CpuId) (outcome : SwitchOutcome) (expired : ExpiredEvents) :
    KernelM Unit := do
  let _ ← consumeCheckpointOn cpu true
  handoffSelected cpu outcome
  onClocks (Clocks.endTimerInterrupt cpu ⟨none, none⟩ expired)

/-- The rest of the interrupt for a batch that goes through the queue. -/
def finishQueued (cpu : CpuId) (now : Nat) (current : ThreadId) (expired : ExpiredEvents) :
    KernelM Unit := do
  let quantum ← dispatchBatch cpu now current expired
  onClocks (Clocks.endTimerInterrupt cpu quantum expired)

/-! ### Both ways on one state -/

theorem validateAfterTransition_ok {k' : Kernel}
    (passed : validateAfterTransition k = .ok ((), k')) : k' = k := by
  unfold validateAfterTransition at passed
  split at passed
  · split at passed
    · cases passed
    · exact (Prod.mk.inj (Except.ok.inj passed)).2.symm
  · exact (Prod.mk.inj (Except.ok.inj passed)).2.symm

/-- The self-check reads the scheduler only. -/
theorem validateAfterTransition_congr {k' : Kernel} (scheduler : k'.scheduler = k.scheduler)
    (platform : k'.platform = k.platform) (passed : validateAfterTransition k = .ok ((), k)) :
    validateAfterTransition k' = .ok ((), k') := by
  unfold validateAfterTransition at passed ⊢
  rw [scheduler, platform]
  split at passed
  · next checked =>
    rw [if_pos checked]
    split at passed
    · cases passed
    · rfl
  · next unchecked => rw [if_neg unchecked]

/-- What a direct wake found and where it left the kernel. -/
structure Woke (c : CpuId) (expired : ExpiredEvents) (k : Kernel) (outcome : SwitchOutcome)
    (k₁ : Kernel) (token : WaitToken) (idle : ThreadId) (t : Thread) : Prop where
  batch : expired.items = [.waitDeadline c token]
  enabled : (k.preemption c).isDisabled = false
  sole : SoleWake c token idle t k
  active : ∃ consumption, t.wait.active = some ⟨token, .blocked, consumption⟩
  outcome : outcome = .switch idle token.thread
  valid : validateAfterTransition k₁ = .ok ((), k₁)
  final : k₁ = (k.resumed c idle token.thread (t.wait.complete token .timeout).2).reported token
    .timeout

variable {outcome : SwitchOutcome} {k₁ : Kernel}

theorem directWake_some (h : Coherent k) (woke : directWake c expired k = .ok (some outcome, k₁)) :
    ∃ token idle t, Woke c expired k outcome k₁ token idle t := by
  have all : WP (fun _ => True) (directWake c expired) (fun result k' => ∀ outcome,
      result = some outcome → ∃ token idle t, Woke c expired k outcome k' token idle t) k := by
    rw [directWake]
    cases single : expired.single with
    | none => exact fun _ never => (by cases never)
    | some event =>
      have items : expired.items = [event] := by
        rw [ExpiredEvents.single] at single
        split at single
        · next items =>
          cases single
          exact items
        · cases single
      cases event with
      | quantumExpired owner id => exact fun _ never => (by cases never)
      | waitDeadline owner token =>
        refine .past fun own => ?_
        rw [not_or, not_ne_iff, not_ne_iff] at own
        obtain ⟨rfl, _⟩ := own
        rw [wp_bind, wp_get, wp_ite]
        refine ⟨fun _ _ never => (by cases never), fun enabled => ?_⟩
        refine wp_transitionTimedWakeFromIdle h (by rintro _ _ _ ⟨⟩) ?_
        intro idle t consumption sole active
        refine .bind (wp_iff.mpr ⟨?_, fun _ _ => trivial⟩)
        rintro ⟨⟩ k' passed _ ⟨rfl⟩
        obtain rfl := validateAfterTransition_ok passed
        exact ⟨token, idle, t, items, Bool.eq_false_iff.mpr enabled, sole, ⟨consumption, active⟩,
          rfl, passed, rfl⟩
  exact all.of_ok woke outcome rfl

variable {state : PreemptionState}

/-- A checkpoint at depth zero leaves no request. -/
theorem PreemptionState.consumeCheckpoint_enabled (enabled : state.isDisabled = false) :
    state.consumeCheckpoint true =
      (state.reschedulePending, { state with reschedulePending := false }) := by
  obtain ⟨depth, pending⟩ := state
  simp only [isDisabled, ne_eq, decide_not, Bool.not_eq_false', decide_eq_true_eq] at enabled
  subst enabled
  cases pending <;> rfl

/-- What both ways leave behind before they install the woken thread's root. -/
def Kernel.awake (k : Kernel) (c : CpuId) (idle id : ThreadId) (wait : WaitMetadata) : Kernel :=
  (k.resumed c idle id wait).setPreemption c { k.preemption c with reschedulePending := false }

/-- The installation of a root and the end of the interrupt. -/
def installAndRearm (cpu : CpuId) (id : ThreadId) (expired : ExpiredEvents) : KernelM Unit := do
  activateThreadAddressSpace cpu id
  onClocks (Clocks.endTimerInterrupt cpu ⟨none, none⟩ expired)

theorem finishDirect_eq {token : WaitToken} {idle : ThreadId} {t : Thread}
    (woke : Woke c expired k outcome k₁ token idle t) :
    (finishDirect c outcome expired k₁).map (fun result => result.2.forget) =
      (installAndRearm c token.thread expired
        (k.awake c idle token.thread (t.wait.complete token .timeout).2)).map
          fun result => result.2.forget := by
  have consumed : ((k.preemption c).consumeCheckpoint true).2 = _ :=
    congrArg Prod.snd (PreemptionState.consumeCheckpoint_enabled woke.enabled)
  dsimp only at consumed
  have final : finishDirect c outcome expired k₁ = installAndRearm c token.thread expired
      ((k.awake c idle token.thread (t.wait.complete token .timeout).2).withHistory
        k₁.history) := by
    rw [woke.outcome, woke.final]
    simp only [awake, ← consumed]
    rfl
  rw [final]
  exact Oblivious.forget (.bind .activateThreadAddressSpace fun _ => .onClocks)

section Queued

variable {E : Panic → Prop} {token : WaitToken} {idle : ThreadId} {t : Thread} {now : Nat}

theorem SoleWake.find_resumed (sole : SoleWake c token idle t k) (h : Coherent k)
    (wait : WaitMetadata) :
    ∃ u, (k.resumed c idle token.thread wait).find token.thread = some u := by
  obtain ⟨u, found, _⟩ := h.find_current sole.running
  have waiting := find_modifyThread_self
    (f := fun t => { t with wait := wait, state := .ready }) sole.found
  have resting := (find_modifyThread_other
    (f := fun t => { t with wait := wait, state := .ready }) sole.found (sole.apart h).symm).trans
      found
  have woken := (find_modifyThread_other
    (f := fun t => { t with state := .ready }) resting (sole.apart h)).trans waiting
  exact ⟨_, find_modifyThread_self woken⟩

variable {wait : WaitMetadata} {history : List Event}

variable {queue : BoundedQueue ThreadId} {Q : Unit → Kernel → Prop}

/-- The switch to the woken thread after it passed the queue. -/
theorem wp_handoffWoken {m : Kernel} (h : Coherent m)
    (shape : m = ((k.woken c token.thread wait queue).setPreemption c state).withHistory history)
    (sole : SoleWake c token idle t k) (alone : queue.items = [token.thread])
    (capacity : queue.capacity = (k.cpu c).readyQueue.capacity) {u : Thread}
    (found : m.find idle = some u) {m' : Kernel}
    (final : m' = ((k.resumed c idle token.thread wait).setPreemption c state).withHistory history)
    (valid : validateAfterTransition m' = .ok ((), m'))
    (post : WP E (activateThreadAddressSpace c token.thread) Q m') :
    WP E (handoffOptional c) Q m := by
  have cpu : m.cpu c = { k.cpu c with readyQueue := queue } := by
    rw [shape]
    exact cpu_setCpu_self
  have running : (m.cpu c).current = some idle := by
    rw [cpu]
    exact sole.running
  have head : m.ready c = token.thread :: [] := by
    rw [ready, cpu]
    exact alone
  rw [handoffOptional, wp_bind]
  refine wp_transitionOptionalSwitch_unchecked h running found head fun rest items size => ?_
  have same : rest = (k.cpu c).readyQueue := by
    have idling : (m.cpu c).idle = some idle := by
      rw [cpu]
      exact sole.idling
    rw [if_pos idling] at items
    have empty : (k.cpu c).readyQueue.items = [] := sole.ready
    rw [cpu, capacity] at size
    cases rest
    cases queued : (k.cpu c).readyQueue
    rw [queued] at size empty
    cases items
    cases size
    cases empty
    rfl
  have rotated : m.rotated c idle token.thread rest = m' := by
    rw [shape, final, ← rotated_woken same]
    rfl
  rw [rotated]
  exact .bind ((WP.of_run valid).mpr post)

/-- After the switch no peer is left, and the quantum event of the idle thread,
which is now obsolete, was never queued. -/
theorem wp_rearmWoken {id : ThreadId} {u : Thread} (found : k.find id = some u)
    (empty : k.ready c = []) (absent : .quantumExpired c idle ∉ k.events c)
    (post : WP E (installAndRearm c id expired) Q k) :
    WP E (activateThreadAddressSpace c id)
      (fun _ m => WP E (quantumToEnsure c now) (fun ensure m =>
        WP E (onClocks (Clocks.endTimerInterrupt c ⟨some (.quantumExpired c idle), ensure⟩ expired))
          Q m) m) k := by
  rw [installAndRearm, wp_bind] at post
  rw [wp_iff] at post ⊢
  refine ⟨?_, post.2⟩
  rintro ⟨⟩ m run
  have spec : WP Contract (activateThreadAddressSpace c id) (fun _ => Aside k) k :=
    wp_activateThreadAddressSpace found fun _ same => same
  have aside := spec.of_ok run
  rw [ready, ← aside.cpu] at empty
  rw [← events_congr aside.clocks] at absent
  rw [quantumToEnsure, wp_bind, wp_hasRunnablePeer, ready, empty, wp_ite]
  refine ⟨fun never => (by cases never), fun _ => ?_⟩
  have done := post.1 () m run
  rwa [WP, ← endTimerInterrupt_absent absent] at done

/-- What the batch does after the wake: the request is consumed at once. -/
theorem wp_settleWoken {m : Kernel} (idling : (m.cpu c).idle = some idle) (peer : m.ready c ≠ [])
    (online : (m.cpu c).online = true) {state : PreemptionState}
    (enabled : state.isDisabled = false) {Q : QuantumUpdate → Kernel → Prop}
    (post : WP E (handoffOptional c) (fun _ => WP E (quantumToEnsure c now) fun ensure =>
      Q ⟨some (.quantumExpired c idle), ensure⟩)
      ((m.setPreemption c
        { state with reschedulePending := false }).withHistory history)) :
    WP E (do
      let idling := (← cpuState c).idle
      let peer ← hasRunnablePeer c
      onlyIf (idling = some idle ∧ peer = true) (requestRescheduleOn c)
      let online := (← cpuState c).online
      let checkpoint ← consumeCheckpointOn c online
      onlyIf (checkpoint = true) (handoffOptional c)
      let ensure ← quantumToEnsure c now
      pure ⟨if checkpoint then some (.quantumExpired c idle) else none, ensure⟩) Q
      ((m.setPreemption c state.request).withHistory
        history) := by
  refine .bind (wp_cpuState.mpr (.bind (wp_hasRunnablePeer.mpr
    (.bind (wp_onlyIf.mpr ⟨fun _ => ?_, fun stay => absurd ⟨?_, ?_⟩ stay⟩)))))
  · have twice : ((m.setPreemption c
        state.request).withHistory history).setPreemption c
          state.request.request =
        (m.setPreemption c
          state.request.request).withHistory history := by
      simp [setPreemption, withHistory]
    have consumed : consumeCheckpointOn c true
        ((m.setPreemption c state.request.request
          ).withHistory history) = .ok (true, (m.setPreemption c
            { state with reschedulePending := false }).withHistory history) := by
      have settled : state.request.request.consumeCheckpoint true =
          (true, { state with reschedulePending := false }) :=
        PreemptionState.consumeCheckpoint_enabled enabled
      simp [consumeCheckpointOn, modifyGet, MonadStateOf.modifyGet, StateT.modifyGet, settled,
        setPreemption, withHistory, pure, Except.pure]
    have requested : (((m.setPreemption c
        state.request).withHistory history).preemption c).request =
          state.request.request := congrArg _ (Function.update_self ..)
    rw [requestRescheduleOn, wp_modify, requested, twice]
    refine .bind (wp_cpuState.mpr ((wp_bind _).mpr ?_))
    rw [Kernel.cpu] at online
    dsimp only [Kernel.cpu, setPreemption, withHistory] at consumed ⊢
    rw [online]
    refine (WP.of_run consumed).mpr (.bind (wp_onlyIf.mpr
      ⟨fun _ => ?_, fun never => absurd rfl never⟩))
    exact post.mono fun _ m done => (wp_bind _).mpr done
  · exact idling
  · change (!(m.ready c).isEmpty) = true
    simp [peer]

theorem finishQueued_eq (h : Coherent k) (sound : QuantumSound k c) (batch : Batched c expired k)
    (online : (k.cpu c).online = true) (woke : Woke c expired k outcome k₁ token idle t) :
    (finishQueued c now idle expired k).map (fun result => result.2.forget) =
      (installAndRearm c token.thread expired
        (k.awake c idle token.thread (t.wait.complete token .timeout).2)).map
          fun result => result.2.forget := by
  obtain ⟨consumption, active⟩ := woke.active
  obtain ⟨_, home, unjoined⟩ := batch.wait c token (by rw [woke.batch]; exact .head _)
  obtain ⟨u, idling, _⟩ := h.find_current woke.sole.running
  have sleeper := h.sleeper woke.sole.found active unjoined
  refine map_eq_iff_wp.mpr ?_
  rw [finishQueued, wp_bind, dispatchBatch, wp_bind, woke.batch, forEach, wp_bind, dispatchExpired,
    wp_bind, wp_stopIf]
  refine ⟨fun away => absurd away (by simp [home]), fun _ => ?_⟩
  refine .bind (wp_complete_local h sleeper active woke.sole.home ?_)
  intro queue items capacity coherent
  rw [woke.sole.ready, List.nil_append] at items
  refine wp_onlyIf.mpr ⟨fun never => (by cases never.1), fun _ => ?_⟩
  refine wp_onlyIf.mpr ⟨fun _ => ?_, fun never => absurd rfl never⟩
  have coherent' : ∀ history state, Coherent (((k.woken c token.thread
      (t.wait.complete token .timeout).2 queue).setPreemption c state).withHistory history) :=
    fun history state => coherent.congr rfl
  refine ⟨coherent' _ _, ?_⟩
  have idling' : ∀ state history, (((k.woken c token.thread (t.wait.complete token .timeout).2
      queue).setPreemption c state).withHistory history).find idle = some u := by
    intro state history
    change (k.woken c token.thread (t.wait.complete token .timeout).2 queue).find idle = some u
    rw [woken, find_setCpu,
      find_modifyThread_other woke.sole.found (woke.sole.apart h).symm, idling]
  have cpu : (k.woken c token.thread (t.wait.complete token .timeout).2 queue).cpu c =
      { k.cpu c with readyQueue := queue } := cpu_setCpu_self
  refine wp_settleWoken (m := k.woken c token.thread (t.wait.complete token .timeout).2 queue)
    (by rw [cpu]; exact woke.sole.idling) (by rw [ready, cpu]; simp [items])
    (by rw [cpu]; exact online) woke.enabled ?_
  refine wp_handoffWoken (coherent' _ _) rfl woke.sole items capacity (idling' _ _) rfl ?_ ?_
  · exact validateAfterTransition_congr (by rw [woke.final]; rfl)
      (by rw [woke.final]; rfl) woke.valid
  · obtain ⟨v, found⟩ := woke.sole.find_resumed h (t.wait.complete token .timeout).2
    have rest : Oblivious (installAndRearm c token.thread expired) :=
      .bind .activateThreadAddressSpace fun _ => .onClocks
    have resumed : (k.awake c idle token.thread (t.wait.complete token .timeout).2).cpu c =
      { k.cpu c with current := some token.thread } := cpu_setCpu_self
    refine wp_rearmWoken found ?_ (fun queued => (sound idle queued).2 woke.sole.ready)
      (map_eq_iff_wp.mp rest.forget)
    exact (congrArg (·.readyQueue.items) resumed).trans woke.sole.ready

end Queued

/-- The timer interrupt after its collecting section. -/
def finishInterrupt (cpu : CpuId) (now : Nat) (expired : ExpiredEvents) : KernelM Unit := do
  let quantum ← finishTimerInterrupt cpu now expired
  onClocks (Clocks.endTimerInterrupt cpu quantum expired)

theorem finishInterrupt_direct {k₀ : Kernel} {now : Nat} {current : ThreadId}
    (finalized : transitionFinalizeRetiredForTimer c k₀ = .ok ((), k))
    (online : (k.cpu c).online = true) (running : (k.cpu c).current = some current)
    (woke : directWake c expired k = .ok (some outcome, k₁)) :
    finishInterrupt c now expired k₀ = finishDirect c outcome expired k₁ := by
  have state : cpuState c k = .ok (k.cpu c, k) := rfl
  simp only [finishInterrupt, finishTimerInterrupt, finishDirect, bind, StateT.bind, finalized,
    Except.bind, state, online, running, woke, reduceCtorEq, if_false]
  cases consumeCheckpointOn c true k₁ with
  | error panic => rfl
  | ok consumed =>
    dsimp only
    cases handoffSelected c outcome consumed.2 with
    | error panic => rfl
    | ok handed => rfl

end Genrt
