import Genrt.Sched.Change

/-!
# Every operation is a sequence of elementary changes

One lemma per function, in the order of the sources. An operation that composes
others is traced by tracing its parts. The lemmas hold in every state, also in
states that break the scheduler invariant, except for the conditions that a
strict mode asks for.
-/

namespace Genrt

open Effect Kernel

/-- The operation is a sequence of elementary changes. -/
abbrev Traced (mode : Mode) {α : Type} (m : KernelM α) : Prop := Keeps (Evolves mode) m

/-- It is one from this state. -/
abbrev Moves (mode : Mode) (k : Kernel) {α : Type} (m : KernelM α) : Prop :=
  WP (fun _ => True) m (fun _ k' => Evolves mode k k') k

/-! ### Operations that leave threads alone -/

namespace Traced

variable {mode : Mode} {α β : Type} {c : CpuId}

variable {m : KernelM α} {next : α → KernelM β}

theorem bind (first : Traced mode m) (second : ∀ a, Traced mode (next a)) :
    Traced mode (m >>= next) :=
  Keeps.bind Evolves.trans first second

theorem pure (a : α) : Traced mode (Pure.pure a : KernelM α) := Keeps.pure Evolves.refl a

theorem throw (panic : Panic) : Traced mode (MonadExcept.throw panic : KernelM α) :=
  Keeps.throw panic

theorem stopIf {condition : Prop} [Decidable condition] {panic : Panic} :
    Traced mode (stopIf condition panic) := Keeps.stopIf Evolves.refl

theorem onlyIf {condition : Prop} [Decidable condition] {m : KernelM Unit} (yes : Traced mode m) :
    Traced mode (onlyIf condition m) := Keeps.onlyIf Evolves.refl yes

theorem orStop {value : Option α} {panic : Panic} :
    Traced mode (orStop value panic : KernelM α) := Keeps.orStop Evolves.refl

theorem get : Traced mode (MonadState.get : KernelM Kernel) := Keeps.get Evolves.refl

theorem map (f : α → β) (h : Traced mode m) : Traced mode (f <$> m) :=
  fun k => (wp_map f).mpr (h k)

theorem cpuState : Traced mode (cpuState c) := fun k => Evolves.refl k

theorem modifyCpu {f : CpuSchedulerState → CpuSchedulerState}
    (same : ∀ state, (f state).readyQueue.capacity = state.readyQueue.capacity) :
    Traced mode (modifyCpu c f) := fun _ => Evolves.aside rfl rfl (.setCpu (same _))

theorem runningThread : Traced mode (runningThread c) := fun k => Evolves.refl k

theorem hasRunnablePeer : Traced mode (hasRunnablePeer c) := fun k => Evolves.refl k

variable {id target : ThreadId} {index now code : Nat} {notify idle : Bool} {k : Kernel}
variable {home : CpuId} {user : Option UserThreadResources} {prepared : PreparedWait}
variable {token : WaitToken} {t : Thread} {space : AddressSpaceId} {expired : ExpiredEvents}

theorem threadMatches : Traced mode (threadMatches id) :=
  fun k => Evolves.refl k

theorem isRegistered : Traced mode (isRegistered c) := fun k => Evolves.refl k

theorem nowCounter : Traced mode nowCounter := fun k => Evolves.aside rfl rfl (.refl k)

/-- What follows an operation that only reads. -/
theorem wp_read {Q : β → Kernel → Prop} (reads : Keeps (fun k k' => k' = k) m)
    (post : ∀ a, WP (fun _ => True) (next a) Q k) : WP (fun _ => True) (m >>= next) Q k := by
  refine .bind ((reads k).mono ?_)
  rintro a _ rfl
  exact post a

theorem of_reads (reads : Keeps (fun k k' => k' = k) m) : Traced mode m := by
  intro k
  refine (reads k).mono ?_
  rintro _ _ rfl
  exact Evolves.refl _

/-- The thread in a slot, if there is one. -/
theorem wp_slot {Q : Thread → Kernel → Prop} (post : ∀ t, k.threadAt index = some t → Q t k) :
    WP (fun _ => True) (thread index) Q k := by
  rw [thread, wp_bind, wp_get, wp_orStop]
  exact ⟨post, fun _ => trivial⟩

theorem thread_reads : Keeps (fun k k' => k' = k) (thread index) :=
  fun _ => wp_slot fun _ _ => rfl

theorem threadState_reads : Keeps (fun k k' => k' = k) (threadState index) :=
  fun k => .bind (thread_reads k)

theorem threadHomeCpu_reads : Keeps (fun k k' => k' = k) (threadHomeCpu index) :=
  fun k => .bind (thread_reads k)

theorem validateAfterTransition_reads : Keeps (fun k k' => k' = k) validateAfterTransition := by
  intro k
  refine wp_iff.mpr ⟨fun _ k' passed => ?_, fun _ _ => trivial⟩
  unfold validateAfterTransition at passed
  split at passed
  · split at passed <;> cases passed
    rfl
  · cases passed
    rfl

theorem thread : Traced mode (thread index) := of_reads thread_reads

theorem threadHomeCpu : Traced mode (threadHomeCpu index) := of_reads threadHomeCpu_reads

theorem threadState : Traced mode (threadState index) := of_reads threadState_reads

theorem threadAddressSpace : Traced mode (threadAddressSpace index) :=
  bind thread fun _ => pure _

theorem validateAfterTransition : Traced mode validateAfterTransition :=
  of_reads validateAfterTransition_reads

theorem onClocks {operation : TimeM α} : Traced mode (onClocks operation) := by
  intro k
  refine wp_onClocks.mpr (wp_iff.mpr ⟨fun _ _ _ => ?_, fun _ _ => trivial⟩)
  exact Evolves.aside rfl rfl (.refl k)

/-- A thread may change in what waits, exits and joins do not depend on. -/
theorem threadMut {f : Thread → Thread} (edited : ∀ t, Edited mode t (f t)) :
    Traced mode (threadMut index f) := by
  exact fun k => .bind (wp_slot fun t found => Evolves.edit found (edited t))

theorem setState {state : ThreadState} : Traced mode (setState index state) :=
  threadMut fun _ => ⟨rfl, rfl, rfl, rfl, fun _ _ => rfl⟩

theorem requestRescheduleOn : Traced mode (requestRescheduleOn c) :=
  fun k => Evolves.aside rfl rfl (.refl k)

theorem consumeCheckpointOn {online : Bool} : Traced mode (consumeCheckpointOn c online) :=
  fun k => Evolves.aside rfl rfl (.refl k)

theorem assertPreemptionEnabledOn : Traced mode (assertPreemptionEnabledOn c) :=
  bind get fun _ => stopIf

theorem quantumDeadline : Traced mode (quantumDeadline now) :=
  bind get fun _ => pure _

theorem ensureQuantumEvent : Traced mode (ensureQuantumEvent c) := by
  refine bind runningThread fun running => ?_
  cases running with
  | none => exact pure ()
  | some current =>
    refine bind hasRunnablePeer fun peer => Keeps.ite (pure ()) ?_
    refine bind onClocks fun pending => Keeps.ite (pure ()) ?_
    exact bind nowCounter fun _ => bind quantumDeadline fun _ => onClocks

theorem noteRunnablePeerAvailable : Traced mode (noteRunnablePeerAvailable c) :=
  bind runningThread fun _ => bind hasRunnablePeer fun _ =>
    onlyIf (bind requestRescheduleOn fun _ => ensureQuantumEvent)

theorem replaceQuantumEvent : Traced mode (replaceQuantumEvent c id) :=
  bind onClocks fun _ => ensureQuantumEvent

/-! ### Queues and switches -/

theorem requestSchedulerIpi : Traced mode (requestSchedulerIpi c) := by
  refine bind get fun _ => onlyIf (bind ?_ fun _ => bind stopIf fun _ => ?_)
  · exact fun k => Evolves.aside rfl rfl (.refl k)
  · exact fun k => Evolves.aside rfl rfl (.refl k)

theorem publishRemoteReady : Traced mode (publishRemoteReady id c) := by
  intro k
  rw [Genrt.publishRemoteReady, wp_bind, wp_get]
  refine .past fun _ => ?_
  refine .given fun queue pushed => ?_
  have placed : Evolves mode k (k.setRemote c queue) :=
    Evolves.aside rfl rfl (.setRemote (BoundedQueue.pushBack_some pushed).2)
  exact .bind ((requestSchedulerIpi _).mono fun _ k' rest =>
    Evolves.trans _ _ _ placed rest)

theorem readyPushBack : Traced mode (readyPushBack c id) := by
  intro k
  rw [Genrt.readyPushBack, wp_bind, wp_cpuState]
  refine .past fun _ => ?_
  refine wp_read threadHomeCpu_reads fun home => ?_
  simp only [wp_bind, wp_stopIf, wp_orStop, wp_modifyCpu]
  refine ⟨fun _ => trivial, fun _ =>
    ⟨fun _ => trivial, fun _ => ⟨fun queue pushed => ?_, fun _ => trivial⟩⟩⟩
  exact Evolves.aside rfl rfl (.setCpu (BoundedQueue.pushBack_some pushed).2)

theorem readyPopFront : Traced mode (readyPopFront c) := by
  intro k
  rw [Genrt.readyPopFront, wp_bind, wp_cpuState]
  cases popped : (k.cpu c).readyQueue.popFront with
  | none => exact Evolves.refl k
  | some head =>
    obtain ⟨id, queue⟩ := head
    simp only [wp_bind, wp_modifyCpu, wp_get, wp_stopIf, wp_pure]
    refine ⟨fun _ => trivial, fun _ => ?_⟩
    exact Evolves.aside rfl rfl (.setCpu (BoundedQueue.popFront_some popped).2)

theorem idleThread : Traced mode (idleThread c) := bind cpuState fun _ => orStop

theorem selectNext : Traced mode (selectNext c) := by
  refine bind readyPopFront fun head => ?_
  cases head with
  | none => exact idleThread
  | some id => exact pure id

theorem makeReadyAndQueue : Traced mode (makeReadyAndQueue c id notify) :=
  bind threadMatches fun _ => bind stopIf fun _ => bind setState fun _ => bind cpuState fun _ =>
    onlyIf (bind readyPushBack fun _ => onlyIf noteRunnablePeerAvailable)

theorem makeRunning : Traced mode (makeRunning c id) :=
  bind get fun _ => bind stopIf fun _ => bind threadHomeCpu fun _ => bind stopIf fun _ =>
    bind setState fun _ => modifyCpu fun _ => rfl

theorem assertCurrentRunning : Traced mode (assertCurrentRunning id) :=
  bind thread fun _ => bind get fun _ => stopIf

/-- A thread that passes the assertion is live. -/
theorem wp_assertCurrentRunning_live {Q : Unit → Kernel → Prop}
    (post : ∀ t, k.find id = some t → t.state = .running → Q () k) :
    WP (fun _ => True) (Genrt.assertCurrentRunning id) Q k := by
  refine .bind (wp_slot fun t occupant => ?_)
  rw [wp_bind, wp_get, wp_stopIf]
  refine ⟨fun _ => trivial, fun running => ?_⟩
  simp only [not_or, not_not] at running
  obtain ⟨_, live, state⟩ := running
  obtain ⟨u, found⟩ := Option.ne_none_iff_exists'.mp live
  obtain rfl := Option.mem_unique occupant (threadAt_of_find found)
  exact post t found state

/-- What follows a sequence of changes. -/
theorem after {k' : Kernel} (first : Evolves mode k k') (rest : Traced mode m) :
    WP (fun _ => True) m (fun _ k'' => Evolves mode k k'') k' :=
  (rest k').mono fun _ k'' => Evolves.trans k k' k'' first

theorem takeFreeSlot : Traced mode takeFreeSlot := by
  intro k
  rw [Genrt.takeFreeSlot, wp_bind, wp_get]
  cases k.scheduler.lifecycle.freeSlots with
  | nil => exact Evolves.refl k
  | cons index rest => exact Evolves.aside rfl rfl (.refl k)

theorem publishVisible {bootstrap : Bool} :
    Traced mode (publishVisible c home id bootstrap idle) := by
  refine Keeps.ite ?_ (Keeps.ite ?_ publishRemoteReady)
  · exact bind cpuState fun _ => bind stopIf fun _ => modifyCpu fun _ => rfl
  · exact bind cpuState fun _ => bind readyPushBack fun _ => onlyIf noteRunnablePeerAvailable

/-- A published slot holds a new thread that has done nothing yet. -/
theorem wp_publish {joinable bootstrap : Bool} {generation : Nat} (allowed : mode.lifecycle = true)
    (next : ∀ slot, k.scheduler.lifecycle.slots[index]? = some slot →
      generation = nextGeneration slot.generation ∨
        mode.booting = true ∧ generation = initialThreadGeneration) :
    Moves mode k (publish c home index user joinable generation bootstrap idle) := by
  rw [Moves, publish]
  refine .past fun _ => ?_
  rw [wp_bind, wp_get]
  refine .given fun slot present => ?_
  refine .past fun occupied => ?_
  refine .given fun stack _ => ?_
  have free : slot.thread = none := by simpa using occupied
  rw [wp_bind, wp_modify, wp_bind, wp_record]
  refine (bind stopIf (fun _ => bind publishVisible fun _ => validateAfterTransition) _).mono
    fun _ k' rest => Evolves.trans _ _ _ (Evolves.single ?_) rest
  exact .publish allowed present free rfl rfl ⟨rfl, rfl⟩ (next slot present)

/-- A slot that was never published may get the initial generation in any mode. -/
theorem transitionPublishBootstrap (allowed : mode.lifecycle = true)
    (first : mode.booting = true ∨ k.Fresh index) :
    Moves mode k (transitionPublishBootstrap c index idle) := by
  rw [Moves, Genrt.transitionPublishBootstrap, wp_bind, wp_get]
  refine .given fun slot present => ?_
  refine .past fun _ => wp_publish allowed fun slot present => ?_
  rcases first with booting | fresh
  · exact .inr ⟨booting, rfl⟩
  · rw [fresh slot present]
    exact .inl rfl

theorem transitionPublishRuntime {joinable : Bool} (allowed : mode.lifecycle = true) :
    Traced mode (transitionPublishRuntime c home index user joinable) := by
  intro k
  rw [Genrt.transitionPublishRuntime, wp_bind, wp_get]
  refine .given fun slot present => ?_
  refine .bind ((wp_publish allowed fun found same => .inl ?_).mono fun _ _ done => done)
  rw [Option.mem_unique present same]

theorem transitionInitialDispatch : Traced mode (transitionInitialDispatch c) := by
  refine bind cpuState fun _ => Keeps.ite (pure _) (bind selectNext fun _ => ?_)
  exact bind makeRunning fun _ => bind (modifyCpu fun _ => rfl) fun _ =>
    bind validateAfterTransition fun _ => pure _

theorem transitionInitializeIdleCurrent (allowed : mode.lifecycle = true)
    (first : mode.booting = true ∨
      ∀ index rest, k.scheduler.lifecycle.freeSlots = index :: rest → k.Fresh index) :
    Moves mode k (transitionInitializeIdleCurrent c) := by
  rw [Moves, Genrt.transitionInitializeIdleCurrent, wp_bind, wp_cpuState, wp_ite]
  refine ⟨fun _ => Evolves.refl k, fun _ => ?_⟩
  rw [wp_bind, Genrt.takeFreeSlot, wp_bind, wp_get]
  cases free : k.scheduler.lifecycle.freeSlots with
  | nil => exact Evolves.refl k
  | cons index rest =>
    have taken : Evolves mode k (k.setFreeSlots rest) := Evolves.aside rfl rfl (.refl k)
    have published : Moves mode (k.setFreeSlots rest)
        (Genrt.transitionPublishBootstrap c index true) :=
      transitionPublishBootstrap allowed (first.imp_right fun fresh => fresh index rest free)
    refine .bind (wp_set.mpr (.bind (published.mono fun _ k' done => ?_)))
    exact after (Evolves.trans _ _ _ taken done) transitionInitialDispatch

theorem transitionOptionalSwitch : Traced mode (transitionOptionalSwitch c) := by
  refine bind runningThread fun running => ?_
  cases running with
  | none => exact pure _
  | some outgoing =>
    refine bind assertCurrentRunning fun _ => bind readyPopFront fun head => ?_
    cases head with
    | none => exact bind validateAfterTransition fun _ => pure _
    | some next =>
      exact bind makeReadyAndQueue fun _ => bind makeRunning fun _ =>
        bind validateAfterTransition fun _ => pure _

/-! ### Waits -/

/-- An operation on the wait of the thread in a slot, with its log entry. -/
theorem wp_threadWait_traced {operation : WaitMetadata → α × WaitMetadata} {Q : α → Kernel → Prop}
    (post : ∀ id t, id.index = index → k.find id = some t →
      Q (operation t.wait).1 (k.modifyThread index fun t' =>
        { t' with wait := (operation t.wait).2 })) :
    WP (fun _ => True) (threadWait index operation) Q k := by
  refine .bind (wp_slot fun t occupant => ?_)
  obtain ⟨id, same, found⟩ := find_of_threadAt occupant
  exact post id t same found

theorem transitionPrepareWaitWith {consumption : WaitConsumption} :
    Traced mode (transitionPrepareWaitWith c consumption) := by
  intro k
  rw [Genrt.transitionPrepareWaitWith, wp_bind, Genrt.assertPreemptionEnabledOn, wp_bind, wp_get,
    wp_stopIf]
  refine ⟨fun _ => trivial, fun _ => ?_⟩
  rw [wp_bind, wp_runningThread]
  refine .given fun current _ => .bind (wp_assertCurrentRunning_live fun t found _ => ?_)
  rw [wp_bind, wp_thread (threadAt_of_find found)]
  cases prepared : t.wait.prepareWithConsumption current c consumption with
  | error panic => trivial
  | ok result =>
    obtain ⟨free, fits, rfl⟩ : t.wait.active = none ∧ t.wait.nextSequence + 1 < 2 ^ 64 ∧
        result = (⟨⟨current, c, t.wait.nextSequence + 1⟩, consumption⟩, ⟨t.wait.nextSequence + 1,
          some ⟨⟨current, c, t.wait.nextSequence + 1⟩, .prepared, consumption⟩⟩) := by
      unfold WaitMetadata.prepareWithConsumption at prepared
      split at prepared
      · cases prepared
      · next free =>
        split at prepared
        · cases prepared
        · next fits => exact ⟨by simpa using free, by omega, (Except.ok.inj prepared).symm⟩
    rw [wp_bind, wp_threadMut (threadAt_of_find found), wp_bind, wp_record]
    exact after (Evolves.single (.wait found (.prepare free fits)))
      (bind validateAfterTransition fun _ => pure _)

theorem transitionCommitWait : Traced mode (transitionCommitWait c prepared) := by
  refine bind assertPreemptionEnabledOn fun _ => bind runningThread fun _ =>
    bind orStop fun current => bind assertCurrentRunning fun _ => bind idleThread fun _ =>
    bind stopIf fun _ => ?_
  intro k
  refine .bind (wp_threadWait_traced fun id t same found => ?_)
  rw [wp_bind, wp_record, ← same]
  refine after (Evolves.single (.wait found (.commit prepared))) ?_
  cases (t.wait.commit prepared).1 with
  | block token =>
    exact bind selectNext fun _ => bind setState fun _ => bind makeRunning fun _ =>
      bind validateAfterTransition fun _ => pure _
  | early cause => exact bind validateAfterTransition fun _ => pure _
  | stale => exact bind validateAfterTransition fun _ => pure _

theorem completeWaitTransition {cause : WaitCause} :
    Traced mode (completeWaitTransition c token cause notify) := by
  intro k
  rw [Genrt.completeWaitTransition, wp_bind, wp_threadMatches, wp_ite]
  refine ⟨fun _ => Evolves.single (.missed rfl), fun _ => ?_⟩
  refine .bind (wp_threadWait_traced fun id t same found => ?_)
  rw [wp_bind, wp_record, wp_bind, ← same]
  have finish : ∀ result, Traced mode (do
      Genrt.validateAfterTransition
      Pure.pure result : KernelM CompletionResult) :=
    fun _ => bind validateAfterTransition fun _ => pure _
  have asleep : (t.wait.complete token cause).1 ≠ .wokeBlocked → Evolves mode k
      ((k.modifyThread id.index fun t' => { t' with wait := (t.wait.complete token cause).2 }).log
        (.completed token cause (t.wait.complete token cause).1)) :=
    fun asleep => Evolves.single (.wait found (.complete asleep))
  cases result : (t.wait.complete token cause).1 with
  | wokeBlocked =>
    refine wp_read threadState_reads fun state => ?_
    refine .past fun _ => wp_read threadHomeCpu_reads fun home => ?_
    rw [wp_bind, wp_record]
    have woke : Evolves mode k _ := Evolves.single (.wait found (.wake result))
    refine (after woke (Keeps.ite ?_ ?_)).mono fun _ _ done => after done (finish _)
    · exact bind makeReadyAndQueue fun _ => onlyIf requestRescheduleOn
    · exact bind setState fun _ => publishRemoteReady
  | completedPrepared =>
    rw [result] at asleep
    exact (after (asleep (by simp)) (bind threadState fun _ => stopIf)).mono
      fun _ _ done => after done (finish _)
  | alreadyCompleted =>
    rw [result] at asleep
    exact after (asleep (by simp)) (finish _)
  | stale =>
    rw [result] at asleep
    exact after (asleep (by simp)) (finish _)

theorem transitionTimedWakeFromIdle : Traced mode (transitionTimedWakeFromIdle c token) := by
  refine bind runningThread fun running => ?_
  cases running with
  | none => exact pure _
  | some current =>
    refine bind get fun _ => Keeps.ite (pure _) (bind assertCurrentRunning fun _ => ?_)
    intro k
    refine .bind (wp_threadWait_traced fun id t same found => ?_)
    rw [wp_bind, wp_record, wp_ite, ← same]
    refine ⟨fun asleep => Evolves.single (.wait found (.complete asleep)), fun woke => ?_⟩
    rw [not_ne_iff] at woke
    have stored : ((k.modifyThread id.index fun t' =>
        { t' with wait := (t.wait.complete token .timeout).2 }).log
          (.completed token .timeout .wokeBlocked)).threadAt id.index =
        some { t with wait := (t.wait.complete token .timeout).2 } :=
      threadAt_of_find (find_modifyThread_self found)
    rw [woke]
    refine .bind ((wp_setState stored).mpr (.bind (wp_record.mpr ?_)))
    have step₁ : Evolves mode k _ := Evolves.single (.wait found (.wake woke))
    refine after (Evolves.trans _ _ _ step₁
      (Evolves.edit stored ⟨rfl, rfl, rfl, rfl, fun _ _ => rfl⟩)) ?_
    exact bind makeReadyAndQueue fun _ => bind makeRunning fun _ =>
      bind validateAfterTransition fun _ => pure _

theorem transitionFinishWait : Traced mode (transitionFinishWait token) := by
  refine bind get fun _ => Keeps.ite ?_ (bind assertCurrentRunning fun _ => ?_)
  · exact fun k => Evolves.single (.missed rfl)
  · intro k
    refine .bind (wp_threadWait_traced fun id t same found => ?_)
    rw [wp_bind, wp_record, ← same]
    exact after (Evolves.single (.wait found (.finish token)))
      (bind validateAfterTransition fun _ => pure _)

theorem transitionCancelWait : Traced mode (transitionCancelWait prepared) := by
  refine bind get fun _ => Keeps.ite ?_ (bind assertCurrentRunning fun _ => ?_)
  · exact fun k => Evolves.single (.missed rfl)
  · intro k
    refine .bind (wp_threadWait_traced fun id t same found => ?_)
    rw [wp_bind, wp_record, ← same]
    exact after (Evolves.single (.wait found (.cancel prepared)))
      (bind validateAfterTransition fun _ => pure _)

/-! ### Exit, reap and join -/

variable {Q : Option UserThreadResources → Kernel → Prop}

/-- A live thread is released once its wait is over. -/
theorem wp_reapExited_live (found : k.find id = some t)
    (post : t.wait.active = none → Q t.user (k.reaped id t)) :
    WP (fun _ => True) (reapExited id) Q k := by
  rw [reapExited, wp_bind, wp_get, found]
  refine .past fun idle => post ?_
  simpa [WaitMetadata.isNone] using idle

theorem wp_transitionReapExited_live
    (post : ∀ t, k.find id = some t → t.wait.active = none → Q t.user (k.reaped id t)) :
    WP (fun _ => True) (transitionReapExited id) Q k := by
  rw [transitionReapExited, wp_bind, wp_get]
  refine .past fun reclaimable => ?_
  obtain ⟨t, found⟩ : ∃ t, k.find id = some t := by
    rw [Kernel.reclaimable] at reclaimable
    cases found : k.find id with
    | none => simp [found] at reclaimable
    | some t => exact ⟨t, rfl⟩
  refine wp_read threadHomeCpu_reads fun home => ?_
  rw [wp_bind, wp_get]
  refine .past fun _ => .bind (wp_reapExited_live found fun free => ?_)
  exact wp_read validateAfterTransition_reads fun _ => post t found free

theorem transitionReapExited (allowed : mode.lifecycle = true) (relaxed : mode.strict = false) :
    Traced mode (transitionReapExited id) := fun _ =>
  wp_transitionReapExited_live fun _ found free =>
    Evolves.single (.reap allowed found free fun strict => by simp [relaxed] at strict)

/-- A live joiner without resources takes those of the reaped thread. -/
theorem wp_setReapedUser_live {Q : Unit → Kernel → Prop}
    (post : ∀ t, k.find id = some t → t.reapedUser = none →
      Q () (k.modifyThread id.index fun t => { t with reapedUser := user })) :
    WP (fun _ => True) (setReapedUser id user) Q k := by
  rw [setReapedUser, wp_bind, wp_get]
  refine .given fun t found => ?_
  refine .past fun empty => (wp_threadMut (threadAt_of_find found)).mpr ?_
  exact post t found (by simpa using empty)

/-- A retired thread is handed to its joiner, released, or kept. -/
theorem wp_finalizeThread_traced (allowed : mode.lifecycle = true) {u : Thread}
    (found : k.find id = some u) (code : u.exitCode = t.exitCode)
    (joinable : u.joinable = t.joinable)
    (facts : mode.strict = true → u.exitCode.isSome = true ∧ ∀ token, t.joiner = some token →
      ∃ j, k.find token.thread = some j ∧ j.exitCode = none ∧ j.Consumed) :
    Moves mode k (finalizeThread c id t notify) := by
  rw [Moves, finalizeThread]
  cases waiting : t.joiner with
  | none =>
    refine wp_onlyIf.mpr ⟨fun detached => ?_, fun _ => Evolves.refl k⟩
    refine .bind (wp_reapExited_live found fun free => ?_)
    exact after (Evolves.single (.reap allowed found free fun strict =>
      ⟨(facts strict).1, joinable.trans detached⟩)) stopIf
  | some token =>
    refine .given fun value stored => ?_
    rw [wp_bind, completeJoiner, wp_bind]
    have traced : Traced mode (Genrt.completeWaitTransition c token .notified notify) :=
      completeWaitTransition
    have surviving : Traced .still (Genrt.completeWaitTransition c token .notified notify) :=
      completeWaitTransition
    refine ((traced k).and (surviving k)).mono ?_
    rintro result k₁ ⟨evolves, still⟩
    obtain ⟨u₁, found₁, survives⟩ := still.survives found
    refine .past fun _ => ?_
    rw [Genrt.setJoinResult, Genrt.threadMut]
    refine wp_read thread_reads fun _ => ?_
    rw [wp_modify, wp_bind]
    obtain ⟨u₂, found₂⟩ : ∃ u₂, (k₁.modifyThread token.thread.index fun j =>
        { j with lastJoinResult := some (.ok value) }).find id = some u₂ := by
      rw [find_modifyThread, found₁]
      split
      · exact ⟨_, rfl⟩
      · exact ⟨_, rfl⟩
    refine wp_reapExited_live found₂ fun free => .bind (wp_setReapedUser_live ?_)
    intro j₂ live₂ unreaped
    rw [find_reaped found₂, Function.update_apply] at live₂
    split at live₂
    · cases live₂
    next different =>
    have apart : token.thread.index ≠ id.index := fun same =>
      different (find_unique live₂ found₂ same)
    rw [find_modifyThread, if_neg apart.symm, found₁] at found₂
    obtain rfl := Option.some.inj found₂
    -- the joiner's result may be stored before the slot is released
    rw [wp_record, reaped_modifyThread apart, modifyThread_modifyThread]
    refine Evolves.trans _ _ _ evolves (Evolves.single ?_)
    obtain ⟨j₁, live₁⟩ : ∃ j₁, k₁.find token.thread = some j₁ := by
      rw [find_modifyThread, if_pos rfl, Option.map_eq_some_iff] at live₂
      obtain ⟨j₁, live₁, _⟩ := live₂
      exact ⟨j₁, live₁⟩
    refine .hand allowed found₁ live₁ (Ne.symm different) free fun strict => ?_
    obtain ⟨j, live, alive, consumed⟩ := (facts strict).2 token waiting
    obtain ⟨j', live', kept⟩ := still.survives live
    obtain rfl := Option.mem_unique live₁ live'
    exact ⟨survives.code.trans (code.trans stored), kept.code.trans alive,
      kept.result.trans consumed.1, kept.reaped.trans consumed.2⟩

theorem transitionExitCurrent (allowed : mode.lifecycle = true)
    (facts : mode.strict = true → ∀ id t, (k.cpu c).current = some id → k.find id = some t →
      t.exitCode = none ∧ t.Consumed) : Moves mode k (transitionExitCurrent c code) := by
  rw [Moves, Genrt.transitionExitCurrent, wp_bind, wp_runningThread]
  refine .given fun current running => .bind (wp_assertCurrentRunning_live fun t found _ => ?_)
  rw [wp_bind, Genrt.idleThread, wp_bind, wp_cpuState, wp_orStop]
  refine ⟨fun idle _ => ?_, fun _ => trivial⟩
  refine .past fun _ => ?_
  rw [wp_bind, wp_cpuState]
  refine .past fun _ => ?_
  have stored : (k.modifyThread current.index fun t => { t with exitCode := some code }).threadAt
      current.index = some { t with exitCode := some code } :=
    threadAt_of_find (find_modifyThread_self found)
  rw [wp_bind, wp_threadMut (threadAt_of_find found)]
  refine .bind ((wp_setState stored).mpr ((wp_bind _).mpr ?_))
  refine (wp_thread (threadAt_modifyThread stored)).mpr (.bind (wp_record.mpr ?_))
  have exited : Evolves mode k (((k.modifyThread current.index fun t =>
      { t with exitCode := some code }).modifyThread current.index fun t =>
        { t with state := .exited }).log (.exited current code t.user)) := by
    rw [modifyThread_modifyThread]
    exact Evolves.single (.exit allowed found fun strict => facts strict current t running found)
  refine after exited ?_
  exact bind (modifyCpu fun _ => rfl) fun _ => bind selectNext fun _ => bind makeRunning fun _ =>
    bind requestSchedulerIpi fun _ => bind validateAfterTransition fun _ => pure _

theorem drainRemoteReady (fuel : Nat) : Traced mode (drainRemoteReady c fuel) := by
  induction fuel with
  | zero => exact pure ()
  | succ fuel ih =>
    intro k
    rw [Genrt.drainRemoteReady, wp_bind, wp_get]
    cases popped : (k.scheduler.remoteReady c).popFront with
    | none => exact Evolves.refl k
    | some head =>
      obtain ⟨id, queue⟩ := head
      refine .bind ((wp_modify _).mpr ?_)
      refine after (Evolves.aside rfl rfl (.setRemote (BoundedQueue.popFront_some popped).2)) ?_
      exact bind get fun _ => bind stopIf fun _ => bind readyPushBack fun _ => ih

theorem consumeSchedulerIpi : Traced mode (consumeSchedulerIpi c) := by
  refine bind get fun k => bind ?_ fun _ => bind stopIf fun _ => drainRemoteReady _
  exact fun k => Evolves.aside rfl rfl (.refl k)

/-! ### Entries and calls -/

theorem retainUserAddressSpaceForIdle : Traced mode (retainUserAddressSpaceForIdle c) :=
  fun k => Evolves.aside rfl rfl (.refl k)

theorem clearUserAddressSpace : Traced mode (clearUserAddressSpace c) := by
  refine bind (fun k => Evolves.aside rfl rfl (.refl k)) fun _ k => ?_
  rw [wp_bind, wp_get]
  refine wp_ite.mpr ⟨fun _ => Evolves.refl k, fun _ => wp_ite.mpr
    ⟨fun _ => Evolves.refl k, fun _ => ?_⟩⟩
  exact Evolves.aside rfl rfl (.refl k)

theorem activateUserAddressSpace : Traced mode (activateUserAddressSpace c space) := by
  intro k
  have installed : ∀ state, Evolves mode k (k.setUserSpace c state) :=
    fun _ => Evolves.aside rfl rfl (.refl k)
  rw [Genrt.activateUserAddressSpace, wp_bind, wp_get]
  refine wp_ite.mpr ⟨fun _ => Evolves.refl k, fun _ => wp_ite.mpr
    ⟨fun _ => installed _, fun _ => ?_⟩⟩
  refine wp_ite.mpr ⟨fun _ => Evolves.refl k, fun _ => wp_ite.mpr
    ⟨fun _ => installed _, fun _ => ?_⟩⟩
  exact installed _

theorem activateThreadAddressSpace : Traced mode (activateThreadAddressSpace c id) := by
  refine bind threadAddressSpace fun space => ?_
  cases space with
  | some space => exact bind activateUserAddressSpace fun _ => stopIf
  | none =>
    refine bind cpuState fun _ => Keeps.ite ?_ ?_
    · exact bind retainUserAddressSpaceForIdle fun _ => stopIf
    · exact bind clearUserAddressSpace fun _ => stopIf

theorem handoffSelected {outcome : SwitchOutcome} : Traced mode (handoffSelected c outcome) := by
  cases outcome with
  | continueCurrent => exact pure ()
  | switch outgoing next => exact activateThreadAddressSpace

theorem handoffOptional : Traced mode (handoffOptional c) :=
  bind transitionOptionalSwitch fun _ => handoffSelected

theorem checkpointHandoff : Traced mode (checkpointHandoff c) := by
  refine bind cpuState fun _ => bind consumeCheckpointOn fun _ =>
    onlyIf (bind runningThread fun running => ?_)
  cases running with
  | none => exact pure ()
  | some current => exact bind handoffOptional fun _ => replaceQuantumEvent

theorem dispatchExpired {event : TimedEvent} : Traced mode (dispatchExpired c event) := by
  cases event with
  | waitDeadline owner token =>
    exact bind stopIf fun _ => bind completeWaitTransition fun _ => pure ()
  | quantumExpired owner id =>
    exact bind stopIf fun _ => bind runningThread fun _ => onlyIf requestRescheduleOn

theorem quantumToEnsure : Traced mode (quantumToEnsure c now) :=
  bind hasRunnablePeer fun _ => Keeps.ite (bind runningThread fun _ => bind orStop fun _ =>
    bind quantumDeadline fun _ => pure _) (pure _)

theorem dispatchBatch {current : ThreadId} : Traced mode (dispatchBatch c now current expired) :=
  bind (Keeps.forEach Evolves.refl Evolves.trans (fun _ => dispatchExpired) _) fun _ =>
    bind cpuState fun _ => bind hasRunnablePeer fun _ => bind (onlyIf requestRescheduleOn) fun _ =>
      bind cpuState fun _ => bind consumeCheckpointOn fun _ =>
        bind (onlyIf handoffOptional) fun _ => bind quantumToEnsure fun _ => pure _

theorem directWake : Traced mode (directWake c expired) := by
  rw [Genrt.directWake]
  cases expired.single with
  | none => exact pure none
  | some event =>
    cases event with
    | quantumExpired owner id => exact pure none
    | waitDeadline owner token =>
      exact bind stopIf fun _ => bind get fun _ => Keeps.ite (pure none) transitionTimedWakeFromIdle

theorem resolveAffinity {affinity : ThreadAffinity} : Traced mode (resolveAffinity c affinity) :=
  bind isRegistered fun _ => Keeps.ite (pure _) (bind cpuState fun _ => Keeps.ite (pure _) (pure _))

section

variable (allowed : mode.lifecycle = true) (facts : mode.strict = true → Coherent k)

include allowed facts

theorem finalizeRetired : Moves mode k (finalizeRetired c notify) := by
  rw [Moves, Genrt.finalizeRetired, wp_bind, wp_cpuState]
  cases retired : (k.cpu c).retired with
  | none => exact Evolves.refl k
  | some id =>
    rw [wp_bind, wp_modifyCpu, wp_bind, wp_get]
    refine .past fun valid => ?_
    obtain ⟨t, found, exited⟩ : ∃ t, k.find id = some t ∧ t.state = .exited := by
      simp only [retiredValid, find_setCpu] at valid
      cases found : k.find id with
      | none => simp [found] at valid
      | some t =>
        refine ⟨t, rfl, ?_⟩
        simp only [found, Bool.not_eq_false, Bool.and_eq_true, decide_eq_true_eq] at valid
        exact valid.2.1
    have slot : (k.setCpu c { k.cpu c with retired := none }).threadAt id.index = some t :=
      threadAt_of_find found
    refine .bind ((wp_thread slot).mpr (.bind ((wp_threadMut slot).mpr ?_)))
    have off : Evolves mode k (k.setCpu c { k.cpu c with retired := none }) :=
      Evolves.aside rfl rfl (.setCpu rfl)
    have unretired : Evolves mode k ((k.setCpu c { k.cpu c with retired := none }).modifyThread
        id.index fun t => { t with joiner := none }) :=
      Evolves.trans _ _ _ off (Evolves.edit slot ⟨rfl, rfl, rfl, rfl, fun _ _ => rfl⟩)
    have live : ((k.setCpu c { k.cpu c with retired := none }).modifyThread id.index
        fun t => { t with joiner := none }).find id = some { t with joiner := none } :=
      find_modifyThread_self found
    refine .bind ((wp_finalizeThread_traced (t := t) allowed live rfl rfl ?_).mono
      fun _ k' done => after (Evolves.trans _ _ _ unretired done) validateAfterTransition)
    intro strict
    have coherent := facts strict
    refine ⟨(coherent.thread id t found).code.mpr exited, fun token waiting => ?_⟩
    have registered : k.joinerOf id = some token := by
      rw [joinerOf, found, Option.bind_some, waiting]
    obtain ⟨j, joiner, blocked, _, result, reaped⟩ := coherent.join.joining id token registered
    have apart := ne_of_state joiner found (by simp [blocked, exited])
    have alive : j.exitCode = none := by
      have code := (coherent.thread _ j joiner).code
      rw [blocked] at code
      simpa using code
    refine ⟨j, ?_, alive, result, reaped⟩
    have moved := find_modifyThread_other
      (f := fun t => { t with joiner := none }) (k := k.setCpu c { k.cpu c with retired := none })
      found apart
    exact moved.trans joiner

/-- What runs after the finalization at the start of an entry. -/
theorem afterFinalizing {next : Unit → KernelM α} (rest : ∀ a, Traced mode (next a)) :
    Moves mode k (Genrt.finalizeRetired c notify >>= next) :=
  .bind ((finalizeRetired allowed facts).mono fun a _ done => after done (rest a))

theorem finishSchedulerIpi : Moves mode k (Genrt.finishSchedulerIpi c) :=
  afterFinalizing allowed facts fun _ => bind cpuState fun _ => onlyIf (bind consumeSchedulerIpi
    fun _ => bind noteRunnablePeerAvailable fun _ => checkpointHandoff)

theorem preemptCheckpoint : Moves mode k (preemptCheckpoint c) :=
  afterFinalizing allowed facts fun _ => checkpointHandoff

theorem finishTimerInterrupt : Moves mode k (Genrt.finishTimerInterrupt c now expired) := by
  refine afterFinalizing allowed facts fun _ => bind cpuState fun state => Keeps.ite (pure _) ?_
  cases state.current with
  | none => exact pure _
  | some current =>
    refine bind directWake fun woken => ?_
    cases woken with
    | none => exact dispatchBatch
    | some outcome => exact bind consumeCheckpointOn fun _ => bind handoffSelected fun _ => pure _

theorem spawnThread {attrs : ThreadAttrs} : Moves mode k (spawnThread c attrs) := by
  refine afterFinalizing allowed facts fun _ => bind resolveAffinity fun target => ?_
  cases target with
  | error error => exact pure _
  | ok target =>
    refine bind takeFreeSlot fun taken => ?_
    cases taken with
    | none => exact pure _
    | some index => exact map _ (transitionPublishRuntime allowed)

end

theorem finishBlockAfterQuantumCancel : Traced mode (finishBlockAfterQuantumCancel c id) :=
  bind cpuState fun _ => bind consumeCheckpointOn fun _ => ensureQuantumEvent

theorem finishBlockCurrent : Traced mode (finishBlockCurrent c id) :=
  bind onClocks fun _ => finishBlockAfterQuantumCancel

theorem prepareRunningThreadEntry : Traced mode (prepareRunningThreadEntry c) :=
  bind runningThread fun _ => bind orStop fun _ => bind cpuState fun _ => bind stopIf fun _ =>
    bind ensureQuantumEvent fun _ => bind activateThreadAddressSpace fun _ => modifyCpu fun _ => rfl

theorem commitWaitWith {finish : ThreadId → KernelM Unit}
    (finishes : ∀ id, Traced mode (finish id)) :
    Traced mode (commitWaitWith c prepared finish) := by
  refine bind transitionCommitWait fun result => ?_
  rcases result with ⟨_ | _ | _, _ | _ | _⟩
  case block.some.switch =>
    exact bind activateThreadAddressSpace fun _ => bind (finishes _) fun _ => pure _
  case early.none => exact pure _
  case stale.none => exact pure _
  all_goals exact throw _

theorem commitPreparedWait :
    Traced mode (commitPreparedWait c prepared) := commitWaitWith fun _ => finishBlockCurrent

theorem sleepUserUntilCounter {deadline : Nat} :
    Traced mode (sleepUserUntilCounter c deadline) := by
  refine bind transitionPrepareWaitWith fun prepared => bind onClocks fun _ =>
    bind (commitWaitWith fun _ => finishBlockAfterQuantumCancel) fun result => ?_
  cases result with
  | blocked outcome => exact pure true
  | early cause => exact bind onClocks fun _ => bind ensureQuantumEvent fun _ => pure false
  | stale => exact bind onClocks fun _ => throw _

variable {stack : OwnedUserStack}

theorem spawnUserThread {attrs : ThreadAttrs} (allowed : mode.lifecycle = true) :
    Traced mode (spawnUserThread c space stack attrs) := by
  refine bind resolveAffinity fun target => ?_
  cases target with
  | error error => exact pure _
  | ok target =>
    refine Keeps.ite (pure _) (bind takeFreeSlot fun taken => ?_)
    cases taken with
    | none => exact pure _
    | some index => exact map _ (transitionPublishRuntime allowed)

theorem detachExited {exited next : ThreadId} : Traced mode (detachExited c exited next) :=
  bind threadAddressSpace fun _ => bind cpuState fun _ =>
    onlyIf (bind clearUserAddressSpace fun _ => stopIf)

/-- The finalization at the start of a call, with what a strict mode knows after it. -/
theorem wp_transitionFinalizeRetired_traced {P : Kernel → Prop} (allowed : mode.lifecycle = true)
    (facts : mode.strict = true → Coherent k ∧
      WP (fun _ => True) (transitionFinalizeRetired c) (fun _ => P) k) :
    WP (fun _ => True) (transitionFinalizeRetired c)
      (fun _ k₁ => Evolves mode k k₁ ∧ (mode.strict = true → P k₁)) k := by
  refine WP.and (finalizeRetired allowed fun strict => (facts strict).1) ?_
  exact wp_iff.mpr ⟨fun _ k₁ run strict => (facts strict).2.of_ok run, fun _ _ => trivial⟩

theorem exitCurrent (allowed : mode.lifecycle = true)
    (facts : mode.strict = true → Coherent k ∧ WP (fun _ => True) (transitionFinalizeRetired c)
      (fun _ k₁ => ∀ id t, (k₁.cpu c).current = some id → k₁.find id = some t →
        t.exitCode = none ∧ t.Consumed) k) : Moves mode k (exitCurrent c code) := by
  rw [Moves, Genrt.exitCurrent, wp_bind, Genrt.assertPreemptionEnabledOn, wp_bind, wp_get,
    wp_stopIf]
  refine ⟨fun _ => trivial, fun _ => (wp_bind _).mpr ?_⟩
  refine (wp_transitionFinalizeRetired_traced allowed facts).mono fun _ k₁ done => ?_
  refine .bind ((transitionExitCurrent allowed done.2).mono fun outcome k₂ exited => ?_)
  refine after (Evolves.trans _ _ _ done.1 exited) ?_
  cases outcome with
  | continueCurrent => exact throw _
  | switch exited next =>
    exact bind detachExited fun _ => bind activateThreadAddressSpace fun _ => finishBlockCurrent

theorem joinExited {current : ThreadId} {u : Thread} (allowed : mode.lifecycle = true)
    (found : k.find target = some t) (slot : k.threadAt current.index = some u)
    (consumed : u.Consumed) (alive : mode.strict = true → u.exitCode = none) :
    Moves mode k (joinExited current target) := by
  rw [Moves, Genrt.joinExited, wp_bind, wp_thread (threadAt_of_find found)]
  refine .given fun code stored => .bind (wp_transitionReapExited_live ?_)
  intro t' found' free
  obtain rfl := Option.mem_unique found found'
  refine .bind (wp_setReapedUser_live fun j live unreaped => ?_)
  have live' := live
  rw [find_reaped found, Function.update_apply] at live'
  split at live'
  · cases live'
  next different =>
  obtain rfl := Option.mem_unique slot (threadAt_of_find live')
  rw [setJoinResult, wp_bind, wp_threadMut (threadAt_of_find
    (find_modifyThread_self live)), modifyThread_modifyThread, wp_record]
  exact Evolves.single (.hand allowed found live' (Ne.symm different) free fun strict =>
    ⟨stored, alive strict, consumed⟩)

theorem joinBlocking : Traced mode (joinBlocking c target) := by
  refine bind assertPreemptionEnabledOn fun _ => bind transitionPrepareWaitWith fun prepared =>
    bind (threadMut fun _ => ⟨rfl, rfl, rfl, rfl, fun _ _ => rfl⟩) fun _ =>
      bind commitPreparedWait fun result => ?_
  cases result with
  | blocked outcome => exact pure _
  | early cause => exact pure _
  | stale => exact throw _

theorem joinThread (allowed : mode.lifecycle = true)
    (facts : mode.strict = true →
      Coherent k ∧ WP (fun _ => True) (Genrt.transitionFinalizeRetired c)
      (fun _ k₁ => ∀ id, (k₁.cpu c).current = some id →
        ∃ t, k₁.find id = some t ∧ t.exitCode = none) k) :
    Moves mode k (Genrt.joinThread c target) := by
  rw [Moves, Genrt.joinThread, wp_bind]
  refine (wp_transitionFinalizeRetired_traced allowed facts).mono fun _ k₁ done => ?_
  have later : ∀ {m : KernelM SchedCallWaitOutput}, Moves mode k₁ m →
      WP (fun _ => True) m (fun _ k' => Evolves mode k k') k₁ :=
    fun rest => rest.mono fun _ k' => Evolves.trans k k₁ k' done.1
  rw [wp_bind, wp_runningThread]
  refine .given fun current running => ?_
  refine .bind (wp_slot fun t slot => ?_)
  refine .past fun unconsumed => ?_
  have consumed : t.Consumed := by simpa [Thread.Consumed] using unconsumed
  have alive : mode.strict = true → t.exitCode = none := by
    intro strict
    obtain ⟨t', found, none⟩ := done.2 strict current running
    rwa [Option.mem_unique slot (threadAt_of_find found)]
  rw [wp_bind, wp_get]
  cases refusal : k₁.joinRefusal c current target with
  | some error =>
    rw [wp_bind, Genrt.setJoinResult, wp_threadMut slot, wp_pure]
    obtain ⟨id, same, found⟩ := find_of_threadAt slot
    rw [← same]
    exact Evolves.trans _ _ _ done.1 (Evolves.single (.refuse allowed found consumed alive))
  | none =>
    refine wp_ite.mpr ⟨fun reapable => ?_, fun _ => later (joinBlocking k₁)⟩
    obtain ⟨u, found⟩ : ∃ u, k₁.find target = some u := by
      rw [Kernel.reapable] at reapable
      cases found : k₁.find target with
      | none => simp [found] at reapable
      | some u => exact ⟨u, rfl⟩
    exact later (.bind ((joinExited allowed found slot consumed alive).mono
      fun _ _ joined => joined))

theorem takeCurrentJoinResult (allowed : mode.lifecycle = true)
    (facts : mode.strict = true → ∀ id, (k.cpu c).current = some id → ∃ t, k.find id = some t) :
    Moves mode k (takeCurrentJoinResult c) := by
  rw [Moves, Genrt.takeCurrentJoinResult, wp_bind, wp_runningThread]
  refine .given fun current running => ?_
  refine .bind (wp_slot fun t slot => ?_)
  cases present : t.lastJoinResult with
  | none => exact Evolves.refl k
  | some result =>
    obtain ⟨id, same, found⟩ := find_of_threadAt slot
    rw [wp_bind, wp_threadMut slot, wp_bind, wp_record, wp_pure, ← same]
    refine Evolves.single (.take allowed found (fun strict => ?_) present)
    obtain ⟨u, live⟩ := facts strict current running
    exact find_unique live found same.symm

theorem replaceCurrentUserResources
    (facts : mode.strict = true → ∀ id, (k.cpu c).current = some id →
      ∃ t, k.find id = some t ∧ t.exitCode = none) :
    Moves mode k (replaceCurrentUserResources c space stack) := by
  rw [Moves, Genrt.replaceCurrentUserResources, wp_bind, wp_runningThread]
  cases running : (k.cpu c).current with
  | none => exact Evolves.refl k
  | some current =>
    refine .bind (wp_slot fun t slot => ?_)
    cases t.user with
    | none => exact Evolves.refl k
    | some old =>
      refine wp_ite.mpr ⟨fun _ => Evolves.refl k, fun _ => ?_⟩
      have activated : WP (fun _ => True) (Genrt.activateUserAddressSpace c space)
          (fun _ k₁ => Evolves mode k k₁ ∧ k₁.scheduler = k.scheduler) k :=
        WP.and (activateUserAddressSpace k)
          (wp_activateUserAddressSpace fun _ _ aside => aside.scheduler)
      refine .bind (activated.mono fun result k₁ done => ?_)
      refine wp_ite.mpr ⟨fun _ => done.1, fun _ => ?_⟩
      have slot₁ : k₁.threadAt current.index = some t := by
        rw [threadAt, done.2]
        exact slot
      rw [wp_bind, wp_threadMut slot₁, wp_pure]
      refine Evolves.trans _ _ _ done.1 (Evolves.edit slot₁ ⟨rfl, rfl, rfl, rfl, ?_⟩)
      intro strict exited
      obtain ⟨u, found, alive⟩ := facts strict current running
      obtain rfl := Option.mem_unique slot (threadAt_of_find found)
      simp [alive] at exited

/-! ### Boot -/

theorem initializeCurrentCpu (allowed : mode.lifecycle = true) (booting : mode.booting = true) :
    Traced mode (initializeCurrentCpu c) := by
  refine bind isRegistered fun _ => Keeps.ite (pure _) (bind get fun _ => bind stopIf fun _ =>
    bind (fun _ => transitionInitializeIdleCurrent allowed (.inl booting)) fun result => ?_)
  cases result with
  | ok _ => exact pure true
  | error _ => exact pure false

theorem registerSecondaryCpu : Traced mode registerSecondaryCpu := by
  intro k
  rw [Genrt.registerSecondaryCpu, wp_bind, wp_get]
  exact wp_ite.mpr ⟨fun _ => Evolves.aside rfl rfl (.refl k), fun _ => Evolves.refl k⟩

theorem transitionAppendBootstrap (allowed : mode.lifecycle = true)
    (growing : mode.growing = true) : Traced mode (transitionAppendBootstrap c idle) := by
  intro k
  rw [Genrt.transitionAppendBootstrap, wp_bind, wp_get, wp_bind, wp_set]
  have fresh : (k.setSlots (k.scheduler.lifecycle.slots ++
      [.free k.scheduler.lifecycle.slots.length])).Fresh k.scheduler.lifecycle.slots.length := by
    intro slot present
    change (k.scheduler.lifecycle.slots ++ [_])[_]? = some slot at present
    rw [List.getElem?_concat_length] at present
    rw [← Option.some.inj present]
    rfl
  refine (transitionPublishBootstrap allowed (.inr fresh)).mono fun _ k' done => ?_
  exact Evolves.trans _ _ _ (Evolves.single (.grow growing _)) done

/-- Any number of slots may be added. -/
theorem grown (growing : mode.growing = true) (k : Kernel) (added : List Nat) :
    Evolves mode k (k.setSlots (k.scheduler.lifecycle.slots ++ added.map ThreadSlot.free)) := by
  induction added generalizing k with
  | nil =>
    rw [List.map_nil, List.append_nil]
    exact Evolves.refl k
  | cons index rest ih =>
    refine Evolves.trans _ _ _ (Evolves.single (.grow growing index)) ?_
    have appended : k.scheduler.lifecycle.slots ++ (index :: rest).map ThreadSlot.free =
        k.scheduler.lifecycle.slots ++ [.free index] ++ rest.map ThreadSlot.free :=
      List.append_cons ..
    rw [appended]
    exact ih (k.setSlots (k.scheduler.lifecycle.slots ++ [.free index]))

theorem transitionFillFreeSlots {capacity : Nat} (growing : mode.growing = true) :
    Traced mode (transitionFillFreeSlots capacity) := fun k =>
  Evolves.trans _ _ _ (grown growing k _) (Evolves.aside rfl rfl fun _ => ⟨rfl, rfl⟩)

theorem bootstrapThreads {config : BootConfig} (allowed : mode.lifecycle = true)
    (growing : mode.growing = true) : Traced mode (bootstrapThreads config) :=
  bind (transitionAppendBootstrap allowed growing) fun _ =>
    bind (Keeps.forEach Evolves.refl Evolves.trans
      (fun _ => transitionAppendBootstrap allowed growing) _) fun _ =>
        bind (transitionFillFreeSlots growing) fun _ => transitionInitialDispatch

end Traced

end Genrt
