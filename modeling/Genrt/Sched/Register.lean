import Genrt.Sched.Completion

/-!
# Specifications of the registering thread's own transitions

Preparing registers a fresh token. Committing blocks the thread or consumes an
early outcome, and finishing and cancelling take the registration off the
running thread. None of them touches another thread's registration.
-/

namespace Genrt

open Effect WaitMetadata Kernel Function

variable {k k' k'' : Kernel} {c : CpuId} {id : ThreadId} {t : Thread} {token : WaitToken}

/-! ### Preparing -/

/-- A running thread without a registration may prepare one. -/
theorem ThreadOk.prepare (ok : ThreadOk id t) (running : t.state = .running)
    {consumption : WaitConsumption} :
    ThreadOk id { t with wait := ⟨t.wait.nextSequence + 1,
      some ⟨⟨id, t.homeCpu, t.wait.nextSequence + 1⟩, .prepared, consumption⟩⟩ } := by
  obtain ⟨_, prepared, completed, exited, named, code, owner, detached⟩ := ok
  constructor <;> simp_all [isBlocked, isPrepared,
    isCompleted]

/-- The token of the next registration of a thread. -/
def Thread.nextToken (t : Thread) (id : ThreadId) : WaitToken :=
  ⟨id, t.homeCpu, t.wait.nextSequence + 1⟩

/-- The kernel after a thread prepared its next wait. -/
def Kernel.preparing (k : Kernel) (id : ThreadId) (t : Thread) (consumption : WaitConsumption) :
    Kernel :=
  k.modifyThread id.index fun t' => { t' with
    wait := ⟨t.wait.nextSequence + 1, some ⟨t.nextToken id, .prepared, consumption⟩⟩ }

variable {consumption : WaitConsumption} {touched : WaitToken → Prop}

theorem wp_transitionPrepareWaitWith (h : Coherent k) {Q : PreparedWait → Kernel → Prop}
    (post : ∀ id t, (k.cpu c).current = some id → k.find id = some t → t.homeCpu = c →
      t.wait.active = none → Coherent (k.preparing id t consumption) →
      Q ⟨t.nextToken id, consumption⟩
        ((k.preparing id t consumption).log (.prepared (t.nextToken id)))) :
    WP Contract (transitionPrepareWaitWith c consumption) Q k := by
  rw [transitionPrepareWaitWith, wp_bind]
  simp only [assertPreemptionEnabledOn, wp_bind, wp_get, wp_stopIf]
  refine ⟨fun _ => rfl, fun _ => ?_⟩
  rw [wp_runningThread, wp_orStop]
  refine ⟨fun id running => ?_, fun _ => rfl⟩
  obtain ⟨t, found, status⟩ := h.find_current running
  have slot := threadAt_of_find found
  rw [wp_assertCurrentRunning running found status, wp_thread slot]
  cases outcome : t.wait.prepareWithConsumption id c consumption with
  | error panic =>
    rw [prepareWithConsumption] at outcome
    split at outcome
    · cases outcome
      rfl
    · split at outcome
      · cases outcome
        rfl
      · cases outcome
  | ok result =>
    rw [prepareWithConsumption] at outcome
    split at outcome
    · cases outcome
    · next idle =>
      split at outcome
      · cases outcome
      · cases outcome
        have inactive : t.wait.active = none := by simpa using idle
        have token : t.nextToken id = ⟨id, c, t.wait.nextSequence + 1⟩ := by
          rw [Thread.nextToken, status.1]
        have coherent : Coherent (k.preparing id t consumption) :=
          h.touch found rfl rfl ((h.thread id t found).prepare status.2) rfl (by simp [status.2])
        have done := post id t running found status.1 inactive coherent
        rw [preparing, token] at coherent done
        rw [wp_bind, wp_threadMut slot, wp_bind, wp_record, wp_bind,
          (coherent.log _).wp_validateAfterTransition]
        exact done

/-- Preparing adds one registration. -/
theorem Kernel.registration_preparing (found : k.find id = some t)
    (inactive : t.wait.active = none) :
    (k.preparing id t consumption).registration = update k.registration (t.nextToken id)
      (some ⟨t.nextToken id, .prepared, consumption⟩) := by
  have finds : (k.preparing id t consumption).find = update k.find id
      (some { t with
        wait := ⟨t.wait.nextSequence + 1, some ⟨t.nextToken id, .prepared, consumption⟩⟩ }) :=
    find_modifyThread_eq found
  funext token
  rw [update_apply]
  by_cases own : token.thread = id
  · have before : k.registration token = none := by
      rw [registration, own, found, Option.bind_some, inactive]
      rfl
    rw [before]
    split
    · next same =>
      subst same
      exact (registration_self finds own).mpr ⟨rfl, rfl⟩
    · next apart =>
      refine Option.eq_none_iff_forall_ne_some.mpr fun w active => ?_
      obtain ⟨stored, named⟩ := (registration_self finds own).mp active
      cases stored
      exact apart named.symm
  · rw [registration_other finds own, if_neg]
    rintro rfl
    exact own rfl

theorem joinerOf_preparing (consumption : WaitConsumption) (found : k.find id = some t) :
    (k.preparing id t consumption).joinerOf = k.joinerOf :=
  joinerOf_update (find_modifyThread_eq found) found rfl

theorem Within.preparing (found : k.find id = some t) (home : t.homeCpu = c)
    (inactive : t.wait.active = none) : Within c touched k (k.preparing id t consumption) := by
  have joiners := joinerOf_preparing consumption found
  have absent : k.registration (t.nextToken id) = none := by
    rw [Kernel.registration, show (t.nextToken id).thread = id from rfl, found, Option.bind_some,
      inactive]
    rfl
  have kept : ∀ token w, k.registration token = some w →
      (k.preparing id t consumption).registration token = some w := by
    intro token w active
    rw [registration_preparing found inactive, update_of_ne, active]
    rintro rfl
    cases absent.symm.trans active
  refine ⟨.modifyThread, ?_, fun _ _ joined => Or.inl (joiners ▸ joined),
    fun token w _ active phase => ⟨w, kept token w active, rfl, phase⟩, ?_⟩
  · rintro token _ ⟨⟨w, active, unfinished⟩, unowned⟩
    exact ⟨⟨w, kept token w active, unfinished⟩, fun other owned => unowned other (joiners ▸ owned)⟩
  · intro token w away active _
    rw [registration_preparing found inactive, update_of_ne] at active
    · exact active
    · rintro rfl
      exact away home

/-- A section that commits the wait it prepared leaves no prepared wait behind. -/
theorem Closed.of_preparing (found : k.find id = some t) (home : t.homeCpu = c)
    (inactive : t.wait.active = none) (rest : Closed c touched (k.preparing id t consumption) k')
    (committed : ∀ w, k'.registration (t.nextToken id) = some w → w.phase ≠ .prepared) :
    Closed c touched k k' := by
  refine ⟨(Within.preparing found home inactive).trans rest.toWithin,
    fun token w active phase => ?_⟩
  have before := rest.settled token w active phase
  rw [registration_preparing found inactive, update_apply] at before
  split at before
  · next same =>
    subst same
    exact absurd phase (committed w active)
  · exact before

/-! ### Consuming -/

/-- The running thread drops a registration of its own. -/
theorem Quiet.consume {wait : WaitMetadata} (found : k.find id = some t)
    (inactive : wait.active = none) (own : ∀ w, t.wait.active = some w → w.token.cpu = c)
    (ended : ∀ w, t.wait.active = some w → touched w.token ∨ ∃ cause, w.phase = .completed cause) :
    Quiet c touched k (k.modifyThread id.index fun t' => { t' with wait := wait }) := by
  refine .of_wait .modifyThread rfl (find_modifyThread_eq found) found rfl ?_ ?_ ?_
  · intro w active untouched unfinished
    rcases ended w active with touched | ⟨cause, phase⟩
    · exact absurd touched untouched
    · exact absurd phase (unfinished cause)
  · intro w away active _
    exact absurd (own w active) away
  · intro w active _
    cases inactive.symm.trans active

/-- The tokens of a thread name its home. -/
theorem ThreadOk.token_cpu (ok : ThreadOk id t) (home : t.homeCpu = c) :
    ∀ w, t.wait.active = some w → w.token.cpu = c := by
  intro w active
  rw [ok.token w active]
  exact home

theorem wp_transitionFinishWait (h : Coherent k) (running : (k.cpu c).current = some token.thread)
    {Q : Except FinishError WaitCause → Kernel → Prop}
    (post : ∀ result k', Coherent k' → Calm c k k' → k'.clocks = k.clocks →
      k'.cpu = k.cpu → Q result k') : WP Contract (transitionFinishWait token) Q k := by
  obtain ⟨t, found, status⟩ := h.find_current running
  have slot := threadAt_of_find found
  have current : k.isCurrent token.thread = true := by
    simp [isCurrent, found, status.1, running]
  rw [transitionFinishWait, wp_bind, wp_get, current]
  refine .bind ((wp_assertCurrentRunning running found status).mpr ?_)
  rw [wp_bind, wp_threadWait slot, wp_bind, wp_record]
  have finished : ∀ wait, (t.wait.finish token).2 = wait →
      Coherent (k.modifyThread token.thread.index fun t' => { t' with wait := wait }) →
      Calm c k
        (k.modifyThread token.thread.index fun t' => { t' with wait := wait }) →
      WP Contract (do validateAfterTransition; pure (t.wait.finish token).1) Q
        ((k.modifyThread token.thread.index fun t' =>
          { t' with wait := (t.wait.finish token).2 }).log
            (.finished token (t.wait.finish token).1)) := by
    rintro wait rfl coherent quiet
    rw [wp_bind, (coherent.log _).wp_validateAfterTransition]
    exact post _ _ (coherent.log _) (quiet.trans .log) rfl rfl
  have ok := h.thread _ t found
  rcases t.wait.finish_cases token with ⟨error, failed⟩ | ⟨a, cause, active, _, phase, taken⟩
  · have same : (t.wait.finish token).2 = t.wait := congrArg Prod.snd failed
    have unchanged := modifyThread_eq_self (f := fun t' => { t' with wait := t.wait }) slot rfl
    refine finished t.wait same ?_ ?_ <;> rw [unchanged]
    · exact h
    · exact .refl k
  · refine finished _ (congrArg Prod.snd taken)
      (h.touch found rfl rfl (ok.consume status.2 rfl) rfl (by simp [status.2]))
      (.consume found rfl (ok.token_cpu status.1) fun w stored => Or.inr ?_)
    obtain rfl := Option.mem_unique active stored
    exact ⟨cause, phase⟩

/-- Cancelling one's own registration always removes it, whoever came first. -/
theorem wp_transitionCancelWait (h : Coherent k) {prepared : PreparedWait} {w : ActiveWait}
    (running : (k.cpu c).current = some prepared.token.thread)
    (registered : k.registration prepared.token = some w) (awake : w.phase ≠ .blocked)
    {Q : CancelResult → Kernel → Prop}
    (post : ∀ result k', Coherent k' → Quiet c (· = prepared.token) k k' → k'.clocks = k.clocks →
      k'.cpu = k.cpu → k'.registration prepared.token = none → Q result k') :
    WP Contract (transitionCancelWait prepared) Q k := by
  obtain ⟨t, found, active, named⟩ := registration_eq_some.mp registered
  have status := h.current_status running found
  have slot := threadAt_of_find found
  have ok := h.thread _ t found
  have current : k.isCurrent prepared.token.thread = true := by
    simp [isCurrent, found, status.1, running]
  have removed : (t.wait.cancel prepared).2 = { t.wait with active := none } := by
    obtain ⟨token, phase, consumption⟩ := w
    cases phase with
    | blocked => exact absurd rfl awake
    | prepared | completed =>
      simp [cancel, active, show token = prepared.token from named]
  have coherent : Coherent (k.modifyThread prepared.token.thread.index fun t' =>
      { t' with wait := { t.wait with active := none } }) :=
    h.touch found rfl rfl (ok.consume status.2 rfl) rfl (by simp [status.2])
  rw [transitionCancelWait, wp_bind, wp_get, current]
  refine .bind ((wp_assertCurrentRunning running found status).mpr ?_)
  rw [wp_bind, wp_threadWait slot, wp_bind, wp_record, removed, wp_bind,
    (coherent.log _).wp_validateAfterTransition]
  refine post _ _ (coherent.log _)
    (Quiet.trans (.consume found rfl (ok.token_cpu status.1) ?_) .log) rfl rfl ?_
  · intro w' stored
    obtain rfl := Option.mem_unique active stored
    exact Or.inl named
  · refine Option.eq_none_iff_forall_ne_some.mpr fun w' stored => ?_
    have finds := find_modifyThread_eq (f := fun t' =>
      { t' with wait := { t.wait with active := none } }) found
    cases ((registration_self finds rfl).mp stored).1

end Genrt
