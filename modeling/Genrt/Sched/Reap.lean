import Genrt.Sched.Register

/-!
# Specifications of finalization and reaping

A retired thread is taken off its processor together with its joiner. A joiner
that waits is completed and receives the exit code and the user resources; a
detached thread gives its slot back. Every other exited thread keeps its slot
until it is joined.
-/

namespace Genrt

open Effect Function Kernel

variable {k k' : Kernel} {c : CpuId} {id : ThreadId} {t : Thread}

/-! ### Releasing a slot -/

/-- The kernel after an exited thread gave up its slot. -/
def Kernel.released (k : Kernel) (id : ThreadId) (t : Thread) : Kernel :=
  (k.modifySlot id.index fun slot => { slot with
    nextWaitSequence := t.wait.nextSequence, stack := some t.stack, thread := none }).withFree
      id.index

theorem Kernel.find_released (found : k.find id = some t) :
    (k.released id t).find = update k.find id none :=
  find_vacate found fun _ => rfl

variable {other : ThreadId}

variable {token : WaitToken}

theorem Kernel.joinerOf_released (found : k.find id = some t)
    (owned : (k.released id t).joinerOf other = some token) : k.joinerOf other = some token := by
  rw [joinerOf, find_released found, update_apply] at owned
  split at owned
  · cases owned
  · exact owned

variable {touched : WaitToken → Prop}

theorem Quiet.released (found : k.find id = some t) (inactive : t.wait.active = none) :
    Quiet c touched k (k.released id t) :=
  .of_scheduler (fun _ _ => rfl) rfl rfl rfl (fun _ same => same)
    (registration_vacate (find_released found) found inactive)
    fun _ _ => joinerOf_released found

variable {Q : Option UserThreadResources → Kernel → Prop}

theorem wp_reapExited (h : Coherent k) (found : k.find id = some t) (exited : t.state = .exited)
    (left : (k.cpu t.homeCpu).retired ≠ some id)
    (post : Coherent (k.released id t) → Q t.user ((k.released id t).log (.released id))) :
    WP Contract (reapExited id) Q k := by
  have inactive := (h.thread id t found).exited exited
  have coherent : Coherent (k.released id t) :=
    h.release found exited left (fun _ => rfl) fun _ => by simp
  rw [reapExited, wp_bind, wp_get, found, wp_bind, wp_stopIf]
  refine ⟨fun waiting => absurd waiting (by simp [WaitMetadata.isNone, inactive]), fun _ => ?_⟩
  exact post coherent

/-! ### Finalization -/

variable {user : Option UserThreadResources}

/-- The outcome of a join is no concern of the scheduler invariant. -/
theorem ThreadOk.outcome (ok : ThreadOk id t) {result : Option (Except JoinError Nat)} :
    ThreadOk id { t with lastJoinResult := result, reapedUser := user } :=
  { ok with }

/-- The thread has a joiner, or is gone. -/
def Kernel.Claimed (k : Kernel) (id : ThreadId) : Prop :=
  ∀ t, k.find id = some t → t.joiner ≠ none

theorem Kernel.Claimed.update {v : Thread} {value : Option Thread}
    (finds : k'.find = update k.find id value) (found : k.find id = some v)
    (joiner : ∀ u, value = some u → u.joiner = v.joiner) (h : k.Claimed other) :
    k'.Claimed other := by
  intro u live
  rw [finds, update_apply] at live
  split at live
  · next same =>
    rw [joiner u live]
    exact h v (same ▸ found)
  · exact h u live

/-- A step of processor `c` that leaves running threads alone and at most adds to
its own queue. -/
structure Advance (c : CpuId) (touched : WaitToken → Prop) (k k' : Kernel) : Prop where
  coherent : Coherent k'
  quiet : Quiet c touched k k'
  cpu : k'.cpu c = { k.cpu c with readyQueue := (k'.cpu c).readyQueue }
  ready : ∃ more, k'.ready c = k.ready c ++ more
  running : ∀ id t, k.find id = some t → t.state = .running → k'.find id = some t
  claimed : ∀ id, k.Claimed id → k'.Claimed id

namespace Advance

variable {touched : WaitToken → Prop} {k'' : Kernel}

theorem trans (first : Advance c touched k k') (second : Advance c touched k' k'') :
    Advance c touched k k'' where
  coherent := second.coherent
  quiet := first.quiet.trans second.quiet
  cpu := by rw [second.cpu, first.cpu]
  ready := by
    obtain ⟨more, first⟩ := first.ready
    obtain ⟨more', second⟩ := second.ready
    exact ⟨more ++ more', by rw [second, first, List.append_assoc]⟩
  running id t found state := second.running id t (first.running id t found state) state
  claimed id claimed := second.claimed id (first.claimed id claimed)

theorem mono {touched' : WaitToken → Prop} (h : Advance c touched k k')
    (imp : ∀ token, touched token → touched' token) : Advance c touched' k k' :=
  { h with quiet := h.quiet.mono imp }

/-- The processor's own state is the same. -/
theorem of_cpu (coherent : Coherent k') (quiet : Quiet c touched k k') (cpu : k'.cpu = k.cpu)
    (running : ∀ id t, k.find id = some t → t.state = .running → k'.find id = some t)
    (claimed : ∀ id, k.Claimed id → k'.Claimed id) : Advance c touched k k' where
  coherent := coherent
  quiet := quiet
  cpu := by rw [cpu]
  ready := ⟨[], by rw [Kernel.ready, cpu, List.append_nil, Kernel.ready]⟩
  running := running
  claimed := claimed

theorem log (h : Coherent k) (event : Event) : Advance c touched k (k.log event) :=
  of_cpu (h.log event) .log rfl (fun _ _ found _ => found) fun _ claimed => claimed

/-- A thread that neither runs nor sleeps is given something. -/
theorem touch (h : Coherent k) {f : Thread → Thread} (found : k.find id = some t)
    (home : (f t).homeCpu = t.homeCpu) (same : (f t).state = t.state) (ok : ThreadOk id (f t))
    (joiner : (f t).joiner = t.joiner) (active : (f t).wait.active = t.wait.active)
    (resting : t.state ≠ .running) (awake : t.state ≠ .blocked) :
    Advance c touched k (k.modifyThread id.index f) := by
  refine of_cpu (h.touch found home same ok joiner awake) (.modifyThread found active joiner) rfl
    ?_ fun _ => .update (find_modifyThread_eq found) found ?_
  · intro other u live state
    rw [find_modifyThread_eq found, update_of_ne, live]
    rintro rfl
    obtain rfl := Option.mem_unique found live
    exact resting state
  · rintro _ ⟨⟩
    exact joiner

theorem released (h : Coherent k) (found : k.find id = some t) (exited : t.state = .exited)
    (left : (k.cpu t.homeCpu).retired ≠ some id) : Advance c touched k (k.released id t) := by
  refine of_cpu (h.release found exited left (fun _ => rfl) fun _ => by simp)
    (.released found ((h.thread id t found).exited exited)) rfl ?_
    fun _ => .update (find_released found) found ?_
  · intro other u live state
    rw [find_released found, update_of_ne (ne_of_state live found (by simp [exited, state])), live]
  · rintro _ ⟨⟩

/-- A blocked thread was completed. -/
theorem of_completed {cause : WaitCause} {result : CompletionResult}
    (done : Completed c token cause k result k') (found : k.find token.thread = some t)
    (blocked : t.state = .blocked) : Advance c (· = token) k k' where
  coherent := done.coherent
  quiet := done.quiet
  cpu := done.cpu
  ready := done.ready
  running id u live state := by
    rw [done.others id (ne_of_state live found (by simp [blocked, state])), live]
  claimed id claimed u live free := by
    have joiners : k'.joinerOf id = k.joinerOf id := by rw [done.joins]
    rw [joinerOf, live, Option.bind_some, free] at joiners
    by_cases same : id = token.thread
    · subst same
      rw [joinerOf, found, Option.bind_some] at joiners
      exact claimed t found joiners.symm
    · exact claimed u ((done.others id same).symm.trans live) free

end Advance

/-- A retired thread was taken off its processor. -/
def Kernel.unretired (k : Kernel) (c : CpuId) (id : ThreadId) : Kernel :=
  (k.setCpu c { k.cpu c with retired := none }).modifyThread id.index
    fun t => { t with joiner := none }

/-- What finalization keeps besides the scheduler invariant: with an announcement
the quantum event stays in step, without one the clocks are not touched. -/
structure Finalizes (c : CpuId) (notify : Bool) (I : Kernel → Prop) : Prop where
  time : ∀ k, I k → TimeOk k
  carry : ∀ k k', I k → Coherent k' → Within c (fun _ => False) k k' → k'.clocks = k.clocks →
    (k'.cpu c).current = (k.cpu c).current → k'.ready c = k.ready c → I k'
  complete : ∀ k token, Coherent k → I k → (∀ other, k.joinerOf other ≠ some token) →
    .waitDeadlineOf token ∉ k.events token.cpu →
    WP Contract (completeWaitTransition c token .notified notify)
      (fun result k' => Completed c token .notified k result k' ∧ I k') k

theorem wp_setReapedUser {E : Panic → Prop} (found : k.find id = some t)
    (unreaped : t.reapedUser = none) {Q : Unit → Kernel → Prop} :
    WP E (setReapedUser id user) Q k ↔
      Q () (k.modifyThread id.index fun t => { t with reapedUser := user }) := by
  rw [setReapedUser, wp_bind, wp_get, wp_bind, wp_orStop_some found, wp_bind, wp_stopIf, unreaped,
    wp_threadMut (threadAt_of_find found)]
  simp

namespace Finalizes

variable {notify : Bool} {I : Kernel → Prop} (keeps : Finalizes c notify I)
include keeps

/-- A step that ends no wait and leaves the clocks and the queue alone. -/
theorem step (inv : I k) (step : Advance c (fun _ => False) k k') (clocks : k'.clocks = k.clocks)
    (ready : k'.ready c = k.ready c) : I k' :=
  keeps.carry k k' inv step.coherent step.quiet.toWithin clocks (by rw [step.cpu]) ready

theorem wp_completeJoiner (h : Coherent k) (inv : I k) {j : Thread} {code : Nat}
    (found : k.find token.thread = some j) (joining : Joining j token)
    (free : ∀ other, k.joinerOf other ≠ some token)
    (untimed : .waitDeadlineOf token ∉ k.events token.cpu) :
    WP Contract (completeJoiner c token code notify) (fun _ k' => Advance c (· = token) k k' ∧
      I k' ∧ (∀ other, other ≠ token.thread → k'.find other = k.find other) ∧
      ∃ j', k'.find token.thread = some j' ∧ j'.state = .ready ∧ j'.reapedUser = none) k := by
  obtain ⟨blocked, active, _, unreaped⟩ := joining
  rw [completeJoiner, wp_bind]
  refine (keeps.complete k token h inv free untimed).mono fun result k₁ done => ?_
  obtain ⟨completed, inv₁⟩ := done
  obtain ⟨rfl, found₁⟩ := completed.woke j .explicit found active
  rw [wp_bind, wp_stopIf]
  refine ⟨fun lost => absurd rfl lost, fun _ => ?_⟩
  rw [setJoinResult, wp_threadMut (threadAt_of_find found₁)]
  have ok := completed.coherent.thread _ _ found₁
  have given : Advance c (fun _ => False) k₁ (k₁.modifyThread token.thread.index
      fun t => { t with lastJoinResult := some (.ok code) }) :=
    .touch completed.coherent found₁ rfl rfl
      ok.outcome rfl rfl (by simp) (by simp)
  refine ⟨(Advance.of_completed completed found blocked).trans (given.mono fun _ no => no.elim),
    keeps.step inv₁ given rfl rfl, fun other apart => ?_, ?_⟩
  · rw [find_modifyThread_other found₁ apart, completed.others other apart]
  · exact ⟨_, find_modifyThread_self found₁, rfl, unreaped⟩

/-- A retired thread is handed to its joiner, reclaimed, or kept. -/
theorem wp_finalizeThread (h : Coherent k) (inv : I k) {u : Thread} (found : k.find id = some u)
    (exited : u.state = .exited) (home : u.homeCpu = c) (left : (k.cpu c).retired ≠ some id)
    (cleared : u = { t with joiner := none })
    (joiner : ∀ token, t.joiner = some token → ∃ j, k.find token.thread = some j ∧ Joining j token ∧
      (∀ other, k.joinerOf other ≠ some token) ∧ .waitDeadlineOf token ∉ k.events token.cpu) :
    WP Contract (finalizeThread c id t notify)
      (fun _ k' => Advance c (fun token => t.joiner = some token) k k' ∧ I k' ∧
        (t.joiner ≠ none → k'.find id = none)) k := by
  have ok := h.thread id u found
  subst home
  cases waiting : t.joiner with
  | none =>
    rw [finalizeThread, waiting]
    refine wp_onlyIf.mpr ⟨fun off => ?_, fun _ => ⟨.of_cpu h (.refl k) rfl
      (fun _ _ live _ => live) fun _ claimed => claimed, inv, fun some => absurd rfl some⟩⟩
    rw [wp_bind]
    refine wp_reapExited h found exited left fun _ => ?_
    have freed : Advance u.homeCpu (fun _ => False) k ((k.released id u).log (.released id)) :=
      (Advance.released h found exited left).trans (.log (h.release found exited left
        (fun _ => rfl) fun _ => by simp) _)
    have none : u.user = none := (ok.detached (by rw [cleared]; exact off)).1
    rw [wp_stopIf, none]
    exact ⟨fun some => absurd some (by simp), fun _ =>
      ⟨freed.mono fun _ no => no.elim, keeps.step inv freed rfl rfl, fun some => absurd rfl some⟩⟩
  | some token =>
    obtain ⟨j, live, joining, free, untimed⟩ := joiner token waiting
    obtain ⟨code, stored⟩ : ∃ code, u.exitCode = some code :=
      Option.isSome_iff_exists.mp (ok.code.mpr exited)
    have code' : t.exitCode = some code := by rw [← stored, cleared]
    have apart : id ≠ token.thread := by
      rintro rfl
      obtain rfl := Option.mem_unique found live
      cases exited.symm.trans joining.1
    rw [finalizeThread, waiting, wp_bind, wp_orStop_some code', wp_bind]
    refine (keeps.wp_completeJoiner h inv live joining free untimed).mono fun _ k₁ done => ?_
    obtain ⟨first, inv₁, others, j₁, live₁, ready, unreaped⟩ := done
    have found₁ := (others id apart).trans found
    have left₁ : (k₁.cpu u.homeCpu).retired ≠ some id := by rwa [first.cpu]
    rw [wp_bind]
    refine wp_reapExited first.coherent found₁ exited left₁ fun coherent₂ => ?_
    have freed : Advance u.homeCpu (fun _ => False) k₁ ((k₁.released id u).log (.released id)) :=
      (Advance.released first.coherent found₁ exited left₁).trans (.log coherent₂ _)
    have live₂ : ((k₁.released id u).log (.released id)).find token.thread = some j₁ := by
      rw [find_log, find_released found₁, update_of_ne apart.symm, live₁]
    have ok₁ := freed.coherent.thread _ _ live₂
    rw [wp_bind, wp_setReapedUser live₂ unreaped, wp_record]
    have given : Advance u.homeCpu (fun _ => False) ((k₁.released id u).log (.released id))
        (((k₁.released id u).log (.released id)).modifyThread token.thread.index
          fun t => { t with reapedUser := u.user }) :=
      .touch freed.coherent live₂ rfl rfl
        ok₁.outcome rfl rfl (by simp [ready]) (by simp [ready])
    have rest := (freed.trans given).trans
      (.log given.coherent (.handed id token.thread code u.user))
    refine ⟨?_, keeps.step inv₁ rest rfl rfl, fun _ => ?_⟩
    · refine (first.trans (rest.mono fun _ no => no.elim)).mono ?_
      rintro _ rfl
      rfl
    · rw [find_log, find_modifyThread_other live₂ apart, find_log,
        find_released found₁, update_self]

end Finalizes

/-! ### The retired thread of a processor -/

/-- What finalization by processor `c` leaves behind. -/
structure Finalized (c : CpuId) (k k' : Kernel) : Prop where
  coherent : Coherent k'
  quiet : Calm c k k'
  cpu : k'.cpu c = { k.cpu c with retired := none, readyQueue := (k'.cpu c).readyQueue }
  ready : ∃ more, k'.ready c = k.ready c ++ more
  running : ∀ id t, k.find id = some t → t.state = .running → k'.find id = some t
  claimed : ∀ id, k.Claimed id → k'.Claimed id

theorem Kernel.find_unretired (found : k.find id = some t) :
    (k.unretired c id).find = update k.find id (some { t with joiner := none }) :=
  find_modifyThread_eq (k := k.setCpu c { k.cpu c with retired := none }) found

theorem Kernel.cpu_unretired : (k.unretired c id).cpu c = { k.cpu c with retired := none } :=
  cpu_setCpu_self

theorem Kernel.joinerOf_unretired (found : k.find id = some t)
    (registered : (k.unretired c id).joinerOf other = some token) :
    other ≠ id ∧ k.joinerOf other = some token := by
  rw [joinerOf, find_unretired found, update_apply] at registered
  split at registered
  · cases registered
  · next apart => exact ⟨apart, registered⟩

theorem Quiet.unretired (found : k.find id = some t) : Quiet c touched k (k.unretired c id) :=
  .of_scheduler (fun _ apart => cpu_setCpu_of_ne apart) (by rw [cpu_unretired]) rfl rfl
    (fun _ same => same)
    (registration_update (find_unretired found) found rfl)
    fun _ _ registered => (joinerOf_unretired found registered).2

theorem wp_finalizeRetired {notify : Bool} {I : Kernel → Prop} (keeps : Finalizes c notify I)
    (h : Coherent k) (inv : I k) :
    WP Contract (finalizeRetired c notify) (fun _ k' => Finalized c k k' ∧ I k') k := by
  rw [finalizeRetired, wp_bind, wp_cpuState]
  cases retired : (k.cpu c).retired with
  | none =>
    refine ⟨⟨h, .refl k, ?_, ⟨[], (List.append_nil _).symm⟩, fun _ _ found _ => found,
      fun _ claimed => claimed⟩, inv⟩
    rw [← retired]
  | some id =>
    obtain ⟨t, found, home, exited⟩ : ∃ t, k.find id = some t ∧ t.homeCpu = c ∧
      t.state = .exited := by
      have := h.dispatch.retired_ok c id retired
      simp only [view_thread, Option.map_eq_some_iff, Prod.mk.injEq] at this
      obtain ⟨t, found, home, exited⟩ := this
      exact ⟨t, found, home, exited⟩
    have slot : (k.setCpu c { k.cpu c with retired := none }).threadAt id.index = some t :=
      threadAt_of_find found
    have other : (k.cpu c).current ≠ some id := by
      intro running
      have := (h.current_status running found).2
      cases exited.symm.trans this
    have valid : (k.setCpu c { k.cpu c with retired := none }).retiredValid c id = true := by
      simp [retiredValid, other, found, exited, home]
    have coherent : Coherent (k.unretired c id) := h.unretire retired found rfl
    have quiet : Calm c k (k.unretired c id) := .unretired found
    have cpu : (k.unretired c id).cpu c = { k.cpu c with retired := none } :=
      cpu_unretired
    have ready : (k.unretired c id).ready c = k.ready c := by
      rw [ready, cpu, ready]
    have inv₁ : I (k.unretired c id) :=
      keeps.carry k _ inv coherent quiet.toWithin rfl (by rw [cpu]) ready
    rw [wp_bind, wp_modifyCpu, wp_bind, wp_get, wp_bind, wp_stopIf]
    refine ⟨fun invalid => absurd invalid (by simp [valid]), fun _ => ?_⟩
    refine .bind ((wp_thread slot).mpr (.bind ((wp_threadMut slot).mpr ?_)))
    refine .bind (WP.mono (s := k.unretired c id) (keeps.wp_finalizeThread coherent inv₁
      (u := { t with joiner := none }) ?_ exited home (by rw [cpu]; simp) rfl ?_) ?_)
    · rw [find_unretired found, update_self]
    · intro token waiting
      have registered : k.joinerOf id = some token := by
        rw [joinerOf, found, Option.bind_some, waiting]
      obtain ⟨j, live, joining⟩ := h.join.joining id token registered
      refine ⟨j, ?_, joining, fun other registered' => ?_, fun queued => ?_⟩
      · rw [find_unretired found, update_of_ne, live]
        rintro rfl
        obtain rfl := Option.mem_unique found live
        cases exited.symm.trans joining.1
      · obtain ⟨apart, before⟩ := joinerOf_unretired found registered'
        exact apart (h.join.unique other id token before registered)
      · -- A queued deadline would make the joiner's wait pending.
        obtain ⟨_, _, _, unowned⟩ := ((keeps.time k inv).events token.cpu).1 token.cpu token queued
        exact unowned id registered
    · rintro _ k' ⟨advance, inv', handed⟩
      rw [advance.coherent.wp_validateAfterTransition]
      refine ⟨⟨advance.coherent, ?_, ?_, ?_, ?_, ?_⟩, inv'⟩
      · have quiet := Quiet.trans (.unretired found) advance.quiet
        refine ⟨quiet.toClosed.drop ?_, quiet.timed, quiet.joined⟩
        rintro token waiting ⟨_, unowned⟩
        refine unowned id ?_
        rw [joinerOf, found, Option.bind_some, waiting]
      · rw [advance.cpu, cpu]
      · rw [← ready]
        exact advance.ready
      · intro other u live state
        refine advance.running other u ?_ state
        have apart := ne_of_state live found (by simp [exited, state])
        rw [find_unretired found, update_of_ne apart, live]
      · intro other claimed
        by_cases same : other = id
        · subst same
          intro u live
          rw [handed (claimed t found)] at live
          cases live
        · refine advance.claimed other fun u live => claimed u ?_
          rwa [find_unretired found, update_of_ne same] at live

/-- Outside the timer the quantum event is kept in step. -/
theorem Finalizes.announcing :
    Finalizes c true fun k => (TimeOk k ∧ QuantumExact k c) ∧ (k.cpu c).online = true where
  time _ inv := inv.1.1
  carry k k' inv coherent within clocks current ready := by
    refine ⟨⟨inv.1.1.keep within clocks, fun id => ?_⟩, ?_⟩
    · rw [events_congr clocks, inv.1.2 id, within.online, current, ready]
    · rw [within.online]
      exact inv.2
  complete k token h inv free untimed := by
    refine wp_completeWait ⟨h, inv.1.1, inv.1.2⟩ inv.2 free untimed fun result k' done steady => ?_
    refine ⟨done, ⟨steady.time, steady.exact⟩, ?_⟩
    rw [done.cpu]
    exact inv.2

/-- The timer leaves the clocks alone. -/
theorem Finalizes.silent (clocks : Clocks) :
    Finalizes c false fun k => TimeOk k ∧ k.clocks = clocks where
  time _ inv := inv.1
  carry k k' inv coherent within same current ready :=
    ⟨inv.1.keep within same, same.trans inv.2⟩
  complete k token h inv free untimed := by
    refine wp_completeWaitForTimer h free fun result k' done same => ?_
    refine ⟨done, inv.1.carry done.quiet.toWithin same ?_, same.trans inv.2⟩
    rintro _ rfl d
    exact inv.1.untimed untimed d d

theorem wp_transitionFinalizeRetired (h : Steady c k) (online : (k.cpu c).online = true) :
    WP Contract (transitionFinalizeRetired c) (fun _ k' => Finalized c k k' ∧ Steady c k') k := by
  refine (wp_finalizeRetired .announcing h.toCoherent ⟨⟨h.time, h.exact⟩, online⟩).mono
    fun _ k' => ?_
  rintro ⟨done, ⟨time, exact⟩, _⟩
  exact ⟨done, done.coherent, time, exact⟩

/-! ### Reaping by the joiner -/

theorem wp_transitionReapExited (h : Coherent k) (found : k.find id = some t)
    (exited : t.state = .exited) (left : (k.cpu t.homeCpu).retired ≠ some id)
    (post : Coherent (k.released id t) → Q t.user ((k.released id t).log (.released id))) :
    WP Contract (transitionReapExited id) Q k := by
  have slot := threadAt_of_find found
  have reclaimable : k.reclaimable id = true := by
    have current : (k.cpu t.homeCpu).current ≠ some id := by
      intro running
      cases exited.symm.trans (h.current_status running found).2
    have idle : (k.cpu t.homeCpu).idle ≠ some id := by
      intro idle
      obtain ⟨u, live, _, state⟩ := h.find_idle idle
      obtain rfl := Option.mem_unique found live
      rcases state with state | state <;> cases exited.symm.trans state
    simp [reclaimable, found, exited, left, current, idle]
  rw [transitionReapExited, wp_bind, wp_get, wp_bind, wp_stopIf]
  refine ⟨fun kept => absurd kept (by simp [reclaimable]), fun _ => ?_⟩
  rw [wp_bind, wp_threadHomeCpu slot, wp_bind, wp_get, wp_bind, wp_stopIf]
  refine ⟨?_, fun _ => ?_⟩
  · rintro ⟨queued, member, same⟩
    exact absurd same (h.unqueued found (Or.inl (by simp [exited])) queued member)
  · rw [wp_bind]
    refine wp_reapExited h found exited left fun coherent => ?_
    rw [wp_bind, (coherent.log _).wp_validateAfterTransition]
    exact post coherent

end Genrt
