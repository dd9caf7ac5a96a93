import Genrt.Sched.Blocking

/-!
# Specifications of joins

A join ends at once with an error or by reaping an exited thread, or it blocks.
A blocking join breaks the scheduler invariant for a moment: the target names a
wait that is not blocked yet. The state after the handoff is therefore compared
with the one in which the join registers last.
-/

namespace Genrt

open Effect Function Kernel

variable {k k' : Kernel} {c : CpuId} {id next target : ThreadId} {t u v : Thread}

/-! ### Registering with the target -/

namespace Kernel

/-- Changes of different threads, or of different fields, commute. -/
theorem modifyThread_comm {i j : Nat} {f g : Thread → Thread}
    (commute : i ≠ j ∨ ∀ t, f (g t) = g (f t)) :
    (k.modifyThread i f).modifyThread j g = (k.modifyThread j g).modifyThread i f := by
  by_cases same : i = j
  · subst same
    have swap : g ∘ f = f ∘ g := funext fun t => (commute.resolve_left (· rfl) t).symm
    rw [modifyThread_modifyThread, modifyThread_modifyThread, swap]
  · simp only [modifyThread, modifySlot, setSlots]
    rw [List.modify_modify_ne _ _ _ same]

/-- The target registers the joiner. -/
def joinedBy (k : Kernel) (target : ThreadId) (token : WaitToken) : Kernel :=
  k.modifyThread target.index fun t => { t with joiner := some token }

theorem find_joinedBy (found : k.find target = some v) (token : WaitToken) :
    (k.joinedBy target token).find = update k.find target (some { v with joiner := some token }) :=
  find_modifyThread_eq found

/-- It makes no difference whether the joiner registers before or after it blocks. -/
theorem blocked_joinedBy {token : WaitToken} {wait : WaitMetadata} {queue : BoundedQueue ThreadId}
    (apart : target.index ≠ id.index) : (k.joinedBy target token).blocked c id next wait queue =
      (k.blocked c id next wait queue).joinedBy target token := by
  simp only [joinedBy, blocked, dispatched, modifyThread_setCpu]
  rw [modifyThread_comm (Or.inl apart), modifyThread_comm (i := target.index)
    (f := fun t => { t with joiner := some token }) (g := fun t => { t with state := .running })
    (Or.inr fun _ => rfl)]
  rfl

end Kernel

variable {rest : BoundedQueue ThreadId} {token : WaitToken}

/-- The selection depends on the queue and on the state and home of its choice. -/
theorem Selected.transfer (selected : Selected k c next u rest)
    (finds : ∃ u', k'.find next = some u' ∧ u'.state = u.state ∧ u'.homeCpu = u.homeCpu)
    (cpu : k'.cpu c = k.cpu c) : ∃ u', Selected k' c next u' rest := by
  obtain ⟨_, state, home, choice, capacity, worker⟩ := selected
  obtain ⟨u', live, state', home'⟩ := finds
  have ready : k'.ready c = k.ready c := by rw [ready, cpu, ready]
  refine ⟨u', live, state'.trans state, home'.trans home, ?_, ?_, ?_⟩
  · rwa [ready, cpu]
  · rwa [cpu]
  · rwa [ready, cpu]

/-- The thread that runs next may be the target itself. -/
theorem Selected.joinedBy_iff (found : k.find target = some v) :
    (∃ u, Selected k c next u rest) ↔ ∃ u, Selected (k.joinedBy target token) c next u rest := by
  have finds := find_joinedBy found token
  constructor
  · rintro ⟨u, selected⟩
    refine selected.transfer ?_ rfl
    have live := selected.found
    rw [finds, update_apply]
    split
    · next same =>
      rw [same, found] at live
      obtain rfl := Option.some.inj live
      exact ⟨{ v with joiner := some token }, rfl, rfl, rfl⟩
    · exact ⟨u, live, rfl, rfl⟩
  · rintro ⟨u, selected⟩
    refine selected.transfer ?_ rfl
    have live := selected.found
    rw [finds, update_apply] at live
    split at live
    · next same =>
      obtain rfl := Option.some.inj live
      exact ⟨v, same ▸ found, rfl, rfl⟩
    · exact ⟨u, live, rfl, rfl⟩

theorem Kernel.joinerOf_joinedBy (found : k.find target = some v) {other : ThreadId}
    {token' : WaitToken} (registered : (k.joinedBy target token).joinerOf other = some token') :
    k.joinerOf other = some token' ∨ token' = token := by
  rw [joinerOf, find_joinedBy found, update_apply] at registered
  split at registered
  · exact Or.inr (Option.some.inj registered).symm
  · exact Or.inl registered

theorem Closed.joinedBy (found : k.find target = some v) (own : token.cpu = c) :
    Closed c (· = token) k (k.joinedBy target token) := by
  have same := registration_update (find_joinedBy found token) found rfl
  have joiners : ∀ other token', (k.joinedBy target token).joinerOf other = some token' →
      k.joinerOf other = some token' ∨ token' = token := fun _ _ => joinerOf_joinedBy found
  refine ⟨⟨.modifyThread, ?_,
    fun other token' joined => (joiners other token' joined).imp_right
      fun named => by rw [named, own],
    fun other w _ active phase => ⟨w, same ▸ active, rfl, phase⟩,
    fun other w _ active _ => same ▸ active⟩, fun other w active _ => same ▸ active⟩
  rintro other apart ⟨active, unowned⟩
  refine ⟨by rwa [same], fun id registered => ?_⟩
  exact (joiners id other registered).elim (unowned id) apart

/-- A joiner that blocked is registered with a target that it can still receive. -/
theorem Coherent.joined (h : Coherent k) (running : (k.cpu c).current = some token.thread)
    (found : k.find token.thread = some t)
    (active : t.wait.active = some ⟨token, .prepared, .explicit⟩)
    (unjoined : t.lastJoinResult = none) (unreaped : t.reapedUser = none)
    (live : k.find target = some v) (joinable : v.joinable = true) (other : target ≠ token.thread)
    (held : v.state = .exited → (k.cpu v.homeCpu).retired = some target)
    (worker : (k.cpu c).idle ≠ some token.thread) (selected : Selected k c next u rest) :
    Coherent ((k.blocked c token.thread next (t.wait.commit ⟨token, .explicit⟩).2 rest).joinedBy
      target token) := by
  have status := h.current_status running found
  have apart := ne_of_state selected.found found (by simp [selected.state, status.2])
  have committed : (t.wait.commit ⟨token, .explicit⟩).2 =
      { t.wait with active := some ⟨token, .blocked, .explicit⟩ } := by
    simp [WaitMetadata.commit, active]
  have blocked := h.blocked ⟨token, .explicit⟩ running found active worker selected
  have registered : k.registration token = some ⟨token, .prepared, .explicit⟩ :=
    registration_eq_some.mpr ⟨t, found, active, rfl⟩
  have unjoined' := h.unjoined registered (by simp)
  have cpu : ∀ d, ((k.blocked c token.thread next (t.wait.commit ⟨token, .explicit⟩).2 rest).cpu
      d).retired = (k.cpu d).retired := by
    intro d
    rw [Kernel.blocked, cpu_dispatched]
    split
    · next same => rw [same]
    · rfl
  have finds : (k.blocked c token.thread next (t.wait.commit ⟨token, .explicit⟩).2 rest).find = _ :=
    find_blocked found selected.found apart
  generalize k.blocked c token.thread next (t.wait.commit ⟨token, .explicit⟩).2 rest = k₁ at *
  have fresh : ∀ other, k₁.joinerOf other ≠ some token := by
    intro other joined
    refine unjoined' other ?_
    rw [joinerOf, finds] at joined
    simp only [update_apply] at joined
    split at joined
    · next same => rw [joinerOf, same, selected.found]; exact joined
    · split at joined
      · next same => rw [joinerOf, same, found]; exact joined
      · exact joined
  have waiting : k₁.find token.thread = some { t with
      wait := { t.wait with active := some ⟨token, .blocked, .explicit⟩ }, state := .blocked } := by
    rw [finds, update_of_ne apart.symm, update_self, committed]
  by_cases same : target = next
  · -- The target runs next, so it has not exited.
    subst same
    obtain rfl := Option.mem_unique live selected.found
    refine blocked.register (t := { v with state := .running }) ?_ joinable fresh waiting
      ⟨rfl, rfl, unjoined, unreaped⟩ (by simp)
    rw [finds, update_self]
  · refine blocked.register (t := v) ?_ joinable fresh waiting ⟨rfl, rfl, unjoined, unreaped⟩
      fun exited => ?_
    · rw [finds, update_of_ne same, update_of_ne other, live]
    · rw [cpu]
      exact held exited

/-- The call blocks until the target's processor hands it over. -/
theorem wp_joinBlocking (h : Steady c k) (online : (k.cpu c).online = true)
    (running : (k.cpu c).current = some id) (found : k.find id = some t)
    (unjoined : t.lastJoinResult = none) (unreaped : t.reapedUser = none)
    (live : k.find target = some v) (joinable : v.joinable = true) (apart : target.index ≠ id.index)
    (held : v.state = .exited → (k.cpu v.homeCpu).retired = some target) :
    Waits c k (joinBlocking c target) := by
  have other : target ≠ id := fun same => apart (by rw [same])
  simp only [Waits, joinBlocking, assertPreemptionEnabledOn, wp_bind, wp_get, wp_stopIf]
  refine ⟨fun _ => rfl, fun _ => ?_⟩
  refine wp_transitionPrepareWaitWith h.toCoherent
    fun id' t' running' found' home inactive coherent => ?_
  obtain rfl := Option.mem_unique running running'
  obtain rfl := Option.mem_unique found found'
  generalize logged : (k.preparing id t .explicit).log (.prepared (t.nextToken id)) = k₁
  have same₁ : Aside (k.preparing id t .explicit) k₁ := logged ▸ Aside.log
  have coherent₁ : Coherent k₁ := coherent.congr same₁.scheduler
  have found₁ : k₁.find id = some (t.preparing id .explicit) := by
    rw [same₁.find, find_preparing found, update_self]
  have live₁ : k₁.find target = some v := by
    rw [same₁.find, find_preparing found, update_of_ne other, live]
  have running₁ : (k₁.cpu c).current = some id := by
    rw [same₁.cpu]
    exact running
  have status := coherent₁.current_status running₁ found₁
  rw [wp_threadMut (threadAt_of_find live₁)]
  change WP Contract (commitPreparedWait c ⟨t.nextToken id, .explicit⟩) _
    (k₁.joinedBy target (t.nextToken id))
  have found₂ : (k₁.joinedBy target (t.nextToken id)).find id =
      some (t.preparing id .explicit) := by
    rw [find_joinedBy live₁, update_of_ne other.symm, found₁]
  have running₂ : ((k₁.joinedBy target (t.nextToken id)).cpu c).current = some id := running₁
  refine wp_commitWaitWith_block running₂ found₂ status
    (coherent₁.dispatch.started c _ running₁) rfl
    (fun worker => ?_) fun next u rest selected worker distinct => ?_
  · obtain ⟨next, u, rest, selected⟩ := coherent₁.successor running₁ worker
    obtain ⟨u', selected'⟩ := (Selected.joinedBy_iff live₁).mp ⟨u, selected⟩
    exact ⟨next, u', rest, selected'⟩
  obtain ⟨u₁, selected₁⟩ := (Selected.joinedBy_iff live₁).mpr ⟨u, selected⟩
  have active : (t.preparing id .explicit).wait.active =
      some ⟨t.nextToken id, .prepared, .explicit⟩ := rfl
  rw [blocked_joinedBy apart]
  have coherent₂ : Coherent ((k₁.blocked c id next ((t.preparing id .explicit).wait.commit
      ⟨t.nextToken id, .explicit⟩).2 rest).joinedBy target (t.nextToken id)) :=
    coherent₁.joined running₁ found₁ active unjoined unreaped live₁ joinable other
      (by rw [same₁.cpu]; exact held) worker selected₁
  refine ⟨coherent₂, fun m same => ?_⟩
  obtain ⟨v', live₂⟩ : ∃ v', (k₁.blocked c id next ((t.preparing id .explicit).wait.commit
      ⟨t.nextToken id, .explicit⟩).2 rest).find target = some v' := by
    rw [find_blocked found₁ selected₁.found distinct, update_apply]
    split
    · exact ⟨_, rfl⟩
    · rw [update_of_ne other, live₁]
      exact ⟨v, rfl⟩
  have committed : ∀ w, m.registration (t.nextToken id) = some w → w.phase ≠ .prepared := by
    rw [registration_congr same.scheduler,
      registration_update (find_joinedBy live₂ _) live₂ rfl]
    exact committed_blocked ⟨t.nextToken id, .explicit⟩ found₁ selected₁.found distinct active
      rfl
  have block : Quiet c (· = t.nextToken id) (k.preparing id t .explicit) (k₁.blocked c id next
      ((t.preparing id .explicit).wait.commit ⟨t.nextToken id, .explicit⟩).2 rest) :=
    same₁.quiet.trans (.blocked found₁ selected₁.found distinct active home)
  have rest' : Closed c (· = t.nextToken id) (k.preparing id t .explicit) m :=
    block.toClosed.trans ((Closed.joinedBy live₂ home).trans same.quiet.toClosed)
  have quiet : Closed c (fun _ => False) k m := by
    refine (Closed.of_preparing found home inactive rest' committed).drop ?_
    rintro _ rfl ⟨⟨w, stored, _⟩, _⟩
    obtain ⟨stored, _⟩ := (registration_found found rfl).mp stored
    cases inactive.symm.trans stored
  have clocks : m.clocks = k.clocks := same.clocks.trans same₁.clocks
  refine wp_finishBlockCurrent (coherent₂.congr same.scheduler) (h.time.keep quiet.toWithin clocks)
    (fun other' member => ?_) (by rw [quiet.online, online]) fun k' steady final _ => ?_
  · rw [events_congr clocks] at member
    exact Option.some.inj (((h.exact other').mp member).2.1.symm.trans running)
  · refine ⟨steady, quiet.trans final.toClosed, fun owner token queued => Or.inl ?_,
      fun other token joined => ?_⟩
    · exact events_congr clocks ▸ final.timed owner token queued
    · have registered := final.joined other token joined
      rw [joinerOf_congr same.scheduler] at registered
      refine (joinerOf_joinedBy live₂ registered).imp (fun before => ?_) ?_
      · exact joinerOf_preparing _ found ▸ block.joined other token before
      · rintro rfl
        exact ⟨t, running, found, rfl⟩

/-! ### Joins that end at once -/

/-- The running thread is given the outcome of a join. -/
theorem Steady.outcome (h : Steady c k) (found : k.find id = some t) (awake : t.state ≠ .blocked)
    {f : Thread → Thread} {result : Option (Except JoinError Nat)}
    {user : Option UserThreadResources}
    (shape : f t = { t with lastJoinResult := result, reapedUser := user }) :
    Steady c (k.modifyThread id.index f) ∧ Calm c k (k.modifyThread id.index f) := by
  have quiet : Calm c k (k.modifyThread id.index f) :=
    .modifyThread found (by rw [shape]) (by rw [shape])
  refine ⟨h.carry (h.toCoherent.touch found ?_ ?_ ?_ ?_ awake) quiet.toWithin rfl rfl Iff.rfl,
    quiet⟩
  · rw [shape]
  · rw [shape]
  · rw [shape]
    exact (h.thread id t found).outcome
  · rw [shape]

/-- The running thread reaps an exited target. -/
theorem wp_joinExited (h : Steady c k) (found : k.find id = some t) (awake : t.state = .running)
    (unreaped : t.reapedUser = none) (live : k.find target = some v) (exited : v.state = .exited)
    (left : (k.cpu v.homeCpu).retired ≠ some target) : Settles c k (joinExited id target) := by
  have other : id ≠ target := ne_of_state found live (by simp [awake, exited])
  have ok := h.thread target v live
  obtain ⟨code, stored⟩ := Option.isSome_iff_exists.mp (ok.code.mpr exited)
  rw [Settles, joinExited, wp_bind, wp_thread (threadAt_of_find live), wp_bind,
    wp_orStop_some stored, wp_bind]
  refine wp_transitionReapExited h.toCoherent live exited left fun coherent => ?_
  have freed : Calm c k ((k.released target v).log (.released target)) :=
    .trans (.released live (ok.exited exited)) .log
  have steady₁ : Steady c ((k.released target v).log (.released target)) :=
    h.carry (coherent.log _) freed.toWithin rfl rfl Iff.rfl
  have found₁ : ((k.released target v).log (.released target)).find id = some t := by
    rw [find_log, find_released live, update_of_ne other, found]
  obtain ⟨steady₂, given⟩ := steady₁.outcome (f := fun t => { t with reapedUser := v.user }) found₁
    (by simp [awake]) rfl
  have found₂ := find_modifyThread_self (f := fun t => { t with reapedUser := v.user }) found₁
  obtain ⟨steady₃, told⟩ := steady₂.outcome
    (f := fun t => { t with lastJoinResult := some (.ok code) }) found₂ (by simp [awake]) rfl
  rw [wp_bind, wp_setReapedUser found₁ unreaped, wp_bind, setJoinResult,
    wp_threadMut (threadAt_of_find found₂), wp_record]
  exact ⟨steady₃.aside .log, (freed.trans (given.trans told)).trans .log⟩

/-- A join that is not refused has a joinable target without a joiner. -/
theorem Kernel.joinRefusal_none (accepted : k.joinRefusal c id target = none) :
    ∃ v, k.find target = some v ∧ v.joinable = true ∧ v.joiner = none ∧
      target.index ≠ id.index := by
  rw [joinRefusal] at accepted
  split at accepted
  · cases accepted
  · split at accepted
    · cases accepted
    · next v live =>
      split at accepted
      · cases accepted
      · split at accepted
        · cases accepted
        · next apart =>
          split at accepted
          · cases accepted
          · next joinable =>
            split at accepted
            · cases accepted
            · next free =>
              exact ⟨v, live, by simpa using joinable, by simpa using free, apart⟩

theorem wp_joinThread (h : Steady c k) (online : (k.cpu c).online = true) :
    Waits c k (joinThread c target) := by
  rw [Waits, joinThread, wp_bind]
  refine (wp_transitionFinalizeRetired h online).mono fun _ k₁ done => ?_
  obtain ⟨finalized, steady⟩ := done
  have online₁ : (k₁.cpu c).online = true := by rw [finalized.quiet.online, online]
  rw [wp_bind, wp_runningThread]
  refine .orStop (fun _ => rfl) fun id running => ?_
  obtain ⟨t, found, home, state⟩ := steady.toCoherent.find_current running
  rw [wp_bind, wp_thread (threadAt_of_find found)]
  refine .stopIf (fun _ => rfl) fun consumed => ?_
  have unjoined : t.lastJoinResult = none := by
    by_contra some
    exact consumed (Or.inl (Option.isSome_iff_ne_none.mpr some))
  have unreaped : t.reapedUser = none := by
    by_contra some
    exact consumed (Or.inr (Option.isSome_iff_ne_none.mpr some))
  rw [wp_bind, wp_get]
  cases refusal : k₁.joinRefusal c id target with
  | some error =>
    obtain ⟨steady', told⟩ := steady.outcome
      (f := fun t => { t with lastJoinResult := some (.error error) }) found (by simp [state]) rfl
    rw [wp_bind, setJoinResult, wp_threadMut (threadAt_of_find found)]
    exact Settled.waited ⟨steady', finalized.quiet.trans told⟩
  | none =>
    obtain ⟨v, live, joinable, _, apart⟩ := joinRefusal_none refusal
    have reapable : k₁.reapable target =
        (decide (v.state = .exited) && decide ((k₁.cpu v.homeCpu).retired ≠ some target)) := by
      rw [reapable, live]
    refine wp_ite.mpr ⟨fun reap => ?_, fun wait => ?_⟩
    · rw [reapable, Bool.and_eq_true, decide_eq_true_eq, decide_eq_true_eq] at reap
      exact .bind (((wp_joinExited steady found state unreaped live reap.1 reap.2).after
        finalized.quiet).mono fun _ _ => Settled.waited)
    · refine (wp_joinBlocking steady online₁ running found unjoined unreaped live joinable apart
        fun exited => ?_).mono fun _ k' done => ?_
      · by_contra left
        exact wait (by simp [reapable, exited, left])
      -- Finalization leaves the running thread as it is.
      have next : ∀ token, k₁.Next c token → k.Next c token := by
        rintro token ⟨t', current, found', sequence⟩
        rw [finalized.cpu] at current
        obtain ⟨t₀, before, _, state₀⟩ := h.toCoherent.find_current current
        obtain rfl := Option.mem_unique (finalized.running _ _ before state₀) found'
        exact ⟨t₀, current, before, sequence⟩
      refine ⟨done.steady, finalized.quiet.toClosed.trans done.closed, fun owner token queued => ?_,
        fun other token joined => ?_⟩
      · exact (done.timed owner token queued).imp (finalized.quiet.timed owner token) (next token)
      · exact (done.joined other token joined).imp (finalized.quiet.joined other token) (next token)

/-- The running thread takes the outcome of its last join. -/
theorem wp_takeCurrentJoinResult (h : Steady c k) : Settles c k (takeCurrentJoinResult c) := by
  rw [Settles, takeCurrentJoinResult, wp_bind, wp_runningThread]
  refine .orStop (fun _ => rfl) fun id running => ?_
  obtain ⟨t, found, home, state⟩ := h.toCoherent.find_current running
  rw [wp_bind, wp_thread (threadAt_of_find found)]
  cases t.lastJoinResult with
  | none => exact .refl h
  | some result =>
    obtain ⟨steady, taken⟩ := h.outcome
      (f := fun t => { t with lastJoinResult := none, reapedUser := none }) found
        (by simp [state]) rfl
    refine .bind ((wp_threadMut (threadAt_of_find found)).mpr ?_)
    exact .bind (wp_record.mpr ⟨steady.aside .log, taken.trans .log⟩)

end Genrt
