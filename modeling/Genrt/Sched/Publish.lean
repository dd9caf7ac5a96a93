import Genrt.Sched.Reap

/-!
# Specifications of publication and of the ingress

Publishing occupies a slot taken from the free list and makes the new thread
visible: as the idle thread of a processor, in the queue of the executing
processor, or in the ingress of another one. A notified processor moves its
ingress into its queue.
-/

namespace Genrt

open Effect WaitMetadata Kernel Function

variable {k k' : Kernel} {c : CpuId}

/-! ### Occupying a slot -/

/-- The thread that a publication puts into a slot. -/
def ThreadSlot.occupant (slot : ThreadSlot) (home : CpuId) (joinable : Bool)
    (user : Option UserThreadResources) (stack : OwnedKernelStack) : Thread :=
  { homeCpu := home, state := .ready, joinable, exitCode := none, joiner := none
    lastJoinResult := none, reapedUser := none, user
    wait := .withNextSequence slot.nextWaitSequence, stack }

variable {index : Nat} {home : CpuId} {joinable : Bool} {user : Option UserThreadResources}

variable {touched : WaitToken → Prop}

namespace Occupies

variable {index generation : Nat} {f : ThreadSlot → ThreadSlot} {t : Thread}

/-- The queued threads, the idle thread and the new thread need a slot each. -/
theorem room (new : Occupies k index f generation t) (h : Coherent (k.withFree index))
    (housed : (k.cpu c).idle ≠ none) {queue : List ThreadId} (distinct : queue.Nodup)
    (queued : ∀ other ∈ queue, other ∈ k.ready c ∨ other ∈ k.remote c) :
    queue.length + 2 ≤ k.slots.length := by
  obtain ⟨idle, present⟩ := Option.ne_none_iff_exists'.mp housed
  have finds := new.finds
  have absent : ∀ id u, k.find id = some u → id ≠ ⟨index, generation⟩ := by
    rintro _ u found rfl
    cases (new.absent rfl).symm.trans found
  obtain ⟨v, live, _⟩ := h.find_idle present
  have lives : ∀ other ∈ queue, ∃ u, k.find other = some u ∧ (k.cpu c).idle ≠ some other := by
    intro other member
    obtain ⟨u, found, _, _, worker⟩ := h.find_of_queued (queued other member)
    exact ⟨u, found, worker⟩
  have bound : (⟨index, generation⟩ :: idle :: queue).length ≤
      (k.modifySlot index f).slots.length := by
    refine length_le_slots ?_ ?_
    · refine List.nodup_cons.mpr ⟨?_, List.nodup_cons.mpr ⟨?_, distinct⟩⟩
      · intro member
        rcases List.mem_cons.mp member with same | member
        · exact absent idle v live same.symm
        · obtain ⟨u, found, _⟩ := lives _ member
          exact absent _ u found rfl
      · intro member
        obtain ⟨_, _, worker⟩ := lives idle member
        exact worker present
    · rw [finds]
      intro other member
      rcases List.mem_cons.mp member with rfl | member
      · exact ⟨t, update_self ..⟩
      · have old : ∃ u, k.find other = some u := by
          rcases List.mem_cons.mp member with rfl | member
          · exact ⟨v, live⟩
          · obtain ⟨u, found, _⟩ := lives other member
            exact ⟨u, found⟩
        obtain ⟨u, found⟩ := old
        exact ⟨u, by rw [update_of_ne (absent other u found), found]⟩
  have size : (k.modifySlot index f).slots.length = k.slots.length := by simp
  rw [size] at bound
  exact bound

theorem quiet (new : Occupies k index f generation t) (inactive : t.wait.active = none) :
    Quiet c touched k (k.modifySlot index f) := by
  refine .of_scheduler (fun _ _ => rfl) rfl rfl rfl (fun _ same => same)
    (registration_occupy new.finds (new.absent rfl) inactive) fun other token owned => ?_
  rw [joinerOf, new.finds, update_apply] at owned
  split at owned
  · rw [Option.bind_some, new.joiner] at owned
    cases owned
  · exact owned

end Occupies

/-- The kernel after a free slot was occupied. -/
def Kernel.occupied (k : Kernel) (index generation : Nat) (t : Thread) : Kernel :=
  k.modifySlot index fun slot => { slot with generation, stack := none, thread := some t }

/-- A new thread, in its slot but not visible yet. -/
structure Newcomer (k : Kernel) (c : CpuId) (index generation : Nat) (t : Thread) : Prop where
  storage : Coherent (k.withFree index)
  occupies : Occupies k index
    (fun slot => { slot with generation, stack := none, thread := some t }) generation t
  home : t.homeCpu = c
  inactive : t.wait.active = none

section Visible

variable {index generation : Nat} {t : Thread} {bootstrap : Bool} {Q : Unit → Kernel → Prop}

namespace Newcomer

section

variable (new : Newcomer k c index generation t)

include new

theorem found : (k.occupied index generation t).find ⟨index, generation⟩ = some t := by
  rw [Kernel.occupied, new.occupies.finds, update_self]

theorem quiet {d : CpuId} :
    Quiet d touched k (k.occupied index generation t) := new.occupies.quiet new.inactive

/-- No queue holds the slot of the new thread. -/
theorem unqueued : ∀ queued, queued ∈ k.ready c ∨ queued ∈ k.remote c → queued.index ≠ index := by
  intro queued member same
  obtain ⟨u, found, _⟩ := new.storage.find_of_queued member
  cases (new.occupies.absent same).symm.trans found

theorem worker : (k.cpu c).idle ≠ some ⟨index, generation⟩ := by
  intro idle
  obtain ⟨u, found, _⟩ := new.storage.find_idle idle
  cases (new.occupies.absent rfl).symm.trans found

end

end Newcomer

theorem wp_publishVisible_local (new : Newcomer k c index generation t)
    (housed : (k.cpu c).idle ≠ none)
    (post : ∀ queue : BoundedQueue ThreadId, queue.items = k.ready c ++ [⟨index, generation⟩] →
      queue.capacity = (k.cpu c).readyQueue.capacity →
      Coherent ((k.occupied index generation t).setCpu c { k.cpu c with readyQueue := queue }) →
      WP Contract (onlyIf (bootstrap = false ∧ k.ready c = []) (noteRunnablePeerAvailable c)) Q
        (((k.occupied index generation t).setCpu c { k.cpu c with readyQueue := queue }).log
          (.published ⟨index, generation⟩))) :
    WP Contract (publishVisible c c ⟨index, generation⟩ bootstrap false) Q
      ((k.occupied index generation t).log (.published ⟨index, generation⟩)) := by
  rw [publishVisible, if_neg (by decide), if_pos rfl, wp_bind, wp_cpuState, wp_bind]
  refine wp_readyPushBack (t := t) ?_ new.home ?_ ?_ ?_ fun queue items capacity => ?_
  · exact new.found
  · exact new.worker
  · exact fun queued member => new.unqueued queued (Or.inl member)
  · have room : (k.ready c).length + 2 ≤ k.slots.length :=
      new.occupies.room new.storage housed (new.storage.dispatch.queue_nodup c) fun _ => Or.inl
    have capacity : k.slots.length ≤ (k.cpu c).readyQueue.capacity + 1 :=
      (new.storage.cpu c).readyCapacity
    change (k.ready c).length < (k.cpu c).readyQueue.capacity
    omega
  · exact post queue items capacity
      (new.storage.publish_local new.occupies new.home housed items capacity rfl)

end Visible

/-! ### Publishing -/

variable {Q : Unit → Kernel → Prop}

theorem wp_publish {generation : Nat} {bootstrap idle : Bool}
    (storage : Coherent (k.withFree index)) (here : idle = true → home = c)
    (detached : joinable = false → user = none) (post : ∀ t, Newcomer k home index generation t →
      WP Contract (publishVisible c home ⟨index, generation⟩ bootstrap idle)
        (fun _ k' => Coherent k' ∧ Q () k')
        ((k.occupied index generation t).log (.published ⟨index, generation⟩))) :
    WP Contract (publish c home index user joinable generation bootstrap idle) Q k := by
  obtain ⟨slot, present, free⟩ :=
    (storage.table.freeIff index).mp (List.mem_cons_self (l := k.freeSlots))
  obtain ⟨stack, owned⟩ := Option.ne_none_iff_exists'.mp
    ((storage.table.stack index slot present).mp free)
  have present' : k.scheduler.lifecycle.slots[index]? = some slot := present
  rw [publish, wp_bind, wp_stopIf]
  refine ⟨fun stray => absurd (here stray.1) stray.2, fun _ => ?_⟩
  rw [wp_bind, wp_get, wp_bind, wp_orStop_some present', wp_bind, wp_stopIf]
  refine ⟨fun occupied => absurd occupied (by simp [free]), fun _ => ?_⟩
  rw [wp_bind, wp_orStop_some owned, wp_bind, wp_modify, wp_bind, wp_record]
  refine .stopIf (fun _ => rfl) fun matched => ?_
  have new : Newcomer k home index generation (slot.occupant home joinable user stack) := by
    refine ⟨storage, ⟨⟨slot, present, free, rfl, rfl, rfl⟩, rfl, rfl, ?_⟩, rfl, rfl⟩
    constructor
    · simp [ThreadSlot.occupant, isBlocked, withNextSequence]
    · simp [ThreadSlot.occupant, isPrepared, withNextSequence]
    · simp [ThreadSlot.occupant, isCompleted, withNextSequence]
    · simp [ThreadSlot.occupant]
    · simp [ThreadSlot.occupant, withNextSequence]
    · simp [ThreadSlot.occupant]
    · intro u given
      by_contra apart
      exact matched ⟨u, given, apart⟩
    · exact fun off => ⟨detached off, rfl⟩
  rw [wp_bind]
  refine (post _ new).mono fun _ k' done => ?_
  rw [done.1.wp_validateAfterTransition]
  exact done.2

/-- Taking a slot off the free list touches nothing else. -/
theorem Quiet.withFree : Quiet c touched (k.withFree index) k :=
  .of_scheduler (fun _ _ => rfl) rfl rfl rfl (fun _ same => same) rfl fun _ _ same => same

/-- A runtime publication on a processor with an idle thread. -/
theorem wp_transitionPublishRuntime (steady : Steady c (k.withFree index))
    (online : (k.cpu c).online = true) (housed : (k.cpu home).idle ≠ none)
    (detached : joinable = false → user = none) :
    Settles c k (transitionPublishRuntime c home index user joinable) := by
  have time : TimeOk k := steady.time.keep (Quiet.withFree (c := c)).toWithin rfl
  have exact : QuantumExact k c := steady.exact
  obtain ⟨slot, present, _⟩ :=
    (steady.table.freeIff index).mp (List.mem_cons_self (l := k.freeSlots))
  have present' : k.scheduler.lifecycle.slots[index]? = some slot := present
  rw [Settles, transitionPublishRuntime, wp_bind, wp_get, wp_bind, wp_orStop_some present', wp_bind]
  generalize nextGeneration slot.generation = generation
  refine wp_publish steady.toCoherent (fun idle => absurd idle (by decide)) detached fun t new => ?_
  by_cases here : home = c
  · subst here
    refine wp_publishVisible_local new housed fun queue items _ coherent => ?_
    have quiet : Calm home k (((k.occupied index generation t).setCpu home
        { k.cpu home with readyQueue := queue }).log (.published ⟨index, generation⟩)) :=
      (new.quiet.trans (.setCpu (by rfl))).trans .log
    have grown : (((k.occupied index generation t).setCpu home
        { k.cpu home with readyQueue := queue }).log (.published ⟨index, generation⟩)).ready home =
        k.ready home ++ [⟨index, generation⟩] := ready_setCpu_self.trans items
    refine wp_announce exact online (coherent.log _) (time.keep quiet.toWithin rfl) rfl ?_ grown
      (by simp) fun k' same rest steady' => ?_
    · simp
    · exact ⟨steady'.toCoherent, steady', quiet.trans rest⟩
  · rw [publishVisible, if_neg (by decide), if_neg here]
    refine wp_publishRemoteReady ?_ ?_ fun queue items capacity => ?_
    · exact fun member => new.unqueued _ (Or.inr member) rfl
    · have room : (k.remote home).length + 2 ≤ k.slots.length :=
        new.occupies.room new.storage housed (new.storage.dispatch.ingress_nodup home)
          fun _ => Or.inr
      have capacity : k.slots.length ≤ (k.scheduler.remoteReady home).capacity + 1 :=
        (new.storage.cpu home).remoteCapacity
      change (k.remote home).length < (k.scheduler.remoteReady home).capacity
      omega
    have posted : Coherent ((((k.occupied index generation t).log
        (.published ⟨index, generation⟩)).setRemote home queue).notify home) :=
      (new.storage.publish_remote new.occupies new.home housed items capacity).congr
        notify_scheduler
    have quiet : Calm c k ((((k.occupied index generation t).log
        (.published ⟨index, generation⟩)).setRemote home queue).notify home) :=
      ((new.quiet.trans .log).trans .setRemote).trans .notify
    refine ⟨posted, steady.carry posted (Quiet.withFree.trans quiet).toWithin ?_ ?_ ?_, quiet⟩
    · rw [clocks_notify]
      rfl
    · rw [cpu_notify]
      rfl
    · rw [ready_notify]
      rfl

/-- The head of the free list, if there is one. -/
theorem wp_takeFreeSlot {E : Panic → Prop} {Q : Option Nat → Kernel → Prop}
    (empty : k.freeSlots = [] → Q none k)
    (taken : ∀ index m, m.withFree index = k → m.cpu = k.cpu → Calm c k m → Q (some index) m) :
    WP E takeFreeSlot Q k := by
  rw [takeFreeSlot, wp_bind, wp_get]
  cases free : k.scheduler.lifecycle.freeSlots with
  | nil => exact empty free
  | cons index rest =>
    have back : (k.setFreeSlots rest).withFree index = k := by
      change k.setFreeSlots (index :: rest) = k
      rw [← free]
      rfl
    have quiet : Calm c ((k.setFreeSlots rest).withFree index)
        (k.setFreeSlots rest) := .withFree
    rw [back] at quiet
    exact taken index (k.setFreeSlots rest) back rfl quiet

/-! ### The ingress -/

/-- The ingress of processor `c` moved into its queue, in order. -/
structure Drained (c : CpuId) (k k' : Kernel) : Prop where
  coherent : Coherent (k'.setPending c true)
  remote : k'.remote c = []
  ready : k'.ready c = k.ready c ++ k.remote c
  cpu : k'.cpu c = { k.cpu c with readyQueue := (k'.cpu c).readyQueue }
  quiet : Calm c k k'
  clocks : k'.clocks = k.clocks
  find : k'.find = k.find

/-- The head of the ingress may be moved. -/
theorem Coherent.receivable (h : Coherent k) {id : ThreadId} (member : id ∈ k.remote c) :
    ∃ t, k.find id = some t ∧ t.homeCpu = c ∧ t.state = .ready ∧ (k.cpu c).idle ≠ some id ∧
      (∀ queued ∈ k.ready c, queued.index ≠ id.index) ∧
      (k.ready c).length < (k.cpu c).readyQueue.capacity := by
  have queued : id ∈ k.ready c ∨ id ∈ k.remote c := Or.inr member
  obtain ⟨t, found, home, state, worker⟩ := h.find_of_queued queued
  have outside : id ∉ k.ready c := fun inside => h.dispatch.disjoint c id inside member
  refine ⟨t, found, home, state, worker, fun other inside same => ?_, ?_⟩
  · have somewhere : other ∈ k.ready c ∨ other ∈ k.remote c := Or.inl inside
    obtain ⟨u, live, _⟩ := h.find_of_queued somewhere
    obtain rfl := find_unique live found same
    exact outside inside
  · have room : (k.ready c).length + 2 ≤ k.slots.length :=
      h.room found worker (home ▸ h.housed id t found) outside (h.dispatch.queue_nodup c)
        fun _ => Or.inl
    have := (h.cpu c).readyCapacity
    omega

theorem wp_drainRemoteReady (fuel : Nat) (h : Coherent (k.setPending c true))
    (enough : (k.remote c).length ≤ fuel) :
    WP Contract (drainRemoteReady c fuel) (fun _ k' => Drained c k k') k := by
  induction fuel generalizing k with
  | zero =>
    have none : k.remote c = [] := List.length_eq_zero_iff.mp (Nat.le_zero.mp enough)
    exact ⟨h, none, by rw [none, List.append_nil], rfl, .refl k, rfl, rfl⟩
  | succ fuel ih =>
    rw [drainRemoteReady, wp_bind, wp_get]
    cases items : k.remote c with
    | nil =>
      rw [BoundedQueue.popFront_eq_none.mpr items]
      exact ⟨h, items, by rw [items, List.append_nil], rfl, .refl k, rfl, rfl⟩
    | cons id rest =>
      obtain ⟨queue, popped, left, capacity⟩ := BoundedQueue.popFront_of_cons items
      have member : id ∈ (k.setPending c true).remote c := by
        rw [remote_setPending, items]
        exact .head _
      obtain ⟨t, found, home, state, worker, fresh, room⟩ := h.receivable member
      have found' : (k.setRemote c queue).find id = some t := found
      rw [popped]
      refine .bind ((wp_modify _).mpr (.bind (wp_get.mpr ?_)))
      refine .bind (wp_stopIf.mpr ⟨fun stale => ?_, fun _ => (wp_bind _).mpr ?_⟩)
      · rw [found'] at stale
        simp [state, home] at stale
      · refine wp_readyPushBack found' home worker fresh room fun ready added size => ?_
        have moved : Coherent (((k.setRemote c queue).setCpu c
            { k.cpu c with readyQueue := ready }).setPending c true) :=
          Coherent.receive (k := k.setPending c true) h (update_self ..)
            (by rw [remote_setPending, items, left]) capacity added size rfl
        have remote : ((k.setRemote c queue).setCpu c
            { k.cpu c with readyQueue := ready }).remote c = rest := by
          rw [← left]
          exact congrArg BoundedQueue.items (update_self ..)
        have queued : ((k.setRemote c queue).setCpu c
            { k.cpu c with readyQueue := ready }).ready c = k.ready c ++ [id] := by
          rw [ready_setCpu_self]
          exact added
        refine (ih moved ?_).mono fun _ k' done => ⟨done.coherent, done.remote, ?_, ?_, ?_,
          done.clocks, done.find⟩
        · rw [remote]
          rw [items, List.length_cons] at enough
          exact Nat.le_of_succ_le_succ enough
        · rw [done.ready, remote, queued, items, List.append_assoc, List.singleton_append]
        · rw [done.cpu, cpu_setCpu_self]
        · exact (Quiet.setRemote.trans (.setCpu (by rfl))).trans done.quiet

/-- A processor without a retired thread answers its notification. -/
theorem wp_consumeSchedulerIpi (h : Coherent k) (finalized : (k.cpu c).retired = none)
    (post : ∀ k', Coherent k' → k'.ready c = k.ready c ++ k.remote c →
      k'.cpu c = { k.cpu c with readyQueue := (k'.cpu c).readyQueue } →
      Calm c k k' → k'.clocks = k.clocks →
      (k'.scheduler.schedulerIpiPending c = true → k.ipisSent c < k'.ipisSent c) → Q () k') :
    WP Contract (consumeSchedulerIpi c) Q k := by
  have coherent : Coherent ((k.setPending c false).setPending c true) := by
    have same : (k.setPending c false).setPending c true = k.setPending c true := by
      simp only [setPending, update_idem]
    rw [same]
    exact ⟨h.toCore.setPending c true, fun d => (h.cpu d).setPending c⟩
  rw [consumeSchedulerIpi, wp_bind, wp_get, wp_bind, wp_modify, wp_bind, wp_stopIf]
  refine ⟨fun lost => ?_, fun _ => ?_⟩
  · have := (h.cpu c).notified (Or.inl lost.2)
    rw [lost.1] at this
    cases this
  · refine (wp_drainRemoteReady _ coherent le_rfl).mono fun _ k' done => ?_
    have cleared : Calm c k (k.setPending c false) := by
      refine .of_scheduler (fun _ _ => rfl) rfl rfl rfl (fun d raised => ?_) rfl
        fun _ _ same => same
      rw [pending_setPending] at raised
      split at raised
      · cases raised
      · exact raised
    refine post k' (done.coherent.acknowledge done.remote ?_) done.ready done.cpu
      (cleared.trans done.quiet) done.clocks fun raised => ?_
    · rw [done.cpu]
      exact finalized
    · refine (done.quiet.notified c raised).resolve_left fun before => ?_
      rw [pending_setPending, if_pos rfl] at before
      cases before

end Genrt
