import Genrt.Sched.Invariant
import Genrt.Sched.Validate

/-!
# The invariant passes the self-check

Every condition of `validateInvariants` follows from the scheduler invariant.
The last one counts: running threads and initialized processors correspond one
to one through the current threads.
-/

namespace Genrt

open Effect Scheduler Kernel

theorem firstViolation_ok {checks : List (Bool × Panic)}
    (passes : ∀ check ∈ checks, check.1 = false) : firstViolation checks = .ok () := by
  have none : checks.find? (fun check => check.1) = none := by
    refine List.find?_eq_none.mpr fun check member => ?_
    rw [passes check member]
    exact Bool.false_ne_true
  rw [firstViolation, none]

theorem ite_le_one {p : Prop} [Decidable p] : (if p then 1 else 0) ≤ 1 := by
  by_cases h : p <;> simp [h]

namespace Coherent

variable {k : Kernel}

section

variable (h : Coherent k)

include h

theorem cpuChecks_pass (cpu : CpuId) : ∀ check ∈ k.scheduler.cpuChecks cpu, check.1 = false := by
  have flags := h.cpu cpu
  have retired := h.dispatch.retired_ok cpu
  have current := h.dispatch.current_iff cpu
  have notified := flags.notified
  simp only [cpuChecks, List.forall_mem_cons, List.not_mem_nil, false_implies,
    implies_true, and_true]
  refine ⟨?_, ?_, ?_, ?_, ?_⟩
  · exact decide_eq_false (Nat.not_lt.mpr (k.scheduler.cpus cpu).readyQueue.fits)
  · exact decide_eq_false (Nat.not_lt.mpr (k.scheduler.remoteReady cpu).fits)
  · cases items : (k.scheduler.remoteReady cpu).items with
    | nil => simp
    | cons first rest =>
      have := notified (Or.inl (by simp [remote, items]))
      simp [this]
  · have := flags.online
    simp only [Kernel.cpu] at this
    cases online : (k.scheduler.cpus cpu).online with
    | false => rfl
    | true => simp [this online]
  · split
    · rfl
    · next id present =>
      have exited := retired id present
      simp only [view, Option.map_eq_some_iff] at exited
      obtain ⟨t, found, fields⟩ := exited
      have away := (current id).not.mpr (by simp [view, found, (Prod.mk.inj fields).2])
      simp only [find] at found
      obtain ⟨home, state⟩ := Prod.mk.inj fields
      simp only [found, home, state]
      simpa [Kernel.view, Kernel.cpu] using away

variable {id : ThreadId} {index : Nat} {cpu : CpuId}

/-- A live thread is queued once when it is ready and not idle, else never. -/
theorem queuedCount_eq {t : Thread} (found : k.find id = some t) :
    k.scheduler.queuedCount t.homeCpu id =
      if t.state = .ready ∧ (k.cpu t.homeCpu).idle ≠ some id then 1 else 0 := by
  have member := h.dispatch.queued_iff t.homeCpu id
  have apart := h.dispatch.disjoint t.homeCpu id
  have one := (h.dispatch.queue_nodup t.homeCpu).count (a := id)
  have two := (h.dispatch.ingress_nodup t.homeCpu).count (a := id)
  simp only [view, found, Option.map_some, Option.some.injEq, Prod.mk.injEq, true_and]
    at member apart one two
  simp only [queuedCount]
  change (k.ready t.homeCpu).count id + (k.remote t.homeCpu).count id = _
  rw [one, two]
  grind

theorem threadChecks_pass {slot : ThreadSlot} {t : Thread} (present : k.slots[index]? = some slot)
    (occupant : slot.thread = some t) :
    ∀ check ∈ k.scheduler.threadChecks ⟨index, slot.generation⟩ slot t, check.1 = false := by
  have found : k.find ⟨index, slot.generation⟩ = some t :=
    find_eq_some.mpr ⟨slot, present, rfl, occupant⟩
  have stackless : slot.stack = none := by
    by_contra owned
    have := (h.table.stack index slot present).mpr owned
    rw [occupant] at this
    cases this
  obtain ⟨blocked, prepared, completed, exited, _, _, owner, _⟩ := h.thread _ t found
  have current := h.dispatch.current_iff t.homeCpu ⟨index, slot.generation⟩
  simp only [view, found, Option.map_some, Option.some.injEq, Prod.mk.injEq, true_and]
    at current
  simp only [threadChecks, List.forall_mem_cons, List.not_mem_nil, false_implies,
    implies_true, and_true, queuedCount_eq h found, stackless]
  simp only [Kernel.cpu] at current ⊢
  refine ⟨?_, rfl, ?_, ?_, ?_, ?_, ?_, ?_, ?_, ?_, ?_⟩
  · exact decide_eq_false (Nat.not_lt.mpr ite_le_one)
  · split
    · rfl
    · next user owned => simp [owner user owned]
  · cases state : t.state <;> simp
  · cases state : t.state <;> simp
  · cases state : t.state <;> simp_all
  · cases state : t.state <;> simp_all
  · cases state : t.state <;> simp_all [WaitMetadata.isNone]
  · cases phase : t.wait.isPrepared <;> simp_all
  · cases phase : t.wait.isCompleted
    · simp
    · rcases completed phase with state | state <;> simp [state]
  · cases phase : t.wait.isBlocked <;> simp_all

/-- Every queued identity is live, ready and homed where it is queued. -/
theorem find_of_queued (queued : id ∈ k.ready cpu ∨ id ∈ k.remote cpu) :
    ∃ t, k.find id = some t ∧ t.homeCpu = cpu ∧ t.state = .ready ∧ (k.cpu cpu).idle ≠ some id := by
  obtain ⟨ready, worker⟩ := (h.dispatch.queued_iff cpu id).mp queued
  simp only [view, Option.map_eq_some_iff] at ready worker
  obtain ⟨t, found, fields⟩ := ready
  exact ⟨t, found, (Prod.mk.inj fields).1, (Prod.mk.inj fields).2, worker⟩

theorem slotChecks_pass {slot : ThreadSlot} (present : k.slots[index]? = some slot) :
    ∀ check ∈ k.scheduler.slotChecks index slot, check.1 = false := by
  unfold slotChecks
  split
  · next free =>
    simp only [List.forall_mem_cons, List.not_mem_nil, false_implies, implies_true, and_true]
    refine ⟨?_, ?_⟩
    · rw [Option.isNone_eq_false_iff, Option.isSome_iff_ne_none]
      exact (h.table.stack index slot present).mp free
    · have unqueued : ∀ cpu id, id ∈ k.ready cpu ∨ id ∈ k.remote cpu → id.index ≠ index := by
        rintro cpu id queued rfl
        obtain ⟨t, found, _⟩ := h.find_of_queued queued
        obtain ⟨slot', present', _, occupant⟩ := find_eq_some.mp found
        obtain rfl := Option.mem_unique present present'
        simp [free] at occupant
      simp only [slotQueued, List.any_eq_false, Bool.or_eq_true, List.any_eq_true,
        decide_eq_true_eq, not_or, not_exists, not_and]
      intro cpu _
      exact ⟨fun id member => unqueued cpu id (Or.inl member),
        fun id member => unqueued cpu id (Or.inr member)⟩
  · next t occupant => exact h.threadChecks_pass present occupant

theorem queueChecks_pass (cpu : CpuId) :
    ∀ check ∈ k.scheduler.queueChecks cpu, check.1 = false := by
  simp only [queueChecks, List.forall_mem_map]
  intro id member
  obtain ⟨t, found, home, state, worker⟩ := h.find_of_queued (Or.inl member)
  simp only [find] at found
  simp only [Kernel.cpu] at worker
  simp [found, home, state, worker]

/-- The current thread of a processor is live, running and homed there. -/
theorem find_current (current : (k.cpu cpu).current = some id) :
    ∃ t, k.find id = some t ∧ t.homeCpu = cpu ∧ t.state = .running := by
  have running := (h.dispatch.current_iff cpu id).mp current
  simp only [view, Option.map_eq_some_iff] at running
  obtain ⟨t, found, fields⟩ := running
  exact ⟨t, found, (Prod.mk.inj fields).1, (Prod.mk.inj fields).2⟩

/-- The idle thread of a processor is live, homed there, and ready or running. -/
theorem find_idle (idle : (k.cpu cpu).idle = some id) :
    ∃ t, k.find id = some t ∧ t.homeCpu = cpu ∧ (t.state = .ready ∨ t.state = .running) := by
  have status := h.dispatch.idle_ok cpu id idle
  simp only [view, Option.map_eq_some_iff] at status
  rcases status with ⟨t, found, fields⟩ | ⟨t, found, fields⟩
  · exact ⟨t, found, (Prod.mk.inj fields).1, Or.inl (Prod.mk.inj fields).2⟩
  · exact ⟨t, found, (Prod.mk.inj fields).1, Or.inr (Prod.mk.inj fields).2⟩

theorem contextChecks_pass (cpu : CpuId) :
    ∀ check ∈ k.scheduler.contextChecks cpu, check.1 = false := by
  have flags := h.cpu cpu
  simp only [Scheduler.contextChecks, List.forall_mem_cons]
  refine ⟨?_, ?_⟩
  · have := flags.online
    simp only [Kernel.cpu] at this
    cases online : (k.scheduler.cpus cpu).online with
    | false => rfl
    | true => simp [this online]
  · split
    · simp
    · next active =>
      have someCurrent := flags.initialized.mp (by simpa [Kernel.cpu] using active)
      obtain ⟨current, running⟩ := Option.ne_none_iff_exists'.mp someCurrent
      obtain ⟨idle, waiting⟩ :=
        Option.ne_none_iff_exists'.mp (h.dispatch.started cpu current running)
      obtain ⟨t, found, home, state⟩ := h.find_current running
      obtain ⟨u, found', home', _⟩ := h.find_idle waiting
      have atCurrent := Kernel.threadAt_of_find found
      have atIdle := Kernel.threadAt_of_find found'
      simp only [Kernel.view, Kernel.cpu, Kernel.threadAt] at running waiting atCurrent atIdle
      simp [running, waiting, Scheduler.threadAt, atCurrent, atIdle, home, home', state]

end

/-- The slots that hold a running thread. -/
def runningSlots (k : Kernel) : List Nat :=
  ((List.finRange k.slots.length).filter fun i =>
    (k.slots.get i).thread.any fun t => t.state = .running).map Fin.val

/-- The slots of the current threads. -/
def currentSlots (k : Kernel) : List Nat :=
  ((List.finRange kernelCpuCapacity).filter fun cpu => (k.cpu cpu).initialized).map fun cpu =>
    ((k.cpu cpu).current.map ThreadId.index).getD 0

theorem runningSlots_length : (runningSlots k).length = k.scheduler.runningCount := by
  rw [runningSlots, List.length_map, ← List.countP_eq_length_filter, runningCount]
  conv_rhs => rw [← List.map_get_finRange k.scheduler.lifecycle.slots, List.countP_map]
  rfl

theorem currentSlots_length : (currentSlots k).length = k.scheduler.initializedCount := by
  rw [currentSlots, List.length_map, ← List.countP_eq_length_filter]
  rfl

theorem mem_runningSlots : index ∈ runningSlots k ↔
    ∃ id t, k.find id = some t ∧ t.state = .running ∧ id.index = index := by
  simp only [runningSlots, List.mem_map, List.mem_filter, List.mem_finRange, true_and]
  constructor
  · rintro ⟨i, running, rfl⟩
    cases occupant : (k.slots.get i).thread with
    | none =>
      rw [occupant] at running
      cases running
    | some t =>
      rw [occupant, Option.any_some, decide_eq_true_eq] at running
      refine ⟨⟨i, (k.slots.get i).generation⟩, t, ?_, running, rfl⟩
      exact find_eq_some.mpr ⟨_, List.getElem?_eq_getElem i.isLt, rfl, occupant⟩
  · rintro ⟨id, t, found, state, rfl⟩
    obtain ⟨slot, present, _, occupant⟩ := find_eq_some.mp found
    obtain ⟨bound, rfl⟩ := List.getElem?_eq_some_iff.mp present
    refine ⟨⟨id.index, bound⟩, ?_, rfl⟩
    change Option.any _ (k.scheduler.lifecycle.slots[id.index]).thread = true
    rw [occupant, Option.any_some, decide_eq_true state]

theorem mem_currentSlots (h : Coherent k) : index ∈ currentSlots k ↔
    ∃ cpu id, (k.cpu cpu).current = some id ∧ id.index = index := by
  simp only [currentSlots, List.mem_map, List.mem_filter, List.mem_finRange, true_and]
  constructor
  · rintro ⟨cpu, active, rfl⟩
    obtain ⟨id, current⟩ := Option.ne_none_iff_exists'.mp ((h.cpu cpu).initialized.mp active)
    exact ⟨cpu, id, current, by simp [current]⟩
  · rintro ⟨cpu, id, current, rfl⟩
    refine ⟨cpu, (h.cpu cpu).initialized.mpr ?_, by simp [current]⟩
    simp [current]

theorem runningSlots_nodup : (runningSlots k).Nodup :=
  ((List.nodup_finRange _).filter _).map Fin.val_injective

theorem currentSlots_nodup (h : Coherent k) : (currentSlots k).Nodup := by
  refine List.Nodup.map_on ?_ ((List.nodup_finRange _).filter _)
  intro c hc d hd same
  obtain ⟨i, current⟩ := Option.ne_none_iff_exists'.mp
    ((h.cpu c).initialized.mp (List.mem_filter.mp hc).2)
  obtain ⟨j, current'⟩ := Option.ne_none_iff_exists'.mp
    ((h.cpu d).initialized.mp (List.mem_filter.mp hd).2)
  obtain ⟨t, found, home, _⟩ := h.find_current current
  obtain ⟨u, found', home', _⟩ := h.find_current current'
  simp only [current, current', Option.map_some, Option.getD_some] at same
  obtain rfl := find_unique found found' same
  obtain rfl := Option.mem_unique found found'
  exact home.symm.trans home'

theorem runningCount_eq (h : Coherent k) :
    k.scheduler.runningCount = k.scheduler.initializedCount := by
  rw [← runningSlots_length, ← currentSlots_length]
  refine List.Perm.length_eq ((List.perm_ext_iff_of_nodup runningSlots_nodup
    h.currentSlots_nodup).mpr fun index => ?_)
  rw [mem_runningSlots, h.mem_currentSlots]
  constructor
  · rintro ⟨id, t, found, state, rfl⟩
    refine ⟨t.homeCpu, id, (h.dispatch.current_iff t.homeCpu id).mpr ?_, rfl⟩
    simp [view, found, state]
  · rintro ⟨cpu, id, current, rfl⟩
    obtain ⟨t, found, _, state⟩ := h.find_current current
    exact ⟨id, t, found, state, rfl⟩

/-- A state that satisfies the invariant passes the whole self-check. -/
theorem validate (h : Coherent k) : k.scheduler.validateInvariants = .ok () := by
  refine firstViolation_ok ?_
  simp only [List.forall_mem_append, List.forall_mem_cons, List.not_mem_nil, false_implies,
    implies_true, and_true, List.mem_flatMap, List.mem_finRange, true_and, List.mem_flatten,
    List.mem_mapIdx]
  refine ⟨⟨⟨⟨?_, ?_⟩, ?_⟩, ?_⟩, ?_⟩
  · rintro check ⟨cpu, member⟩
    exact h.cpuChecks_pass cpu check member
  · rintro check ⟨_, ⟨index, bound, rfl⟩, member⟩
    exact h.slotChecks_pass (List.getElem?_eq_getElem bound) check member
  · rintro check ⟨cpu, member⟩
    exact h.queueChecks_pass cpu check member
  · rintro check ⟨cpu, member⟩
    exact h.contextChecks_pass cpu check member
  · exact decide_eq_false (not_not.mpr h.runningCount_eq)

/-- The self-check of a debug build does nothing. -/
theorem wp_validateAfterTransition (h : Coherent k) {E : Panic → Prop}
    {Q : Unit → Kernel → Prop} : WP E validateAfterTransition Q k ↔ Q () k := by
  simp only [WP, validateAfterTransition, h.validate]
  split
  · next run => split at run <;> simp_all
  · next run => split at run <;> simp_all

end Coherent

end Genrt
