import Genrt.Sched.Calls

/-!
# Specifications of boot

Boot appends one slot after the other and publishes each at once, fills the
table with free slots and selects the first thread. A secondary processor takes
a free slot for its idle thread. Nothing here touches a clock or a wait.
-/

namespace Genrt

open Effect Kernel

variable {k k' : Kernel} {c : CpuId}

/-! ### Growing the table -/

namespace Kernel

/-- The table with `count` more free slots. -/
def grown (k : Kernel) (count : Nat) : Kernel :=
  (k.setSlots (k.slots ++ (List.range' k.slots.length count).map ThreadSlot.free)).setFreeSlots
    ((List.range' k.slots.length count).reverse ++ k.freeSlots)

variable {count i : Nat}

theorem slots_grown : (k.grown count).slots =
    k.slots ++ (List.range' k.slots.length count).map ThreadSlot.free := rfl

theorem freeSlots_grown : (k.grown count).freeSlots =
    (List.range' k.slots.length count).reverse ++ k.freeSlots := rfl

theorem slots_length_grown : (k.grown count).slots.length = k.slots.length + count := by
  rw [slots_grown, List.length_append, List.length_map, List.length_range']

/-- An added slot is free. -/
theorem free_of_added {slot : ThreadSlot} (present : (k.grown count).slots[i]? = some slot)
    (added : k.slots.length ≤ i) : slot = .free i ∧ i < k.slots.length + count := by
  rw [slots_grown, List.getElem?_append_right added, List.getElem?_map,
    Option.map_eq_some_iff] at present
  obtain ⟨j, at', rfl⟩ := present
  obtain ⟨bound, value⟩ := List.getElem?_eq_some_iff.mp at'
  rw [List.getElem_range'] at value
  rw [List.length_range'] at bound
  constructor
  · congr 1
    omega
  · omega

theorem slots_grown_old (old : i < k.slots.length) : (k.grown count).slots[i]? = k.slots[i]? := by
  rw [slots_grown, List.getElem?_append_left old]

theorem slots_grown_new (added : k.slots.length ≤ i) (bound : i < k.slots.length + count) :
    (k.grown count).slots[i]? = some (.free i) := by
  have inside : i < (k.grown count).slots.length := by rw [slots_length_grown]; exact bound
  obtain ⟨same, _⟩ := free_of_added (List.getElem?_eq_getElem inside) added
  rw [List.getElem?_eq_getElem inside, same]

theorem find_grown : (k.grown count).find = k.find := by
  funext id
  have slots : (k.grown count).scheduler.lifecycle.slots = (k.grown count).slots := rfl
  rw [find, find, ThreadTable.get, ThreadTable.get, slots]
  by_cases old : id.index < k.slots.length
  · rw [slots_grown_old old]
    rfl
  · have beyond : k.scheduler.lifecycle.slots[id.index]? = none :=
      List.getElem?_eq_none (Nat.not_lt.mp old)
    rw [beyond]
    cases present : (k.grown count).slots[id.index]? with
    | none => rfl
    | some slot =>
      obtain ⟨rfl, _⟩ := free_of_added present (Nat.not_lt.mp old)
      exact ite_self none

end Kernel

variable {count index : Nat} {Q : Unit → Kernel → Prop} {scheduler : Scheduler}
variable {config : BootConfig}

theorem TableOk.grow (h : TableOk k) (bound : k.slots.length + count ≤ kernelThreadCapacity) :
    TableOk (k.grown count) := by
  have old : ∀ i ∈ k.freeSlots, i < k.slots.length := by
    intro i member
    obtain ⟨slot, present, _⟩ := (h.freeIff i).mp member
    exact (List.getElem?_eq_some_iff.mp present).1
  refine ⟨?_, ?_, ?_, by rw [slots_length_grown]; exact bound⟩
  · intro i slot present
    by_cases inside : i < k.slots.length
    · rw [slots_grown_old inside] at present
      exact h.stack i slot present
    · obtain ⟨rfl, _⟩ := free_of_added present (Nat.not_lt.mp inside)
      simp [ThreadSlot.free]
  · rw [freeSlots_grown]
    refine List.Nodup.append (List.nodup_reverse.mpr (List.nodup_range' ..)) h.freeNodup ?_
    intro i added member
    have := old i member
    rw [List.mem_reverse, List.mem_range'_1] at added
    omega
  · intro i
    rw [freeSlots_grown, List.mem_append, List.mem_reverse, List.mem_range'_1]
    by_cases inside : i < k.slots.length
    · rw [slots_grown_old inside, ← h.freeIff i]
      constructor
      · rintro (added | member)
        · omega
        · exact member
      · exact Or.inr
    · constructor
      · rintro (added | member)
        · exact ⟨_, slots_grown_new added.1 added.2, rfl⟩
        · exact absurd (old i member) inside
      · rintro ⟨slot, present, _⟩
        have := (free_of_added present (Nat.not_lt.mp inside)).2
        exact Or.inl ⟨Nat.not_lt.mp inside, this⟩

/-- Every queue is reserved for at least `count` threads. -/
def Kernel.Reserved (k : Kernel) (count : Nat) : Prop :=
  ∀ c, count ≤ (k.cpu c).readyQueue.capacity + 1 ∧ count ≤ (k.scheduler.remoteReady c).capacity + 1

theorem Coherent.grow (h : Coherent k) (bound : k.slots.length + count ≤ kernelThreadCapacity)
    (reserved : k.Reserved (k.slots.length + count)) : Coherent (k.grown count) := by
  have finds : (k.grown count).find = k.find := find_grown
  have view : (k.grown count).view = k.view := by
    rw [view, finds]
    rfl
  have joiners : (k.grown count).joinerOf = k.joinerOf := by
    funext id
    rw [joinerOf, finds, joinerOf]
  refine ⟨⟨view ▸ h.dispatch, ?_, ?_, ⟨?_, ?_, ?_⟩, h.table.grow bound⟩, fun d => ?_⟩
  · rw [finds]
    exact h.thread
  · rw [finds]
    exact h.housed
  · rw [finds, joiners]
    exact h.join.joining
  · rw [joiners]
    exact h.join.unique
  · rw [finds]
    exact h.join.retired
  · obtain ⟨initialized, online, notified, _, _⟩ := h.cpu d
    refine ⟨initialized, online, notified, ?_, ?_⟩ <;> rw [slots_length_grown]
    · exact (reserved d).1
    · exact (reserved d).2

theorem Quiet.grown {touched : WaitToken → Prop} : Quiet c touched k (k.grown count) := by
  refine .of_scheduler (fun _ _ => rfl) rfl rfl rfl (fun _ same => same) ?_ ?_
  · funext token
    rw [registration, find_grown, registration]
  · intro id token owned
    rwa [joinerOf, find_grown] at owned

/-! ### Bootstrap publications -/

/-- What a bootstrap publication on processor `c` leaves behind. -/
structure Booting (c : CpuId) (k k' : Kernel) : Prop where
  coherent : Coherent k'
  quiet : Calm c k k'
  clocks : k'.clocks = k.clocks
  current : (k'.cpu c).current = (k.cpu c).current
  capacity : ∀ d, (k'.cpu d).readyQueue.capacity = (k.cpu d).readyQueue.capacity ∧
    k'.scheduler.remoteReady d = k.scheduler.remoteReady d
  slots : k'.slots.length = k.slots.length

section

variable (storage : Coherent (k.withFree index))

include storage

theorem wp_transitionPublishBootstrap {idle : Bool}
    (post : ∀ t, Newcomer k c index initialThreadGeneration t →
      WP Contract (publishVisible c c ⟨index, initialThreadGeneration⟩ true idle)
        (fun _ k' => Coherent k' ∧ Q () k') ((k.occupied index initialThreadGeneration t).log
          (.published ⟨index, initialThreadGeneration⟩))) :
    WP Contract (transitionPublishBootstrap c index idle) Q k := by
  obtain ⟨slot, present, free⟩ :=
    (storage.table.freeIff index).mp (List.mem_cons_self (l := k.freeSlots))
  have present' : k.scheduler.lifecycle.slots[index]? = some slot := present
  have stacked := (storage.table.stack index slot present).mp free
  rw [transitionPublishBootstrap, wp_bind, wp_get, wp_bind, wp_orStop_some present', wp_bind,
    wp_stopIf]
  refine ⟨fun none => absurd (Option.isNone_iff_eq_none.mp none) stacked, fun _ => ?_⟩
  exact wp_publish storage (fun _ => rfl) (fun _ => rfl) post

theorem wp_publishBootstrap_idle (vacant : (k.cpu c).idle = none)
    (post : ∀ k', Booting c k k' → (k'.cpu c).idle ≠ none → Q () k') :
    WP Contract (transitionPublishBootstrap c index true) Q k := by
  refine wp_transitionPublishBootstrap storage fun t new => ?_
  have coherent :
      Coherent ((k.occupied index _ t).setCpu c { k.cpu c with idle := some ⟨index, _⟩ }) :=
    new.storage.publish_idle new.occupies new.home vacant rfl
  rw [publishVisible, if_pos rfl, wp_bind, wp_cpuState]
  refine .bind (wp_stopIf.mpr ⟨fun filled => ?_, fun _ => ⟨coherent.log _, post _ ?_ ?_⟩⟩)
  · have filled : (k.cpu c).idle.isSome = true := filled
    simp [vacant] at filled
  · refine ⟨coherent.log _, (new.quiet.trans .log).trans (.setCpu (by rfl)), rfl, ?_, fun d => ?_,
      slots_length_modifySlot⟩
    · rw [cpu_setCpu_self]
      rfl
    · rw [cpu_setCpu]
      refine ⟨?_, rfl⟩
      split
      · next same =>
        rw [same]
        rfl
      · rfl
  · rw [cpu_setCpu_self]
    exact Option.some_ne_none _

theorem wp_publishBootstrap_worker (housed : (k.cpu c).idle ≠ none)
    (post : ∀ k', Booting c k k' → (k'.cpu c).idle ≠ none → Q () k') :
    WP Contract (transitionPublishBootstrap c index false) Q k := by
  refine wp_transitionPublishBootstrap storage fun t new => ?_
  refine wp_publishVisible_local new housed fun queue items capacity coherent => ?_
  refine wp_onlyIf.mpr ⟨fun announced => absurd announced.1 (by decide), fun _ => ?_⟩
  refine ⟨coherent.log _, post _ ?_ ?_⟩
  · refine ⟨coherent.log _, (new.quiet.trans (.setCpu (by rfl))).trans .log, rfl, ?_, fun d => ?_,
      slots_length_modifySlot⟩
    · rw [cpu_log, cpu_setCpu_self]
    · rw [cpu_log, cpu_setCpu]
      refine ⟨?_, rfl⟩
      split
      · next same => rw [same, capacity]
      · rfl
  · rw [cpu_log, cpu_setCpu_self]
    exact housed

end

/-! ### The boot processor -/

/-- The kernel after `count` slots were created and published from `start`. -/
structure BootStage (start : Kernel) (capacity count : Nat) (k : Kernel) : Prop where
  coherent : Coherent k
  quiet : Calm 0 start k
  clocks : k.clocks = start.clocks
  vacant : (k.cpu 0).current = none
  reserved : k.Reserved capacity
  slots : k.slots.length = count

theorem BootStage.append {start : Kernel} {capacity : Nat} (h : BootStage start capacity count k)
    (small : capacity ≤ kernelThreadCapacity) (room : count < capacity) (idle : Bool)
    (kind : if idle then (k.cpu 0).idle = none else (k.cpu 0).idle ≠ none) :
    WP Contract (transitionAppendBootstrap 0 idle)
      (fun _ k' => BootStage start capacity (count + 1) k' ∧ (k'.cpu 0).idle ≠ none) k := by
  have storage : Coherent (k.grown 1) := by
    refine h.coherent.grow (by rw [h.slots]; omega) fun d => ?_
    have := h.reserved d
    rw [h.slots]
    omega
  have shape : (k.setSlots (k.slots ++ [.free k.slots.length])).withFree k.slots.length =
      k.grown 1 :=
    rfl
  have quiet : Calm 0 start (k.setSlots (k.slots ++ [.free k.slots.length])) := by
    have grown : Calm 0 k (k.grown 1) := .grown
    rw [← shape] at grown
    exact h.quiet.trans (grown.trans .withFree)
  have done : ∀ k', Booting 0 (k.setSlots (k.slots ++ [.free k.slots.length])) k' →
      (k'.cpu 0).idle ≠ none →
      BootStage start capacity (count + 1) k' ∧ (k'.cpu 0).idle ≠ none := by
    intro k' booted housed
    refine ⟨⟨booted.coherent, quiet.trans booted.quiet, booted.clocks.trans h.clocks,
      booted.current.trans h.vacant, fun d => ?_, ?_⟩, housed⟩
    · rw [(booted.capacity d).1, (booted.capacity d).2]
      exact h.reserved d
    · rw [booted.slots, ← h.slots]
      exact List.length_append
  rw [transitionAppendBootstrap, wp_bind, wp_get, wp_bind, wp_set]
  cases idle with
  | true =>
    refine wp_publishBootstrap_idle ?_ ?_ done
    · exact storage
    · exact kind
  | false =>
    refine wp_publishBootstrap_worker ?_ ?_ done
    · exact storage
    · exact kind

/-- The scheduler that boot starts from. -/
theorem transitionNew_ok {capacity quantum : Nat}
    (made : transitionNew capacity quantum = .ok scheduler) :
    capacity ≤ kernelThreadCapacity ∧ scheduler =
      { lifecycle := ⟨[], []⟩
        cpus := fun _ => .new capacity
        remoteReady := fun _ => .empty (capacity - 1)
        schedulerIpiPending := fun _ => false
        rrQuantumMs := max quantum 1 } := by
  rw [transitionNew] at made
  split at made
  · cases made
  · next small => exact ⟨Nat.not_lt.mp small, (Except.ok.inj made).symm⟩

section

variable (made : transitionNew config.threadCapacity config.rrQuantumMs = .ok scheduler)

include made

theorem Kernel.find_preBoot : (preBoot config scheduler).find = fun _ => none := by
  obtain ⟨_, rfl⟩ := transitionNew_ok made
  rfl

/-- An empty table is in order. -/
theorem Coherent.preBoot : Coherent (.preBoot config scheduler) := by
  have finds := Kernel.find_preBoot made
  have joiners : (Kernel.preBoot config scheduler).joinerOf = fun _ => none := by
    funext id
    rw [Kernel.joinerOf, finds]
    rfl
  have view : (Kernel.preBoot config scheduler).view =
      ⟨fun _ => none, fun _ => none, fun _ => none, fun _ => none, fun _ => [], fun _ => []⟩ := by
    rw [Kernel.view, finds]
    obtain ⟨_, rfl⟩ := transitionNew_ok made
    rfl
  refine ⟨⟨?_, ?_, ?_, ⟨?_, ?_, ?_⟩, ?_⟩, fun d => ?_⟩
  · rw [view]
    constructor <;> simp
  · simp [finds]
  · simp [finds]
  · simp [joiners]
  · simp [joiners]
  · simp [finds]
  · obtain ⟨_, rfl⟩ := transitionNew_ok made
    constructor <;> simp [Kernel.preBoot, Kernel.slots, Kernel.freeSlots]
  · obtain ⟨_, rfl⟩ := transitionNew_ok made
    constructor <;> simp [Kernel.preBoot, Kernel.slots, Kernel.cpu, Kernel.remote,
      CpuSchedulerState.new, BoundedQueue.empty]

theorem BootStage.preBoot :
    BootStage (.preBoot config scheduler) config.threadCapacity 0 (.preBoot config scheduler) := by
  have coherent := Coherent.preBoot made
  obtain ⟨_, rfl⟩ := transitionNew_ok made
  refine ⟨coherent, .refl _, rfl, rfl, fun d => ?_, rfl⟩
  simp only [preBoot, cpu, CpuSchedulerState.new, BoundedQueue.empty_capacity]
  omega

/-- Boot returns with a first thread selected, and stops only where the
configuration asks for too many threads. -/
theorem wp_bootstrapThreads (fits : config.staticThreads + config.cpuCount ≤ config.threadCapacity)
    (accepted : config.Accepted) : WP Contract (bootstrapThreads config)
      (fun _ k => Coherent k ∧ Calm 0 (.preBoot config scheduler) k ∧
        k.clocks = (preBoot config scheduler).clocks) (.preBoot config scheduler) := by
  have small := (transitionNew_ok made).1
  have one := accepted.someCpu
  have stage := BootStage.preBoot made
  have vacant : ((preBoot config scheduler).cpu 0).idle = none := by
    obtain ⟨_, rfl⟩ := transitionNew_ok made
    rfl
  rw [bootstrapThreads, wp_bind]
  refine (stage.append small (by omega) true vacant).mono fun _ k₁ first => ?_
  have workers : WP Contract (forEach (List.replicate config.staticThreads ())
      fun _ => transitionAppendBootstrap 0 false)
      (fun _ k => BootStage (.preBoot config scheduler) config.threadCapacity
        (config.staticThreads + 1) k ∧ (k.cpu 0).idle ≠ none) k₁ := by
    refine wp_forEach (fun rest k => ∃ count, count + rest.length = config.staticThreads + 1 ∧
      BootStage (.preBoot config scheduler) config.threadCapacity count k ∧
        (k.cpu 0).idle ≠ none) ?_ _ _ ?_ |>.mono ?_
    · rintro _ rest k ⟨count, total, stage, housed⟩
      rw [List.length_cons] at total
      refine (stage.append small (by omega) false housed).mono fun _ k' after => ?_
      exact ⟨count + 1, by omega, after⟩
    · exact ⟨1, by rw [List.length_replicate]; omega, first⟩
    · rintro _ k ⟨count, total, after⟩
      rw [List.length_nil, Nat.add_zero] at total
      exact total ▸ after
  rw [wp_bind]
  refine workers.mono fun _ k₂ after => ?_
  obtain ⟨stage, housed⟩ := after
  have slots := stage.slots
  have total : k₂.slots.length + (config.threadCapacity - k₂.slots.length) =
      config.threadCapacity := by
    omega
  have grown : Coherent (k₂.grown (config.threadCapacity - k₂.slots.length)) :=
    stage.coherent.grow (by rwa [total]) (by rw [total]; exact stage.reserved)
  have quiet : Calm 0 (.preBoot config scheduler)
      (k₂.grown (config.threadCapacity - k₂.slots.length)) := stage.quiet.trans .grown
  rw [wp_bind, transitionFillFreeSlots, wp_modify]
  refine wp_transitionInitialDispatch grown stage.vacant housed
    fun next u rest selected coherent => ?_
  exact ⟨coherent, quiet.trans (.dispatched selected.found rfl), stage.clocks⟩

end

/-- What a successful boot ran. -/
theorem bootstrap_ok (boot : bootstrap config = .ok (.ok k)) :
    config.staticThreads + config.cpuCount ≤ config.threadCapacity ∧
      ∃ scheduler, transitionNew config.threadCapacity config.rrQuantumMs = .ok scheduler ∧
        bootstrapThreads config (.preBoot config scheduler) = .ok (.ok (), k) := by
  rw [bootstrap] at boot
  split at boot
  · cases boot
  · next fits =>
    refine ⟨Nat.not_lt.mp fits, ?_⟩
    split at boot
    · cases boot
    · next scheduler made =>
      refine ⟨scheduler, made, ?_⟩
      split at boot
      · cases boot
      · cases boot
      · next run =>
        cases boot
        exact run

/-! ### Secondary processors -/

theorem wp_transitionInitializeIdleCurrent (h : Steady c k) :
    Settles c k (transitionInitializeIdleCurrent c) := by
  rw [Settles, transitionInitializeIdleCurrent, wp_bind, wp_cpuState, wp_ite]
  refine ⟨fun _ => .refl h, fun fresh => ?_⟩
  simp only [not_or, Bool.not_eq_true, Option.isSome_eq_false_iff,
    Option.isNone_iff_eq_none] at fresh
  obtain ⟨cold, vacant, unhoused⟩ := fresh
  have offline : (k.cpu c).online ≠ true := by
    intro online
    have := (h.cpu c).online online
    rw [cold] at this
    cases this
  rw [wp_bind]
  refine wp_takeFreeSlot (c := c) (fun _ => .refl h) fun index m back same quiet => ?_
  rw [wp_bind]
  refine wp_publishBootstrap_idle (back.symm ▸ h.toCoherent) (same ▸ unhoused) ?_
  intro k₁ booted housed
  have idle : (k₁.cpu c).current = none := by rw [booted.current, same, vacant]
  refine wp_transitionInitialDispatch booted.coherent idle housed ?_
  intro next u rest selected coherent
  have total : Calm c k (k₁.dispatched c next
      { k₁.cpu c with readyQueue := rest, initialized := true }) :=
    (quiet.trans booted.quiet).trans (.dispatched selected.found rfl)
  have clocks : k₁.clocks = k.clocks := by
    rw [← back]
    exact booted.clocks
  -- an offline processor has no quantum, whatever it selects
  refine ⟨⟨coherent, h.time.keep total.toWithin clocks, fun id => ?_⟩, total⟩
  change .quantumExpired c id ∈ k₁.events c ↔ _
  rw [events_congr clocks, h.exact id, total.online]
  exact ⟨fun online => absurd online.1 offline, fun online => absurd online.1 offline⟩

theorem wp_initializeCurrentCpu (h : Steady c k) : Settles c k (initializeCurrentCpu c) := by
  rw [Settles, initializeCurrentCpu, wp_bind, wp_isRegistered, wp_ite]
  refine ⟨fun _ => .refl h, fun _ => ?_⟩
  rw [wp_bind, wp_get]
  refine .stopIf (fun _ => rfl) fun _ => ?_
  rw [wp_bind]
  refine (wp_transitionInitializeIdleCurrent h).mono fun result k' settled => ?_
  cases result with
  | ok => exact settled
  | error => exact settled

end Genrt
