import Genrt.Sched.Coherence

/-!
# Occupying and releasing table slots

A free slot taken from the free list is reserved: it belongs to nobody until a
thread is published in it. The invariant of such an intermediate state is the
invariant of the state in which the slot is still listed, `withFree`. Publishing
makes the thread an idle thread, a member of the local queue, or a member of
another processor's ingress; releasing an exited thread lists its slot again.
-/

namespace Genrt

open Function Kernel Dispatch

variable {id : ThreadId}

namespace Kernel

variable {k : Kernel} {index : Nat} {slot : ThreadSlot}

/-- The state in which a reserved slot is still on the free list. -/
def withFree (k : Kernel) (index : Nat) : Kernel := k.setFreeSlots (index :: k.freeSlots)

variable {f : ThreadSlot → ThreadSlot}

theorem find_modifySlot (present : k.slots[index]? = some slot) (id : ThreadId) :
    (k.modifySlot index f).find id =
      if id.index = index then
        if (f slot).generation = id.generation then (f slot).thread else none
      else k.find id := by
  simp only [find, ThreadTable.get, modifySlot, setSlots, List.getElem?_modify]
  by_cases same : id.index = index
  · subst same
    simp only [slots] at present
    simp [present]
  · simp only [Ne.symm same, if_false, same]
    cases k.scheduler.lifecycle.slots[id.index]? <;> simp

theorem slots_modifySlot (i : Nat) :
    (k.modifySlot index f).slots[i]? = k.slots[i]?.map fun slot =>
      if index = i then f slot else slot := by
  simp only [slots, modifySlot, setSlots, List.getElem?_modify]
  rfl

@[simp] theorem slots_length_modifySlot : (k.modifySlot index f).slots.length = k.slots.length := by
  simp [slots, modifySlot, setSlots]

/-- No identity finds a thread in a free slot. -/
theorem find_eq_none_of_free (present : k.slots[index]? = some slot) (free : slot.thread = none)
    (same : id.index = index) : k.find id = none := by
  cases found : k.find id with
  | none => rfl
  | some t =>
    obtain ⟨slot', present', _, occupant⟩ := find_eq_some.mp found
    subst same
    obtain rfl := Option.mem_unique present present'
    rw [free] at occupant
    cases occupant

/-- Occupying a free slot gives one identity a thread. -/
theorem find_occupy {t : Thread} {generation : Nat} (present : k.slots[index]? = some slot)
    (free : slot.thread = none) (occupant : (f slot).thread = some t)
    (named : (f slot).generation = generation) :
    (k.modifySlot index f).find = update k.find ⟨index, generation⟩ (some t) := by
  funext id
  rw [find_modifySlot present, named, occupant, update_apply]
  obtain ⟨i, g⟩ := id
  by_cases same : i = index
  · subst same
    have absent : k.find ⟨i, g⟩ = none := find_eq_none_of_free present free rfl
    rw [absent]
    by_cases current : generation = g
    · subst current
      simp
    · simp [current, Ne.symm current]
  · simp [same]

/-- Vacating a slot takes the thread from its identity. -/
theorem find_vacate {t : Thread} (found : k.find id = some t)
    (vacant : ∀ slot, (f slot).thread = none) :
    (k.modifySlot id.index f).find = update k.find id none := by
  obtain ⟨slot, present, generation, _⟩ := find_eq_some.mp found
  funext other
  rw [find_modifySlot present, vacant, update_apply]
  by_cases same : other = id
  · simp [same]
  · rw [if_neg same]
    split
    · next index =>
      rw [ite_self]
      cases live : k.find other with
      | none => rfl
      | some u => exact absurd (find_unique live found index) same
    · rfl

end Kernel

variable {f : ThreadSlot → ThreadSlot}

namespace TableOk

variable {k : Kernel}

/-- A reserved slot is occupied and gives up its stack. -/
theorem occupy {index : Nat} {slot : ThreadSlot} (h : TableOk (k.withFree index))
    (present : k.slots[index]? = some slot) (occupied : (f slot).thread ≠ none)
    (stackless : (f slot).stack = none) : TableOk (k.modifySlot index f) := by
  have stack := h.stack
  have listed := h.freeIff
  obtain ⟨unlisted, distinct⟩ := List.nodup_cons.mp h.freeNodup
  refine ⟨?_, distinct, ?_, ?_⟩
  · intro i slot' present'
    rw [slots_modifySlot, Option.map_eq_some_iff] at present'
    obtain ⟨old, before, rfl⟩ := present'
    split
    · next same =>
      subst same
      obtain rfl := Option.mem_unique present before
      simp [occupied, stackless]
    · exact stack i old before
  · intro i
    rw [slots_modifySlot]
    by_cases same : index = i
    · subst same
      rw [present, Option.map_some, if_pos rfl]
      refine iff_of_false unlisted ?_
      rintro ⟨slot', eq, free⟩
      exact occupied (Option.some.inj eq ▸ free)
    · have := listed i
      rw [withFree, freeSlots, setFreeSlots, List.mem_cons,
        or_iff_right (Ne.symm same)] at this
      refine this.trans ?_
      simp only [same, if_false, Option.map_id']
      rfl
  · rw [slots_length_modifySlot]
    exact h.bound

/-- An occupied slot gets its stack back and is listed as free. -/
theorem vacate {index : Nat} {slot : ThreadSlot} (h : TableOk k)
    (present : k.slots[index]? = some slot) (occupied : slot.thread ≠ none)
    (vacant : (f slot).thread = none) (owned : (f slot).stack ≠ none) :
    TableOk ((k.modifySlot index f).withFree index) := by
  have listed := h.freeIff
  have unlisted : index ∉ k.freeSlots := by
    intro member
    obtain ⟨slot', eq, free⟩ := (listed index).mp member
    obtain rfl := Option.mem_unique present eq
    exact occupied free
  refine ⟨?_, List.nodup_cons.mpr ⟨unlisted, h.freeNodup⟩, ?_, ?_⟩
  · intro i slot' present'
    change (k.modifySlot index f).slots[i]? = _ at present'
    rw [slots_modifySlot, Option.map_eq_some_iff] at present'
    obtain ⟨old, before, rfl⟩ := present'
    split
    · next same =>
      subst same
      obtain rfl := Option.mem_unique present before
      simp [vacant, owned]
    · exact h.stack i old before
  · intro i
    change i ∈ index :: k.freeSlots ↔ ∃ slot', (k.modifySlot index f).slots[i]? = some slot' ∧ _
    rw [slots_modifySlot, List.mem_cons]
    by_cases same : index = i
    · subst same
      simp [present, vacant]
    · simp only [Ne.symm same, same, false_or, if_false, Option.map_id']
      exact listed i
  · change (k.modifySlot index f).slots.length ≤ _
    rw [slots_length_modifySlot]
    exact h.bound

end TableOk

variable {k : Kernel} {id : ThreadId} {t : Thread}

/-- An exited thread that its processor has left gives up its slot. -/
theorem Coherent.release (h : Coherent k) (found : k.find id = some t) (exited : t.state = .exited)
    (left : (k.cpu t.homeCpu).retired ≠ some id) (vacant : ∀ slot, (f slot).thread = none)
    (owned : ∀ slot, (f slot).stack ≠ none) :
    Coherent ((k.modifySlot id.index f).withFree id.index) := by
  have finds : ((k.modifySlot id.index f).withFree id.index).find =
      update k.find id none := find_vacate found vacant
  obtain ⟨slot, present, _, occupant⟩ := find_eq_some.mp found
  obtain ⟨thread, housed, join⟩ := h.tenants.revise finds (fun _ idle => idle)
    (fun _ _ _ retired => retired) (by simp) (by simp [found, exited])
  refine ⟨⟨?_, thread, housed, join,
    h.table.vacate present (by simp [occupant]) (vacant slot) (owned slot)⟩, fun d =>
    (h.cpu d).keep rfl rfl (h.cpu d).notified slots_length_modifySlot⟩
  have view : ((k.modifySlot id.index f).withFree id.index).view = k.view.setThread id none := by
    simp only [view, State.setThread, State.mk.injEq]
    refine ⟨?_, rfl, rfl, rfl, rfl, rfl⟩
    funext other
    rw [finds, update_apply, update_apply]
    split <;> rfl
  rw [view]
  exact h.dispatch.release (c := t.homeCpu) (by simp [found, exited]) left

/-- A thread is written into a reserved slot under a new generation. -/
structure Occupies (k : Kernel) (index : Nat) (f : ThreadSlot → ThreadSlot) (generation : Nat)
    (t : Thread) : Prop where
  slot : ∃ slot, k.slots[index]? = some slot ∧ slot.thread = none ∧
    (f slot).thread = some t ∧ (f slot).generation = generation ∧ (f slot).stack = none
  ready : t.state = .ready
  joiner : t.joiner = none
  ok : ThreadOk ⟨index, generation⟩ t

namespace Occupies

variable {k : Kernel} {index generation : Nat} {t : Thread} {f : ThreadSlot → ThreadSlot}

section

variable (new : Occupies k index f generation t)

include new

theorem absent (same : id.index = index) : k.find id = none := by
  obtain ⟨slot, present, free, _⟩ := new.slot
  exact find_eq_none_of_free present free same

theorem finds : (k.modifySlot index f).find = update k.find ⟨index, generation⟩ (some t) := by
  obtain ⟨slot, present, free, occupant, named, _⟩ := new.slot
  exact find_occupy present free occupant named

theorem view : (k.modifySlot index f).view =
    k.view.setThread ⟨index, generation⟩ (some (t.homeCpu, .ready)) := by
  simp only [Kernel.view, Dispatch.State.setThread, Dispatch.State.mk.injEq]
  refine ⟨?_, rfl, rfl, rfl, rfl, rfl⟩
  funext other
  rw [new.finds, update_apply, update_apply]
  split
  · rw [Option.map_some, new.ready]
  · rfl

theorem table (h : TableOk (k.withFree index)) : TableOk (k.modifySlot index f) := by
  obtain ⟨slot, present, _, occupant, _, stackless⟩ := new.slot
  exact h.occupy present (by simp [occupant]) stackless

end

theorem flags (h : ∀ d, CpuOk (k.withFree index) d) (d : CpuId) : CpuOk (k.modifySlot index f) d :=
  (h d).keep rfl rfl (h d).notified slots_length_modifySlot

/-- A thread appears in a reserved slot. Where it becomes visible is a separate
obligation. -/
theorem core {k' : Kernel} (new : Occupies k index f generation t) (h : Core (k.withFree index))
    (finds : k'.find = (k.modifySlot index f).find)
    (idle : ∀ d, (k.cpu d).idle ≠ none → (k'.cpu d).idle ≠ none)
    (housed : (k'.cpu t.homeCpu).idle ≠ none)
    (retired : ∀ d, (k'.cpu d).retired = (k.cpu d).retired)
    (table : k'.scheduler.lifecycle = (k.modifySlot index f).scheduler.lifecycle)
    (dispatch : Consistent k'.view) : Core k' := by
  have absent : (k.withFree index).find ⟨index, generation⟩ = none := new.absent rfl
  obtain ⟨thread, housed, join⟩ := h.tenants.revise (finds.trans new.finds) idle
    (fun d _ _ same => (retired d).trans same)
    (by rintro _ ⟨⟩; exact ⟨new.ok, housed, Or.inl new.joiner⟩) (by simp [absent])
  exact ⟨dispatch, thread, housed, join, (new.table h.table).congr table⟩

end Occupies

namespace Coherent

variable {k : Kernel} {c : CpuId} {index generation : Nat} {t : Thread}
  {f : ThreadSlot → ThreadSlot} {state : CpuSchedulerState} {queue : BoundedQueue ThreadId}

variable (h : Coherent (k.withFree index)) (new : Occupies k index f generation t)
variable (home : t.homeCpu = c)

include h new home

/-- The published thread is the idle thread of a processor that had none. -/
theorem publish_idle (vacant : (k.cpu c).idle = none)
    (shape : state = { k.cpu c with idle := some ⟨index, generation⟩ }) :
    Coherent ((k.modifySlot index f).setCpu c state) := by
  subst shape
  refine ⟨new.core h.toCore rfl ?_ ?_ ?_ rfl ?_,
    CpuOk.setCpu (Occupies.flags h.cpu) rfl rfl rfl (Or.inl rfl) rfl⟩
  · intro d
    rw [cpu_setCpu]
    split
    · exact fun _ none => nomatch none
    · exact id
  · rw [home, cpu_setCpu_self]
    exact fun none => nomatch none
  · intro d
    rw [cpu_setCpu]
    split
    · next same => rw [same]
    · rfl
  · have consistent : Consistent k.view := h.dispatch
    have moved := consistent.addIdle (c := c) (t := ⟨index, generation⟩) ?_ vacant
    · rw [view_setCpu, new.view, home]
      simpa [State.setThread, State.addIdle] using moved
    · rw [view_thread, new.absent rfl, Option.map_none]

/-- The published thread enters the queue of the executing processor. -/
theorem publish_local (housed : (k.cpu c).idle ≠ none)
    (items : queue.items = k.ready c ++ [⟨index, generation⟩])
    (capacity : queue.capacity = (k.cpu c).readyQueue.capacity)
    (shape : state = { k.cpu c with readyQueue := queue }) :
    Coherent ((k.modifySlot index f).setCpu c state) := by
  subst shape
  refine ⟨new.core h.toCore rfl ?_ ?_ ?_ rfl ?_,
    CpuOk.setCpu (Occupies.flags h.cpu) rfl rfl rfl (Or.inl rfl) capacity⟩
  · intro d
    rw [cpu_setCpu]
    split
    · next same => rw [same]; exact id
    · exact id
  · rw [home, cpu_setCpu_self]
    exact housed
  · intro d
    rw [cpu_setCpu]
    split
    · next same => rw [same]
    · rfl
  · have consistent : Consistent k.view := h.dispatch
    have moved := consistent.enqueue (c := c) (t := ⟨index, generation⟩) (Or.inl ?_)
    · rw [view_setCpu, new.view, home]
      simp only [items]
      simpa [State.setThread, State.enqueue] using moved
    · rw [view_thread, new.absent rfl, Option.map_none]

/-- The published thread enters the ingress of another processor. -/
theorem publish_remote (housed : (k.cpu c).idle ≠ none)
    (items : queue.items = k.remote c ++ [⟨index, generation⟩])
    (capacity : queue.capacity = (k.scheduler.remoteReady c).capacity) :
    Coherent (((k.modifySlot index f).setRemote c queue).setPending c true) := by
  refine ⟨Core.setPending ?_ c true, CpuOk.setRemote (Occupies.flags h.cpu) capacity⟩
  refine new.core h.toCore rfl (fun _ => id) ?_ (fun _ => rfl) rfl ?_
  · rw [home]
    exact housed
  · have consistent : Consistent k.view := h.dispatch
    have moved := consistent.post (c := c) (t := ⟨index, generation⟩) (Or.inl ?_)
    · rw [view_setRemote, new.view, home]
      simp only [items]
      simpa [State.setThread, State.post] using moved
    · rw [view_thread, new.absent rfl, Option.map_none]

end Coherent

end Genrt
