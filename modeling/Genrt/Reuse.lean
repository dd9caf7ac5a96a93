import Genrt.Transitions

/-!
# Identities of released threads

A slot counts its publications in its generation, so the identity of a released
thread names no later occupant until the generation wraps around. Boot starts
slots at the initial generation, whatever they held before: the idle thread of a
secondary processor that takes a used slot brings an old identity back to life.
-/

namespace Genrt

open Effect Function Kernel

/-! ### Generations -/

/-- The generation of a slot after a number of publications. -/
def generationAfter (count : Nat) : Nat := nextGeneration^[count] 0

theorem generationAfter_succ (count : Nat) :
    generationAfter (count + 1) = nextGeneration (generationAfter count) :=
  iterate_succ_apply' nextGeneration count 0

/-- The generations in use form one cycle that skips zero. -/
theorem generationAfter_eq (count : Nat) :
    generationAfter (count + 1) = count % (2 ^ 32 - 1) + 1 := by
  induction count with
  | zero => rfl
  | succ count ih =>
    rw [generationAfter_succ, ih, nextGeneration]
    split <;> omega

/-- A generation comes back only after a full cycle. -/
theorem generationAfter_apart {before more : Nat} (used : 0 < before) (few : more < 2 ^ 32 - 1)
    (same : generationAfter (before + more) = generationAfter before) : more = 0 := by
  obtain ⟨count, rfl⟩ := Nat.exists_eq_succ_of_ne_zero (Nat.ne_of_gt used)
  rw [Nat.succ_add, Nat.succ_eq_add_one, Nat.succ_eq_add_one, generationAfter_eq,
    generationAfter_eq] at same
  omega

/-! ### The log of a slot -/

namespace Event

def publishes (index : Nat) : Event → Bool
  | .published id => decide (id.index = index)
  | _ => false

def releases (index : Nat) : Event → Bool
  | .released id => decide (id.index = index)
  | _ => false

/-- No slot is published or released. -/
def Slotless (event : Event) : Prop :=
  ∀ index, event.publishes index = false ∧ event.releases index = false

theorem slotless_of_wait {event : Event} (wait : event.ofWait = true) : event.Slotless := by
  intro index
  cases event with
  | published => cases wait
  | released => cases wait
  | _ => exact ⟨rfl, rfl⟩

end Event

/-- How often a slot was published. -/
def publications (index : Nat) (history : List Event) : Nat :=
  history.countP (Event.publishes index)

/-- How often a slot was released. -/
def releases (index : Nat) (history : List Event) : Nat :=
  history.countP (Event.releases index)

/-- The generation of a slot, and whether it holds a thread. -/
def Kernel.shape (k : Kernel) (index : Nat) : Option (Nat × Bool) :=
  k.slots[index]?.map fun slot => (slot.generation, slot.thread.isSome)

/-- The slots agree with the log. -/
structure SlotLog (k : Kernel) : Prop where
  slot : ∀ index generation occupied, k.shape index = some (generation, occupied) →
    generation = generationAfter (publications index k.history) ∧
      publications index k.history = releases index k.history + occupied.toNat
  absent : ∀ index, k.shape index = none →
    publications index k.history = 0 ∧ releases index k.history = 0
  released : ∀ id earlier, (.released id :: earlier) <:+ k.history →
    id.generation = generationAfter (publications id.index earlier) ∧
      publications id.index earlier = releases id.index earlier + 1

namespace SlotLog

variable {mode : Mode} {k k' : Kernel} {id : ThreadId} {t : Thread}

/-- A thread shows the generation of its slot. -/
theorem shape_of_find (found : k.find id = some t) :
    k.shape id.index = some (id.generation, true) := by
  obtain ⟨slot, present, named, occupied⟩ := find_eq_some.mp found
  have slots : k.slots[id.index]? = some slot := present
  rw [shape, slots, Option.map_some, named, occupied]
  rfl

variable {index : Nat}

theorem shape_modifyThread {f : Thread → Thread} : (k.modifyThread index f).shape = k.shape := by
  funext i
  change ((k.slots.modify index _)[i]?).map _ = _
  rw [List.getElem?_modify, shape, Option.map_eq_map, Option.map_map]
  congr 1
  funext slot
  by_cases same : index = i
  · simp [same]
  · simp [same]

theorem shape_modifySlot {slot : ThreadSlot} {f : ThreadSlot → ThreadSlot}
    (present : k.slots[index]? = some slot) : (k.modifySlot index f).shape =
      update k.shape index (some ((f slot).generation, (f slot).thread.isSome)) := by
  funext i
  change ((k.slots.modify index f)[i]?).map _ = _
  rw [List.getElem?_modify, update_apply]
  by_cases same : i = index
  · subst same
    rw [present]
    simp
  · simp [Ne.symm same, same, shape]

section

variable (h : SlotLog k)

include h

/-- Nothing is published or released. -/
theorem quiet (shape : k'.shape = k.shape) {events : List Event}
    (history : k'.history = events ++ k.history) (silent : ∀ event ∈ events, event.Slotless) :
    SlotLog k' := by
  have published : ∀ index, publications index k'.history = publications index k.history := by
    intro index
    rw [publications, history, List.countP_append, List.countP_eq_zero.mpr, Nat.zero_add]
    · rfl
    · intro event member
      simp [(silent event member index).1]
  have released : ∀ index, releases index k'.history = releases index k.history := by
    intro index
    rw [releases, history, List.countP_append, List.countP_eq_zero.mpr, Nat.zero_add]
    · rfl
    · intro event member
      simp [(silent event member index).2]
  refine ⟨fun index generation occupied present => ?_, fun index gone => ?_,
    fun id earlier suffix => ?_⟩
  · rw [published, released]
    exact h.slot index generation occupied (shape ▸ present)
  · rw [published, released]
    exact h.absent index (shape ▸ gone)
  · refine h.released id earlier ?_
    rw [history] at suffix
    clear history
    induction events with
    | nil => exact suffix
    | cons event rest ih =>
      rcases List.suffix_cons_iff.mp suffix with same | suffix
      · have first := (silent event (.head _) id.index).2
        rw [← (List.cons.inj same).1, Event.releases] at first
        exact absurd first (by simp)
      · exact ih (fun later member => silent later (.tail _ member)) suffix

/-- A free slot is published at its next generation. -/
theorem publish {index old : Nat} (free : k.shape index = some (old, false))
    (shape : k'.shape = update k.shape index (some (nextGeneration old, true)))
    (history : k'.history = .published ⟨index, nextGeneration old⟩ :: k.history) : SlotLog k' := by
  have published : ∀ i, publications i k'.history =
      publications i k.history + (decide (index = i)).toNat := by
    intro i
    rw [history, publications, List.countP_cons, publications]
    by_cases same : index = i <;> simp [Event.publishes, same]
  have released : ∀ i, releases i k'.history = releases i k.history := by
    intro i
    rw [history, releases, List.countP_cons, releases]
    rfl
  refine ⟨fun i generation occupied present => ?_, fun i gone => ?_, fun id earlier suffix => ?_⟩
  · rw [published, released]
    rw [shape, update_apply] at present
    split at present
    · next same =>
      subst same
      obtain ⟨rfl, rfl⟩ := Prod.mk.inj (Option.some.inj present)
      obtain ⟨known, balance⟩ := h.slot i old false free
      refine ⟨?_, by simpa using balance⟩
      rw [decide_eq_true rfl, Bool.toNat_true, generationAfter_succ, ← known]
    · next apart =>
      rw [decide_eq_false (Ne.symm apart), Bool.toNat_false, Nat.add_zero]
      exact h.slot i generation occupied present
  · rw [shape, update_apply] at gone
    split at gone
    · cases gone
    · next apart =>
      rw [published, released, decide_eq_false (Ne.symm apart)]
      exact h.absent i gone
  · rw [history] at suffix
    rcases List.suffix_cons_iff.mp suffix with same | suffix
    · cases same
    · exact h.released id earlier suffix

/-- The slot of a thread is released. -/
theorem reap (live : k.shape id.index = some (id.generation, true))
    (shape : k'.shape = update k.shape id.index (some (id.generation, false)))
    (history : k'.history = .released id :: k.history) : SlotLog k' := by
  have published : ∀ i, publications i k'.history = publications i k.history := by
    intro i
    rw [history, publications, List.countP_cons, publications]
    rfl
  have released : ∀ i, releases i k'.history =
      releases i k.history + (decide (id.index = i)).toNat := by
    intro i
    rw [history, releases, List.countP_cons, releases]
    by_cases same : id.index = i <;> simp [Event.releases, same]
  obtain ⟨known, balance⟩ := h.slot id.index id.generation true live
  refine ⟨fun i generation occupied present => ?_, fun i gone => ?_, fun other earlier suffix => ?_⟩
  · rw [published, released]
    rw [shape, update_apply] at present
    split at present
    · next same =>
      subst same
      obtain ⟨rfl, rfl⟩ := Prod.mk.inj (Option.some.inj present)
      exact ⟨known, by simpa using balance⟩
    · next apart =>
      rw [decide_eq_false (Ne.symm apart), Bool.toNat_false, Nat.add_zero]
      exact h.slot i generation occupied present
  · rw [shape, update_apply] at gone
    split at gone
    · cases gone
    · next apart =>
      rw [published, released, decide_eq_false (Ne.symm apart)]
      exact h.absent i gone
  · rw [history] at suffix
    rcases List.suffix_cons_iff.mp suffix with same | suffix
    · obtain ⟨named, rfl⟩ := List.cons.inj same
      cases named
      exact ⟨known, balance⟩
    · exact h.released other earlier suffix

theorem reaped (found : k.find id = some t) : SlotLog (k.reaped id t) := by
  obtain ⟨slot, present, named, _⟩ := find_eq_some.mp found
  refine h.reap (shape_of_find found) ?_ rfl
  rw [← named]
  exact shape_modifySlot present

/-- A slot is added that was never published. -/
theorem grown : SlotLog (k.setSlots (k.slots ++ [.free index])) := by
  have shapes : ∀ i, (k.setSlots (k.slots ++ [.free index])).shape i = k.shape i ∨
      k.shape i = none ∧ (k.setSlots (k.slots ++ [.free index])).shape i = some (0, false) := by
    intro i
    change ((k.slots ++ [ThreadSlot.free index])[i]?).map _ = _ ∨
      _ ∧ ((k.slots ++ [ThreadSlot.free index])[i]?).map _ = _
    cases present : (k.slots ++ [ThreadSlot.free index])[i]? with
    | none =>
      have beyond : k.slots[i]? = none := by
        rw [List.getElem?_eq_none_iff, List.length_append] at present
        exact List.getElem?_eq_none (by omega)
      exact .inl (by rw [shape, beyond])
    | some slot =>
      rcases slots_appendFree present with same | ⟨beyond, rfl⟩
      · exact .inl (by rw [shape, same])
      · exact .inr ⟨by rw [shape, beyond]; rfl, rfl⟩
  refine ⟨fun i generation occupied present => ?_, fun i gone => ?_, h.released⟩
  · rcases shapes i with same | ⟨beyond, added⟩
    · exact h.slot i generation occupied (same ▸ present)
    · obtain ⟨rfl, rfl⟩ := Prod.mk.inj (Option.mem_unique added present)
      obtain ⟨published, released⟩ := h.absent i beyond
      change 0 = generationAfter (publications i k.history) ∧
        publications i k.history = releases i k.history + 0
      rw [published, released]
      exact ⟨rfl, rfl⟩
  · rcases shapes i with same | ⟨_, added⟩
    · exact h.absent i (same ▸ gone)
    · cases added.symm.trans gone

theorem change (change : Change mode k k') (settled : mode.booting = false) : SlotLog k' := by
  have none : ∀ event ∈ ([] : List Event), event.Slotless := fun _ => nofun
  have one : ∀ event : Event, event.Slotless → ∀ other ∈ [event], other.Slotless :=
    fun event silent other member => List.mem_singleton.mp member ▸ silent
  cases change with
  | aside slots history _ =>
    refine h.quiet ?_ (history.trans (List.nil_append _).symm) none
    funext index
    rw [Kernel.shape, Kernel.slots, slots]
    rfl
  | edit f found edited => exact h.quiet shape_modifyThread rfl none
  | wait found step =>
    exact h.quiet shape_modifyThread rfl fun event member =>
      Event.slotless_of_wait (step.ofWait event member)
  | missed missed =>
    exact h.quiet rfl rfl (one _ (Event.slotless_of_wait (Event.Missed.ofWait missed)))
  | exit allowed found alive =>
    exact h.quiet shape_modifyThread rfl (one _ fun _ => ⟨rfl, rfl⟩)
  | @publish index slot t generation allowed present free wait code consumed next =>
    have taken : generation = nextGeneration slot.generation := by
      rcases next with next | ⟨booting, _⟩
      · exact next
      · rw [settled] at booting
        cases booting
    subst taken
    have slots : k.slots[index]? = some slot := present
    have vacant : k.shape index = some (slot.generation, false) := by
      rw [shape, slots, Option.map_some, free]
      rfl
    exact h.publish vacant (shape_modifySlot slots) rfl
  | reap allowed found free exited => exact h.reaped found
  | hand allowed found waiting apart free exited =>
    exact (h.reaped found).quiet shape_modifyThread rfl (one _ fun _ => ⟨rfl, rfl⟩)
  | refuse allowed found consumed alive => exact h.quiet shape_modifyThread rfl none
  | take allowed found named_eq present =>
    exact h.quiet shape_modifyThread rfl (one _ fun _ => ⟨rfl, rfl⟩)
  | grow allowed index => exact h.grown

theorem evolves (changed : Evolves mode k k') (settled : mode.booting = false) : SlotLog k' := by
  induction changed with
  | refl => exact h
  | tail _ change ih => exact ih.change change settled

end

end SlotLog

variable {k : Kernel}

theorem SlotLog.of_empty (slots : k.slots = []) (history : k.history = []) : SlotLog k := by
  refine ⟨fun index generation occupied present => ?_, fun index _ => ?_,
    fun id earlier suffix => ?_⟩
  · rw [shape, slots] at present
    cases present
  · rw [history]
    exact ⟨rfl, rfl⟩
  · rw [history] at suffix
    cases List.suffix_nil.mp suffix

/-! ### Runs of transitions -/

/-- An idle thread is initialized in a slot that was never published. At boot all
processors are online before the first thread runs, so that every free slot is
one. -/
def Transition.Unused (k : Kernel) : Transition → Prop
  | .initializeIdleCurrent _ => ∀ index rest, k.freeSlots = index :: rest → k.Fresh index
  | _ => True

/-- Boot, and transitions that start no used slot over. -/
def Mode.settled : Mode := ⟨true, false, false, false⟩

theorem SlotLog.of_run {config : BootConfig} {k' : Kernel} (boot : bootstrap config = .ok (.ok k))
    (run : Transition.machine.Run Transition.Unused k k') : SlotLog k' := by
  induction run with
  | refl =>
    obtain ⟨scheduler, made, evolves⟩ := Evolves.of_bootstrap boot
    exact (SlotLog.of_empty (slots_preBoot made) rfl).evolves evolves rfl
  | @step k' k'' transition _ unused taken ih =>
    have traced : WP (fun _ => True) transition.run (fun _ k'' => Evolves .settled k' k'') k' := by
      refine transition.traced rfl rfl fun cpu same => .inr ?_
      subst same
      exact unused
    exact ih.evolves (traced.of_ok taken) rfl

/-- A released thread whose slot was not published a full cycle of generations
since stays dead. -/
theorem SlotLog.dead (h : SlotLog k) {id : ThreadId} {later earlier : List Event}
    (released : k.history = later ++ .released id :: earlier)
    (few : publications id.index later < 2 ^ 32 - 1) : k.find id = none := by
  cases found : k.find id with
  | none => rfl
  | some t =>
    obtain ⟨now, balance⟩ := h.slot _ _ _ (shape_of_find found)
    obtain ⟨known, before⟩ := h.released id earlier (released ▸ List.suffix_append later _)
    have published : publications id.index k.history =
        publications id.index earlier + publications id.index later := by
      rw [released, publications, List.countP_append, List.countP_cons]
      exact Nat.add_comm _ _
    have count : releases id.index k.history =
        releases id.index later + (releases id.index earlier + 1) := by
      rw [released, releases, List.countP_append, List.countP_cons]
      simp [Event.releases, releases]
    rw [published] at now balance
    have none := generationAfter_apart (by omega) few (now.symm.trans known)
    rw [count, none] at balance
    simp only [Bool.toNat_true] at balance
    omega

/-- The only thread exits, its slot is released, and the idle thread of the second
processor gets the slot and the identity. -/
theorem released_identity_returns : ∃ k, Transition.machine.Reachable k ∧
    ∃ id later earlier, k.history = later ++ .released id :: earlier ∧
      publications id.index later < 2 ^ 32 - 1 ∧ k.find id ≠ none := by
  obtain ⟨k, k', boot, run, shown⟩ := Transition.exists_played .twoCpus
    [.exitCurrent 0 7, .finalizeRetired 0 true, .initializeIdleCurrent 1]
    (fun k => decide (.released ⟨1, 1⟩ ∈ k.history) && decide (publications 1 k.history = 2) &&
      (k.find ⟨1, 1⟩).isSome) (by decide +kernel) (fun _ _ => True) (fun _ _ _ => trivial)
  simp only [Bool.and_eq_true, decide_eq_true_eq] at shown
  obtain ⟨⟨released, published⟩, live⟩ := shown
  obtain ⟨later, earlier, split⟩ := List.append_of_mem released
  refine ⟨k', Machine.Reachable.run (.initial ⟨_, boot⟩) run, ⟨1, 1⟩, later, earlier, split, ?_, ?_⟩
  · rw [split, publications, List.countP_append] at published
    have few : publications 1 later ≤ 2 := Nat.le.intro published
    exact Nat.lt_of_le_of_lt few (by decide)
  · exact Option.isSome_iff_ne_none.mp live

/-- In every run of transitions that initialize idle threads in slots never
published before, the identity of a released thread names no later occupant of
its slot, as long as the slot is published fewer times than there are
generations. -/
theorem released_stays_dead {config : BootConfig} {k k' : Kernel}
    (boot : bootstrap config = .ok (.ok k)) (run : Transition.machine.Run Transition.Unused k k')
    {id : ThreadId} {later earlier : List Event}
    (released : k'.history = later ++ .released id :: earlier)
    (few : publications id.index later < 2 ^ 32 - 1) : k'.find id = none :=
  (SlotLog.of_run boot run).dead released few

/-- The slot of the only thread is released and published again. -/
theorem released_stays_dead_republished : ∃ k, Transition.machine.Reachable k ∧
    publications 1 k.history = 2 ∧ k.find ⟨1, 1⟩ = none := by
  obtain ⟨k, k', boot, run, shown⟩ := Transition.exists_played .twoCpus
    [.exitCurrent 0 7, .finalizeRetired 0 true, .publishRuntime 0 0 none true]
    (fun k => decide (.released ⟨1, 1⟩ ∈ k.history) && decide (publications 1 k.history = 2))
    (by decide +kernel) Transition.Unused (by simp [Transition.Unused])
  simp only [Bool.and_eq_true, decide_eq_true_eq] at shown
  obtain ⟨released, published⟩ := shown
  obtain ⟨later, earlier, split⟩ := List.append_of_mem released
  have few : publications 1 later ≤ 2 := by
    rw [split, publications, List.countP_append] at published
    exact Nat.le.intro published
  exact ⟨k', Machine.Reachable.run (.initial ⟨_, boot⟩) run, published,
    released_stays_dead boot run split (Nat.lt_of_le_of_lt few (by decide))⟩

end Genrt
