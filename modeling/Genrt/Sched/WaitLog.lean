import Genrt.Sched.DirectWake
import Genrt.Sched.Trace

/-!
# Wait tokens are exact

Over any sequence of scheduler transitions, in any order and with any tokens, a
token is completed by at most one completer, its thread learns that completer's
cause, and a sleeper is woken once. The slots issue sequence numbers in
increasing order, also when their threads change, so a token never names a later
wait.

The statements are about the log. The invariant that carries them relates the
log to the registrations that are still open.
-/

namespace Genrt

open Effect Function Kernel

/-! ### Reading the log -/

namespace Event

/-- The completion that decided a wait, with its cause. -/
def winner? : Event → Option (WaitToken × WaitCause)
  | .completed token cause result => if result.wins then some (token, cause) else none
  | _ => none

/-- The cause that a thread was told when it consumed its wait. -/
def observed? : Event → Option (WaitToken × WaitCause)
  | .committed token (.early cause) => some (token, cause)
  | .finished token (.ok cause) => some (token, cause)
  | .cancelled token (.completed cause) => some (token, cause)
  | _ => none

/-- The blocked wait that was completed. -/
def woke? : Event → Option WaitToken
  | .completed token _ .wokeBlocked => some token
  | _ => none

/-- The blocked wait whose thread was made ready. -/
def readied? : Event → Option WaitToken
  | .readied token => some token
  | _ => none

/-- The token that was registered. -/
def issued? : Event → Option WaitToken
  | .prepared token => some token
  | _ => none

/-- The entry is about none of these. -/
structure Silent (event : Event) : Prop where
  winner : event.winner? = none
  observed : event.observed? = none
  woke : event.woke? = none
  readied : event.readied? = none
  issued : event.issued? = none

end Event

/-- The last sequence number that the slot issued. -/
def ThreadSlot.lastSequence (slot : ThreadSlot) : Nat :=
  match slot.thread with
  | none => slot.nextWaitSequence
  | some t => t.wait.nextSequence

variable {id : ThreadId} {t : Thread}

namespace Kernel

variable (k : Kernel)

def winners : List (WaitToken × WaitCause) := k.history.filterMap Event.winner?

def observations : List (WaitToken × WaitCause) := k.history.filterMap Event.observed?

def wokenTokens : List WaitToken := k.history.filterMap Event.woke?

def readiedTokens : List WaitToken := k.history.filterMap Event.readied?

/-- The registered tokens, newest first. -/
def issuedTokens : List WaitToken := k.history.filterMap Event.issued?

/-- The last sequence number that a slot issued. -/
def lastSequence (index : Nat) : Nat := (k.slots[index]?.map ThreadSlot.lastSequence).getD 0

theorem lastSequence_of_find {k : Kernel} (found : k.find id = some t) :
    k.lastSequence id.index = t.wait.nextSequence := by
  obtain ⟨slot, present, _, occupant⟩ := find_eq_some.mp found
  rw [lastSequence, slots, present, Option.map_some, Option.getD_some, ThreadSlot.lastSequence,
    occupant]

theorem lastSequence_modifySlot {k : Kernel} {index : Nat} {f : ThreadSlot → ThreadSlot}
    (same : ∀ slot, k.slots[index]? = some slot → (f slot).lastSequence = slot.lastSequence) :
    (k.modifySlot index f).lastSequence = k.lastSequence := by
  funext i
  rw [lastSequence, lastSequence, slots_modifySlot, Option.map_map]
  cases present : k.slots[i]? with
  | none => rfl
  | some slot =>
    rw [Option.map_some, Option.map_some, comp_apply]
    split
    · next own =>
      subst own
      rw [same slot present]
    · rfl

end Kernel

/-- What the log says about the registrations. -/
structure WaitLog (k : Kernel) : Prop where
  own : ∀ id t w, k.find id = some t → t.wait.active = some w →
    w.token.thread = id ∧ w.token.sequence = t.wait.nextSequence
  undecided : ∀ token w, k.registration token = some w → (∀ cause, w.phase ≠ .completed cause) →
    ∀ cause, (token, cause) ∉ k.winners
  decided : ∀ token w cause, k.registration token = some w → w.phase = .completed cause →
    (token, cause) ∈ k.winners
  once : (k.winners.map Prod.fst).Nodup
  observed : ∀ observation ∈ k.observations, observation ∈ k.winners
  readied : k.readiedTokens = k.wokenTokens
  won : ∀ token cause, (token, cause) ∈ k.winners →
    token.sequence ≤ k.lastSequence token.thread.index
  issued : ∀ token ∈ k.issuedTokens, token.sequence ≤ k.lastSequence token.thread.index
  increasing : k.issuedTokens.Pairwise fun later earlier =>
    later.thread.index = earlier.thread.index → earlier.sequence < later.sequence

/-- A change that concerns no wait. -/
structure Unwaited (k k' : Kernel) : Prop where
  registration : k'.registration = k.registration
  waits : ∀ id t', k'.find id = some t' →
    t'.wait.active = none ∨ ∃ t, k.find id = some t ∧ t'.wait = t.wait
  sequence : k'.lastSequence = k.lastSequence
  history : ∃ events, k'.history = events ++ k.history ∧ ∀ event ∈ events, event.Silent

variable {k k' : Kernel} {mode : Mode}

theorem WaitLog.unwaited (h : WaitLog k) (change : Unwaited k k') : WaitLog k' := by
  obtain ⟨registration, waits, sequence, events, history, silent⟩ := change
  have read : ∀ {α : Type} {read : Event → Option α}, (∀ event, event.Silent → read event = none) →
      k'.history.filterMap read = k.history.filterMap read := by
    intro α read none
    rw [history, List.filterMap_append,
      List.filterMap_eq_nil_iff.mpr fun event member => none event (silent event member),
      List.nil_append]
  have winners : k'.winners = k.winners := read fun _ quiet => quiet.winner
  have observations : k'.observations = k.observations := read fun _ quiet => quiet.observed
  have woken : k'.wokenTokens = k.wokenTokens := read fun _ quiet => quiet.woke
  have readied : k'.readiedTokens = k.readiedTokens := read fun _ quiet => quiet.readied
  have issued : k'.issuedTokens = k.issuedTokens := read fun _ quiet => quiet.issued
  constructor
  · intro id t' w found active
    rcases waits id t' found with none | ⟨t, found', same⟩
    · rw [none] at active
      cases active
    · rw [same] at active ⊢
      exact h.own id t w found' active
  · rw [registration, winners]
    exact h.undecided
  · rw [registration, winners]
    exact h.decided
  · rw [winners]
    exact h.once
  · rw [observations, winners]
    exact h.observed
  · rw [readied, woken]
    exact h.readied
  · rw [winners, sequence]
    exact h.won
  · rw [issued, sequence]
    exact h.issued
  · rw [issued]
    exact h.increasing

/-! ### Changes that concern no wait -/

namespace Unwaited

variable {k k' k'' : Kernel} {id : ThreadId} {t : Thread}

theorem trans (first : Unwaited k k') (second : Unwaited k' k'') : Unwaited k k'' where
  registration := second.registration.trans first.registration
  waits id t'' found := by
    rcases second.waits id t'' found with none | ⟨t', found', same⟩
    · exact .inl none
    · rw [same]
      exact first.waits id t' found'
  sequence := second.sequence.trans first.sequence
  history := by
    obtain ⟨events, history, silent⟩ := first.history
    obtain ⟨events', history', silent'⟩ := second.history
    refine ⟨events' ++ events, by rw [history', history, List.append_assoc], fun event member => ?_⟩
    exact (List.mem_append.mp member).elim (silent' event) (silent event)

/-- Only the table of slots and the log matter. -/
theorem of_slots (slots : k'.slots = k.slots) (history : k'.history = k.history) :
    Unwaited k k' := by
  have find : k'.find = k.find := funext fun id => find_of_slots slots
  refine ⟨?_, fun id t' found => .inr ⟨t', by rwa [← find], rfl⟩, ?_, [], history, fun _ => nofun⟩
  · funext token
    rw [Kernel.registration, find, Kernel.registration]
  · funext index
    rw [lastSequence, slots, lastSequence]

theorem log {event : Event} (silent : event.Silent) : Unwaited k (k.log event) where
  registration := rfl
  waits _ t' found := .inr ⟨t', found, rfl⟩
  sequence := rfl
  history := ⟨[event], rfl, fun _ member => List.mem_singleton.mp member ▸ silent⟩

theorem modifyThread (found : k.find id = some t) {f : Thread → Thread}
    (wait : (f t).wait = t.wait) : Unwaited k (k.modifyThread id.index f) where
  registration := registration_update (find_modifyThread_eq found) found (by rw [wait])
  waits other t' live := by
    by_cases same : other = id
    · subst same
      rw [find_modifyThread_self found] at live
      exact .inr ⟨t, found, by rw [← Option.some.inj live, wait]⟩
    · rw [find_modifyThread_other found same] at live
      exact .inr ⟨t', live, rfl⟩
  sequence := by
    refine lastSequence_modifySlot fun slot present => ?_
    obtain ⟨slot', present', _, occupant⟩ := find_eq_some.mp found
    obtain rfl := Option.mem_unique present present'
    rw [ThreadSlot.lastSequence, ThreadSlot.lastSequence, occupant, Option.map_some]
    dsimp only
    rw [wait]
  history := ⟨[], rfl, fun _ => nofun⟩

theorem published {index generation : Nat} {slot : ThreadSlot}
    (present : k.slots[index]? = some slot)
    (free : slot.thread = none) (wait : t.wait = .withNextSequence slot.nextWaitSequence) :
    Unwaited k (k.modifySlot index fun slot =>
      { slot with generation := generation, stack := none, thread := some t }) := by
  have finds : (k.modifySlot index fun slot =>
      { slot with generation := generation, stack := none, thread := some t }).find =
        update k.find ⟨index, generation⟩ (some t) :=
    find_occupy present free rfl rfl
  have inactive : t.wait.active = none := by rw [wait]; rfl
  refine ⟨registration_occupy finds (find_eq_none_of_free present free rfl) inactive, ?_, ?_, [],
    rfl, fun _ => nofun⟩
  · intro other t' live
    rw [finds, update_apply] at live
    split at live
    · rw [← Option.some.inj live]
      exact .inl inactive
    · exact .inr ⟨t', live, rfl⟩
  · refine lastSequence_modifySlot fun slot' present' => ?_
    obtain rfl := Option.mem_unique present present'
    rw [ThreadSlot.lastSequence, ThreadSlot.lastSequence, free]
    dsimp only
    rw [wait]
    rfl

theorem reaped (found : k.find id = some t) (inactive : t.wait.active = none) :
    Unwaited k (k.reaped id t) := by
  suffices vacated : Unwaited k (k.released id t) from
    vacated.trans (log ⟨rfl, rfl, rfl, rfl, rfl⟩)
  refine ⟨registration_vacate (find_released found) found inactive, ?_, ?_, [], rfl,
    fun _ => nofun⟩
  · intro other t' live
    rw [find_released found, update_apply] at live
    split at live
    · cases live
    · exact .inr ⟨t', live, rfl⟩
  · refine lastSequence_modifySlot fun slot present => ?_
    obtain ⟨slot', present', _, occupant⟩ := find_eq_some.mp found
    obtain rfl := Option.mem_unique present present'
    rw [ThreadSlot.lastSequence, ThreadSlot.lastSequence, occupant]

theorem grown {index : Nat} : Unwaited k (k.setSlots (k.slots ++ [.free index])) := by
  have find : (k.setSlots (k.slots ++ [.free index])).find = k.find := find_appendFree
  refine ⟨?_, fun id t' found => .inr ⟨t', by rwa [← find], rfl⟩, ?_, [], rfl, fun _ => nofun⟩
  · funext token
    rw [Kernel.registration, find, Kernel.registration]
  · funext i
    change ((k.slots ++ [ThreadSlot.free index])[i]?.map ThreadSlot.lastSequence).getD 0 =
      (k.slots[i]?.map ThreadSlot.lastSequence).getD 0
    cases present : (k.slots ++ [ThreadSlot.free index])[i]? with
    | none =>
      have beyond : k.slots[i]? = none := by
        rw [List.getElem?_eq_none_iff, List.length_append] at present
        exact List.getElem?_eq_none (by omega)
      rw [beyond]
    | some slot =>
      rcases slots_appendFree present with same | ⟨none, rfl⟩
      · rw [same]
      · rw [none]
        rfl

end Unwaited

theorem Event.Missed.silent {event : Event} (missed : event.Missed) : event.Silent := by
  cases event with
  | completed token cause result =>
    obtain rfl : result = .stale := missed
    exact ⟨rfl, rfl, rfl, rfl, rfl⟩
  | cancelled token result =>
    obtain rfl : result = .stale := missed
    exact ⟨rfl, rfl, rfl, rfl, rfl⟩
  | finished token result =>
    obtain rfl : result = .error .stale := missed
    exact ⟨rfl, rfl, rfl, rfl, rfl⟩
  | _ => exact missed.elim

/-- Every elementary change is a wait operation or concerns no wait. -/
theorem Change.unwaited (change : Change mode k k') :
    (∃ id t w events, k.find id = some t ∧ WaitStep id t.wait w events ∧
      k' = (k.modifyThread id.index fun t => { t with wait := w }).logAll events) ∨
    Unwaited k k' := by
  cases change with
  | aside slots history _ => exact .inr (.of_slots slots history)
  | edit f found edited => exact .inr (.modifyThread found edited.wait)
  | wait found step => exact .inl ⟨_, _, _, _, found, step, rfl⟩
  | missed missed => exact .inr (.log missed.silent)
  | exit _ found _ =>
    exact .inr ((Unwaited.modifyThread found rfl).trans (.log ⟨rfl, rfl, rfl, rfl, rfl⟩))
  | publish _ present free wait _ _ _ =>
    exact .inr ((Unwaited.published present free wait).trans (.log ⟨rfl, rfl, rfl, rfl, rfl⟩))
  | reap _ found free _ => exact .inr (.reaped found free)
  | @hand id joiner t j code _ found waiting apart free _ =>
    have live : (k.reaped id t).find joiner = some j := by
      rw [find_reaped found, update_of_ne apart.symm, waiting]
    exact .inr ((Unwaited.reaped found free).trans ((Unwaited.modifyThread live rfl).trans
      (.log ⟨rfl, rfl, rfl, rfl, rfl⟩)))
  | refuse _ found _ _ => exact .inr (.modifyThread found rfl)
  | take _ found _ _ =>
    exact .inr ((Unwaited.modifyThread found rfl).trans (.log ⟨rfl, rfl, rfl, rfl, rfl⟩))
  | grow _ index => exact .inr .grown

/-! ### Wait operations -/

theorem Kernel.lastSequence_wait (found : k.find id = some t) (w : WaitMetadata) :
    (k.modifyThread id.index fun t => { t with wait := w }).lastSequence =
      update k.lastSequence id.index w.nextSequence := by
  funext i
  by_cases same : i = id.index
  · subst same
    rw [update_self, lastSequence_of_find (find_modifyThread_self found)]
  · rw [update_of_ne same, lastSequence, slots_modifyThread, Option.map_map]
    cases present : k.slots[i]? with
    | none => rw [lastSequence, present]; rfl
    | some slot =>
      rw [lastSequence, present, Option.map_some, comp_apply, if_neg (Ne.symm same)]
      rfl

variable {w : WaitMetadata}

/-- Sequence numbers of a slot only grow. -/
theorem Kernel.lastSequence_le_wait (found : k.find id = some t)
    (sequence : t.wait.nextSequence ≤ w.nextSequence) (i : Nat) :
    k.lastSequence i ≤ (k.modifyThread id.index fun t => { t with wait := w }).lastSequence i := by
  rw [lastSequence_wait found, update_apply]
  split
  · next same =>
    rw [same, k.lastSequence_of_find found]
    exact sequence
  · exact le_rfl

/-- What a wait operation must show about itself. -/
structure WaitStepOk (k : Kernel) (id : ThreadId) (t : Thread) (w : WaitMetadata)
    (events : List Event) : Prop where
  own : ∀ a, w.active = some a → a.token.thread = id ∧ a.token.sequence = w.nextSequence
  sequence : t.wait.nextSequence ≤ w.nextSequence
  winners : ∀ token cause, (token, cause) ∈ events.filterMap Event.winner? →
    token.thread = id ∧ token.sequence ≤ w.nextSequence
  fresh : ((events.filterMap Event.winner? ++ k.winners).map Prod.fst).Nodup
  undecided : ∀ a, w.active = some a → (∀ cause, a.phase ≠ .completed cause) →
    ∀ cause, (a.token, cause) ∉ events.filterMap Event.winner? ++ k.winners
  decided : ∀ a cause, w.active = some a → a.phase = .completed cause →
    (a.token, cause) ∈ events.filterMap Event.winner? ++ k.winners
  observed : ∀ observation ∈ events.filterMap Event.observed?,
    observation ∈ events.filterMap Event.winner? ++ k.winners
  readied : events.filterMap Event.readied? = events.filterMap Event.woke?
  issued : ∀ token ∈ events.filterMap Event.issued?,
    token.thread = id ∧ t.wait.nextSequence < token.sequence ∧ token.sequence ≤ w.nextSequence
  single : events.filterMap Event.issued? = [] ∨ ∃ token, events.filterMap Event.issued? = [token]

theorem WaitLog.step {k : Kernel} {events : List Event} (h : WaitLog k) (found : k.find id = some t)
    (ok : WaitStepOk k id t w events) :
    WaitLog ((k.modifyThread id.index fun t => { t with wait := w }).logAll events) := by
  have finds := find_modifyThread_eq (f := fun t => { t with wait := w }) found
  have winners : ((k.modifyThread id.index fun t => { t with wait := w }).logAll events).winners =
      events.filterMap Event.winner? ++ k.winners := List.filterMap_append ..
  have issued : ((k.modifyThread id.index fun t =>
      { t with wait := w }).logAll events).issuedTokens =
      events.filterMap Event.issued? ++ k.issuedTokens := List.filterMap_append ..
  have last := k.lastSequence_of_find found
  have grows := lastSequence_le_wait found ok.sequence
  have reached : (k.modifyThread id.index fun t => { t with wait := w }).lastSequence id.index =
      w.nextSequence := by
    rw [lastSequence_wait found, update_self]
  constructor
  · intro other t' a live active
    change (k.modifyThread id.index fun t => { t with wait := w }).find other = some t' at live
    rw [finds, update_apply] at live
    split at live
    · next same =>
      rw [← Option.some.inj live] at active ⊢
      rw [same]
      exact ok.own a active
    · exact h.own other t' a live active
  · intro token a registered open_ cause
    rw [winners]
    by_cases same : token.thread = id
    · obtain ⟨active, rfl⟩ := (registration_self finds same).mp registered
      exact ok.undecided a active open_ cause
    · have before := (registration_other finds same).symm.trans registered
      rw [List.mem_append]
      rintro (new | old)
      · exact same (ok.winners _ _ new).1
      · exact h.undecided token a before open_ cause old
  · intro token a cause registered phase
    rw [winners]
    by_cases same : token.thread = id
    · obtain ⟨active, rfl⟩ := (registration_self finds same).mp registered
      exact ok.decided a cause active phase
    · have before := (registration_other finds same).symm.trans registered
      exact List.mem_append_right _ (h.decided token a cause before phase)
  · rw [winners]
    exact ok.fresh
  · intro observation member
    rw [observations, logAll, List.filterMap_append, List.mem_append] at member
    rw [winners]
    rcases member with new | old
    · exact ok.observed observation new
    · exact List.mem_append_right _ (h.observed observation old)
  · have readied := h.readied
    rw [readiedTokens, wokenTokens] at readied ⊢
    rw [logAll, List.filterMap_append, List.filterMap_append, ok.readied]
    exact congrArg _ readied
  · intro token cause won
    rw [winners, List.mem_append] at won
    rcases won with new | old
    · obtain ⟨own, bound⟩ := ok.winners token cause new
      rw [own]
      exact bound.trans_eq reached.symm
    · exact (h.won token cause old).trans (grows _)
  · intro token member
    rw [issued, List.mem_append] at member
    rcases member with new | old
    · obtain ⟨own, _, bound⟩ := ok.issued token new
      rw [own]
      exact bound.trans_eq reached.symm
    · exact (h.issued token old).trans (grows _)
  · rw [issued, List.pairwise_append]
    refine ⟨?_, h.increasing, ?_⟩
    · rcases ok.single with none | ⟨token, one⟩
      · rw [none]
        exact .nil
      · rw [one]
        exact List.pairwise_singleton _ _
    · intro later new earlier old same
      obtain ⟨own, above, _⟩ := ok.issued later new
      refine lt_of_le_of_lt (h.issued earlier old) ?_
      rw [← same, own, last]
      exact above

theorem WaitLog.registered (h : WaitLog k) {a : ActiveWait} (found : k.find id = some t)
    (active : t.wait.active = some a) : k.registration a.token = some a :=
  registration_eq_some.mpr ⟨t, by rw [(h.own id t a found active).1, found], active, rfl⟩

namespace WaitStepOk

variable {k : Kernel} {id : ThreadId} {t : Thread} {w : WaitMetadata} {events : List Event}

section

variable (h : WaitLog k) (found : k.find id = some t)

include h found

/-- An operation that decides nothing and registers nothing. -/
theorem of_silent
    (winner : events.filterMap Event.winner? = []) (issued : events.filterMap Event.issued? = [])
    (readied : events.filterMap Event.readied? = events.filterMap Event.woke?)
    (observed : ∀ observation ∈ events.filterMap Event.observed?, observation ∈ k.winners)
    (sequence : w.nextSequence = t.wait.nextSequence)
    (kept : ∀ a, w.active = some a → ∃ a', t.wait.active = some a' ∧ a.token = a'.token ∧
      ∀ cause, a.phase = .completed cause ↔ a'.phase = .completed cause) :
    WaitStepOk k id t w events := by
  refine ⟨?_, sequence.ge, ?_, ?_, ?_, ?_, ?_, readied, ?_, .inl issued⟩
  · intro a active
    obtain ⟨a', active', token, _⟩ := kept a active
    rw [token, sequence]
    exact h.own id t a' found active'
  · rw [winner]
    exact fun _ _ => nofun
  · rw [winner]
    exact h.once
  · intro a active open_ cause
    obtain ⟨a', active', token, phases⟩ := kept a active
    rw [winner, token]
    exact h.undecided _ a' (h.registered found active')
      (fun c done => open_ c ((phases c).mpr done)) cause
  · intro a cause active phase
    obtain ⟨a', active', token, phases⟩ := kept a active
    rw [winner, token]
    exact h.decided _ a' cause (h.registered found active') ((phases cause).mp phase)
  · rw [winner]
    exact observed
  · rw [issued]
    exact fun _ => nofun

/-- An operation that finds nothing to do. -/
theorem of_same (winner : events.filterMap Event.winner? = [])
    (issued : events.filterMap Event.issued? = [])
    (readied : events.filterMap Event.readied? = events.filterMap Event.woke?)
    (observed : events.filterMap Event.observed? = []) : WaitStepOk k id t t.wait events := by
  refine of_silent h found winner issued readied ?_ rfl
    fun a active => ⟨a, active, rfl, fun _ => Iff.rfl⟩
  rw [observed]
  exact fun _ => nofun

variable {a : ActiveWait} {cause : WaitCause} (active : t.wait.active = some a)

include active

/-- The thread learns the cause of a completed wait. -/
theorem of_consumed (phase : a.phase = .completed cause)
    (winner : events.filterMap Event.winner? = []) (issued : events.filterMap Event.issued? = [])
    (readied : events.filterMap Event.readied? = events.filterMap Event.woke?)
    (observed : events.filterMap Event.observed? = [(a.token, cause)]) :
    WaitStepOk k id t { t.wait with active := none } events := by
  refine of_silent h found winner issued readied (fun observation member => ?_) rfl fun _ => nofun
  rw [observed] at member
  obtain rfl := List.mem_singleton.mp member
  exact h.decided _ a cause (h.registered found active) phase

/-- The completion of an open registration. -/
theorem of_win (open_ : ∀ cause, a.phase ≠ .completed cause)
    (winner : events.filterMap Event.winner? = [(a.token, cause)])
    (issued : events.filterMap Event.issued? = [])
    (observed : events.filterMap Event.observed? = [])
    (readied : events.filterMap Event.readied? = events.filterMap Event.woke?)
    (sequence : w.nextSequence = t.wait.nextSequence)
    (done : w.active = none ∨ w.active = some { a with phase := .completed cause }) :
    WaitStepOk k id t w events := by
  obtain ⟨named, number⟩ := h.own id t a found active
  have new := h.undecided a.token a (h.registered found active) open_
  have after : ∀ b, w.active = some b → b = { a with phase := .completed cause } := by
    intro b present
    rcases done with none | some
    · rw [none] at present
      cases present
    · exact (Option.mem_unique some present).symm
  refine ⟨?_, sequence.ge, ?_, ?_, ?_, ?_, ?_, readied, ?_, .inl issued⟩
  · intro b present
    rw [after b present, sequence]
    exact ⟨named, number⟩
  · intro token cause' member
    rw [winner, List.mem_singleton] at member
    cases member
    exact ⟨named, (number.trans sequence.symm).le⟩
  · rw [winner, List.singleton_append, List.map_cons, List.nodup_cons]
    refine ⟨fun member => ?_, h.once⟩
    obtain ⟨⟨token, cause'⟩, old, same⟩ := List.mem_map.mp member
    obtain rfl : token = a.token := same
    exact new cause' old
  · intro b present openB
    rw [after b present] at openB
    exact absurd rfl (openB cause)
  · intro b cause' present phase
    rw [after b present] at phase ⊢
    cases phase
    rw [winner]
    exact List.mem_append_left _ (.head _)
  · rw [observed]
    exact fun _ => nofun
  · rw [issued]
    exact fun _ => nofun

end

end WaitStepOk

theorem WaitStep.ok {events : List Event} (h : WaitLog k) (found : k.find id = some t)
    (step : WaitStep id t.wait w events) : WaitStepOk k id t w events := by
  cases step with
  | @prepare cpu consumption free fits =>
    refine ⟨?_, Nat.le_succ _, fun _ _ => nofun, h.once, ?_, ?_, fun _ => nofun, rfl, ?_,
      .inr ⟨_, rfl⟩⟩
    · rintro _ ⟨⟩
      exact ⟨rfl, rfl⟩
    · rintro _ ⟨⟩ _ cause old
      have bound := h.won _ cause old
      rw [k.lastSequence_of_find found] at bound
      exact absurd bound (Nat.not_succ_le_self _)
    · rintro _ _ ⟨⟩ ⟨⟩
    · intro token member
      obtain rfl := List.mem_singleton.mp member
      exact ⟨rfl, Nat.lt_succ_self _, le_rfl⟩
  | commit prepared =>
    rcases t.wait.commit_cases prepared with stale | ⟨a, active, _, phase, block⟩ |
        ⟨a, cause, active, named, phase, early⟩
    · rw [stale]
      exact .of_same h found rfl rfl rfl rfl
    · rw [block]
      refine .of_silent h found rfl rfl rfl (fun _ => nofun) rfl ?_
      rintro _ ⟨⟩
      exact ⟨a, active, rfl, fun _ => by simp [phase]⟩
    · rw [early, ← named]
      exact .of_consumed h found active phase rfl rfl rfl rfl
  | @complete token cause asleep =>
    have quiet :
        [Event.completed token cause (t.wait.complete token cause).1].filterMap Event.woke? =
          [] := by
      revert asleep
      cases (t.wait.complete token cause).1 <;> simp [Event.woke?]
    rcases t.wait.complete_cases token cause with
      ⟨lost, same⟩ | ⟨a, active, rfl, open_, wins, sequence, done⟩
    · have loser : [Event.completed token cause (t.wait.complete token cause).1].filterMap
          Event.winner? = [] := by
        simp [Event.winner?, lost]
      rw [same]
      exact .of_same h found loser rfl quiet.symm rfl
    · have winner : [Event.completed a.token cause (t.wait.complete a.token cause).1].filterMap
          Event.winner? = [(a.token, cause)] := by
        simp [Event.winner?, wins]
      exact .of_win h found active open_ winner rfl rfl quiet.symm sequence
        (done.imp_left And.right)
  | @wake token cause woke =>
    rcases t.wait.complete_cases token cause with
      ⟨lost, _⟩ | ⟨a, active, rfl, open_, _, sequence, done⟩
    · rw [woke] at lost
      cases lost
    · exact .of_win h found active open_ rfl rfl rfl rfl sequence (done.imp_left And.right)
  | cancel prepared =>
    rcases t.wait.cancel_cases prepared with
      stale | cancelled | ⟨a, cause, active, named, phase, done⟩
    · rw [stale]
      exact .of_same h found rfl rfl rfl rfl
    · rw [cancelled]
      exact .of_silent h found rfl rfl rfl (fun _ => nofun) rfl fun _ => nofun
    · rw [done, ← named]
      exact .of_consumed h found active phase rfl rfl rfl rfl
  | finish token =>
    rcases t.wait.finish_cases token with ⟨error, failed⟩ | ⟨a, cause, active, named, phase, done⟩
    · rw [failed]
      exact .of_same h found rfl rfl rfl rfl
    · rw [done, ← named]
      exact .of_consumed h found active phase rfl rfl rfl rfl

theorem WaitLog.change (h : WaitLog k) (change : Change mode k k') : WaitLog k' := by
  rcases change.unwaited with ⟨id, t, w, events, found, step, rfl⟩ | unwaited
  · exact h.step found (step.ok h found)
  · exact h.unwaited unwaited

theorem WaitLog.sequence_le (h : WaitLog k) (change : Change mode k k') (i : Nat) :
    k.lastSequence i ≤ k'.lastSequence i := by
  rcases change.unwaited with ⟨id, t, w, events, found, step, rfl⟩ | unwaited
  · exact lastSequence_le_wait found (step.ok h found).sequence i
  · rw [unwaited.sequence]

theorem WaitLog.evolves (h : WaitLog k) (evolves : Evolves mode k k') :
    WaitLog k' ∧ ∀ i, k.lastSequence i ≤ k'.lastSequence i := by
  induction evolves with
  | refl => exact ⟨h, fun _ => le_rfl⟩
  | tail _ change ih => exact ⟨ih.1.change change,
      fun i => (ih.2 i).trans (ih.1.sequence_le change i)⟩

end Genrt
