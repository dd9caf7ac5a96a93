import Genrt.Evolution
import Genrt.Guarantees

/-!
# Exit, join and reap conserve results

Seen from one thread identity, the log is a repetition of the same life: the slot
is published, the thread exits with a code and its user resources, the slot is
released, and the code and the resources are handed to a joiner at most once.
Seen from a joiner, what was handed to it is what it has received from its joins,
and at most one result that it has not asked for yet.

Both accounts are kept by every elementary change under the conditions of the
scheduler invariant.
-/

namespace Genrt

open Effect Kernel Function

/-! ### The life of a thread in the log -/

/-- What the log says about a thread identity. -/
inductive Life where
  | absent
  | alive
  | exited (code : Nat) (user : Option UserThreadResources)
  | reclaimed (code : Nat) (user : Option UserThreadResources)
  | delivered
deriving DecidableEq

/-- The next entry for a thread identity, if it may follow. -/
def Event.advance (id : ThreadId) (life : Life) : Event → Option Life
  | .published named =>
    if named = id then
      match life with
      | .alive | .exited _ _ => none
      | _ => some .alive
    else some life
  | .exited named code user =>
    if named = id then if life = .alive then some (.exited code user) else none else some life
  | .released named =>
    if named = id then
      match life with
      | .exited code user => some (.reclaimed code user)
      | _ => none
    else some life
  | .handed named _ code user =>
    if named = id then if life = .reclaimed code user then some .delivered else none
    else some life
  | _ => some life

/-- The life of a thread identity, if its entries follow each other as they must:
a handover hands over what the thread exited with, after its slot was released
and before the slot is published again, and there is at most one. -/
def lifeOf (history : List Event) (id : ThreadId) : Option Life :=
  history.foldr (fun event life => life.bind fun life => event.advance id life) (some .absent)

/-- The code and the resources that were handed to a joiner. -/
def Event.handedTo? (joiner : ThreadId) : Event → Option (Nat × Option UserThreadResources)
  | .handed _ named code user => if named = joiner then some (code, user) else none
  | _ => none

/-- The code and the resources that a join returned. -/
def Event.received? (joiner : ThreadId) : Event → Option (Nat × Option UserThreadResources)
  | .joined named (.ok code) user => if named = joiner then some (code, user) else none
  | _ => none

/-- The results handed to a joiner, newest first. -/
def Kernel.handedTo (k : Kernel) (joiner : ThreadId) : List (Nat × Option UserThreadResources) :=
  k.history.filterMap (Event.handedTo? joiner)

/-- The results that a joiner received, newest first. -/
def Kernel.received (k : Kernel) (joiner : ThreadId) : List (Nat × Option UserThreadResources) :=
  k.history.filterMap (Event.received? joiner)

/-- The result that a thread has not asked for yet. -/
def Thread.undelivered (t : Thread) : List (Nat × Option UserThreadResources) :=
  match t.lastJoinResult with
  | some (.ok code) => [(code, t.reapedUser)]
  | _ => []

def Kernel.undelivered (k : Kernel) (joiner : ThreadId) : List (Nat × Option UserThreadResources) :=
  (k.find joiner).elim [] Thread.undelivered

/-! ### The account of one identity -/

/-- The log and the occupant of the slot tell the same. -/
def Life.Agrees : Life → Option Thread → Prop
  | .alive, some t => t.exitCode = none
  | .exited code user, some t => t.exitCode = some code ∧ t.user = user ∧ t.Consumed
  | .absent, none => True
  | .reclaimed _ _, none => True
  | .delivered, none => True
  | _, _ => False

structure Account (id : ThreadId) (history : List Event) (occupant : Option Thread) : Prop where
  life : ∃ life, lifeOf history id = some life ∧ life.Agrees occupant
  balance : history.filterMap (Event.handedTo? id) =
    occupant.elim [] Thread.undelivered ++ history.filterMap (Event.received? id)
  empty : ∀ t, occupant = some t → t.undelivered = [] → t.reapedUser = none

/-- An entry that is not about the identity. -/
structure Event.Foreign (id : ThreadId) (event : Event) : Prop where
  advance : ∀ life, event.advance id life = some life
  handed : event.handedTo? id = none
  received : event.received? id = none

variable {id : ThreadId} {event : Event}

theorem Event.Foreign.of_wait (wait : event.ofWait = true) : event.Foreign id := by
  cases event with
  | published => cases wait
  | exited => cases wait
  | released => cases wait
  | handed => cases wait
  | joined => cases wait
  | _ => exact ⟨fun _ => rfl, rfl, rfl⟩

theorem lifeOf_cons (history : List Event) (id : ThreadId) (event : Event) :
    lifeOf (event :: history) id = (lifeOf history id).bind fun life => event.advance id life := rfl

theorem Thread.Consumed.undelivered {t : Thread} (consumed : t.Consumed) : t.undelivered = [] := by
  rw [Thread.undelivered, consumed.1]

namespace Account

variable {id : ThreadId} {history : List Event} {occupant : Option Thread} {t : Thread}

theorem foreign (h : Account id history occupant) (other : event.Foreign id) :
    Account id (event :: history) occupant where
  life := by
    obtain ⟨life, known, agrees⟩ := h.life
    exact ⟨life, by rw [lifeOf_cons, known, Option.bind_some, other.advance], agrees⟩
  balance := by
    rw [List.filterMap_cons_none other.handed, List.filterMap_cons_none other.received, h.balance]
  empty := h.empty

variable {t' : Thread}

/-- Other fields of the thread change. -/
theorem edited (h : Account id history (some t)) (code : t'.exitCode = t.exitCode)
    (result : t'.lastJoinResult = t.lastJoinResult) (reaped : t'.reapedUser = t.reapedUser)
    (user : t.exitCode.isSome = true → t'.user = t.user) : Account id history (some t') where
  life := by
    obtain ⟨life, known, agrees⟩ := h.life
    refine ⟨life, known, ?_⟩
    cases life with
    | alive => exact code.trans agrees
    | exited =>
      obtain ⟨exited, owned, none, empty⟩ := agrees
      exact ⟨code.trans exited, (user (by rw [exited]; rfl)).trans owned, result.trans none,
        reaped.trans empty⟩
    | _ => exact agrees
  balance := by
    rw [h.balance]
    simp only [Option.elim_some, Thread.undelivered, result, reaped]
  empty u same undelivered := by
    cases same
    rw [reaped]
    refine h.empty t rfl ?_
    rw [← undelivered, Thread.undelivered, Thread.undelivered, result, reaped]

theorem exit (h : Account id history (some t)) (alive : t.exitCode = none) (consumed : t.Consumed)
    {code : Nat} (exited : t'.exitCode = some code) (user : t'.user = t.user)
    (result : t'.lastJoinResult = t.lastJoinResult) (reaped : t'.reapedUser = t.reapedUser) :
    Account id (.exited id code t.user :: history) (some t') where
  life := by
    obtain ⟨life, known, agrees⟩ := h.life
    refine ⟨.exited code t.user, ?_, exited, user, result.trans consumed.1, reaped.trans consumed.2⟩
    cases life with
    | alive => simp [lifeOf_cons, known, Event.advance]
    | exited =>
      rw [agrees.1] at alive
      cases alive
    | _ => exact agrees.elim
  balance := by
    have same : t'.undelivered = t.undelivered := by
      rw [Thread.undelivered, Thread.undelivered, result, reaped]
    rw [List.filterMap_cons_none rfl, List.filterMap_cons_none rfl, h.balance, Option.elim_some,
      Option.elim_some, same]
  empty u same _ := by
    cases same
    exact reaped.trans consumed.2

theorem publish (h : Account id history none) (alive : t.exitCode = none) (consumed : t.Consumed) :
    Account id (.published id :: history) (some t) where
  life := by
    obtain ⟨life, known, agrees⟩ := h.life
    refine ⟨.alive, ?_, alive⟩
    cases life with
    | alive => exact agrees.elim
    | exited => exact agrees.elim
    | _ => simp [lifeOf_cons, known, Event.advance]
  balance := by
    rw [List.filterMap_cons_none rfl, List.filterMap_cons_none rfl, h.balance, Option.elim_some,
      consumed.undelivered, Option.elim_none]
  empty u same _ := by
    cases same
    exact consumed.2

variable {code : Nat}

section

variable (h : Account id history (some t)) (exited : t.exitCode = some code)

include h exited

/-- The life of a thread that has exited. -/
theorem life_exited : lifeOf history id = some (.exited code t.user) ∧ t.Consumed := by
  obtain ⟨life, known, agrees⟩ := h.life
  cases life with
  | alive => cases exited.symm.trans agrees
  | exited code' user =>
    obtain ⟨exited', rfl, consumed⟩ := agrees
    obtain rfl := Option.mem_unique exited exited'
    exact ⟨known, consumed⟩
  | _ => exact agrees.elim

theorem release : Account id (.released id :: history) none where
  life := by
    refine ⟨.reclaimed code t.user, ?_, trivial⟩
    simp [lifeOf_cons, (h.life_exited exited).1, Event.advance]
  balance := by
    rw [List.filterMap_cons_none rfl, List.filterMap_cons_none rfl, h.balance, Option.elim_some,
      (h.life_exited exited).2.undelivered, Option.elim_none]
  empty _ absent := by cases absent

/-- The target of a handover. -/
theorem handOver {joiner : ThreadId} (apart : joiner ≠ id) :
    Account id (.handed id joiner code t.user :: .released id :: history) none where
  life := by
    refine ⟨.delivered, ?_, trivial⟩
    simp [lifeOf_cons, (h.life_exited exited).1, Event.advance]
  balance := by
    have skipped : Event.handedTo? id (.handed id joiner code t.user) = none := if_neg apart
    rw [List.filterMap_cons_none skipped, List.filterMap_cons_none rfl]
    exact (h.release exited).balance
  empty _ absent := by cases absent

end

/-- The joiner of a handover. -/
theorem receive (h : Account id history (some t)) (alive : t.exitCode = none)
    (consumed : t.Consumed) {target : ThreadId} {user : Option UserThreadResources}
    (apart : target ≠ id)
    (same : t' = { t with lastJoinResult := some (.ok code), reapedUser := user }) :
    Account id (.handed target id code user :: history) (some t') where
  life := by
    obtain ⟨life, known, agrees⟩ := h.life
    have other : Event.advance id life (.handed target id code user) = some life := if_neg apart
    refine ⟨life, by rw [lifeOf_cons, known, Option.bind_some, other], ?_⟩
    subst same
    cases life with
    | alive => exact alive
    | exited =>
      rw [agrees.1] at alive
      cases alive
    | _ => exact agrees.elim
  balance := by
    have given : Event.handedTo? id (.handed target id code user) = some (code, user) := if_pos rfl
    rw [List.filterMap_cons_some given, List.filterMap_cons_none rfl, h.balance, Option.elim_some,
      consumed.undelivered]
    subst same
    rfl
  empty u eq none := by
    cases eq
    subst same
    cases none

theorem refuse (h : Account id history (some t)) (alive : t.exitCode = none) (consumed : t.Consumed)
    {error : JoinError} (same : t' = { t with lastJoinResult := some (.error error) }) :
    Account id history (some t') where
  life := by
    obtain ⟨life, known, agrees⟩ := h.life
    refine ⟨life, known, ?_⟩
    subst same
    cases life with
    | alive => exact alive
    | exited =>
      rw [agrees.1] at alive
      cases alive
    | _ => exact agrees.elim
  balance := by
    rw [h.balance, Option.elim_some, consumed.undelivered]
    subst same
    rfl
  empty u eq _ := by
    cases eq
    subst same
    exact consumed.2

/-- A thread asks for its result. -/
theorem take (h : Account id history (some t)) {result : Except JoinError Nat}
    (present : t.lastJoinResult = some result)
    (same : t' = { t with lastJoinResult := none, reapedUser := none }) :
    Account id (.joined id result t.reapedUser :: history) (some t') where
  life := by
    obtain ⟨life, known, agrees⟩ := h.life
    refine ⟨life, by rw [lifeOf_cons, known]; rfl, ?_⟩
    subst same
    cases life with
    | alive => exact agrees
    | exited => exact ⟨agrees.1, agrees.2.1, rfl, rfl⟩
    | _ => exact agrees.elim
  balance := by
    subst same
    rw [List.filterMap_cons_none rfl, h.balance, Option.elim_some, Thread.undelivered, present]
    cases result with
    | error => rw [List.filterMap_cons_none rfl]; rfl
    | ok code =>
      have given : Event.received? id (.joined id (.ok code) t.reapedUser) =
        some (code, t.reapedUser) := if_pos rfl
      rw [List.filterMap_cons_some given]
      rfl
  empty u eq _ := by
    cases eq
    subst same
    rfl

end Account

/-! ### The ledger of all identities -/

structure Ledger (k : Kernel) : Prop where
  account : ∀ id, Account id k.history (k.find id)
  refused : ∀ joiner error user, .joined joiner (.error error) user ∈ k.history → user = none

namespace Ledger

variable {mode : Mode} {k k' : Kernel}

theorem of_empty (slots : k.slots = []) (history : k.history = []) : Ledger k := by
  have absent : ∀ id, k.find id = none := by
    intro id
    rw [find, ThreadTable.get]
    rw [Kernel.slots] at slots
    rw [slots]
    rfl
  constructor
  · intro id
    rw [absent, history]
    exact ⟨⟨.absent, rfl, trivial⟩, rfl, fun t absent => by cases absent⟩
  · rw [history]
    rintro _ _ _ ⟨⟩

section

variable (h : Ledger k)

include h

/-- Entries about no identity, as those of wait operations. -/
theorem silent {events : List Event} (waits : ∀ event ∈ events, event.ofWait = true) :
    Ledger (k.logAll events) where
  account id := by
    induction events with
    | nil => exact h.account id
    | cons event rest ih =>
      exact (ih fun later member => waits later (.tail _ member)).foreign
        (.of_wait (waits event (.head _)))
  refused joiner error user logged := by
    rcases List.mem_append.mp logged with new | old
    · cases waits _ new
    · exact h.refused joiner error user old

/-- One thread changes in what its account does not tell. -/
theorem edited {t : Thread} {f : Thread → Thread} (found : k.find id = some t)
    (account : Account id k.history (some t) → Account id k.history (some (f t))) :
    Ledger (k.modifyThread id.index f) where
  account other := by
    change Account other k.history _
    by_cases same : other = id
    · subst same
      rw [find_modifyThread_self found]
      exact account (found ▸ h.account other)
    · rw [find_modifyThread_other found same]
      exact h.account other
  refused := h.refused

/-- One identity gets an entry, and its thread changes with it. -/
theorem logged (id : ThreadId) {after : Kernel} (history : after.history = event :: k.history)
    (others : ∀ other, other ≠ id → after.find other = k.find other)
    (account : Account id (event :: k.history) (after.find id))
    (foreign : ∀ other, other ≠ id → event.Foreign other)
    (refused : ∀ joiner error user, event = .joined joiner (.error error) user → user = none) :
    Ledger after where
  account other := by
    rw [history]
    by_cases same : other = id
    · exact same ▸ account
    · rw [others other same]
      exact (h.account other).foreign (foreign other same)
  refused joiner error user logged := by
    rw [history] at logged
    rcases List.mem_cons.mp logged with new | old
    · exact refused joiner error user new.symm
    · exact h.refused joiner error user old

/-- A handover concerns the thread and its joiner. -/
theorem handedOver {joiner : ThreadId} {t j : Thread} {code : Nat} (found : k.find id = some t)
    (waiting : k.find joiner = some j) (apart : id ≠ joiner) (exited : t.exitCode = some code)
    (alive : j.exitCode = none) (consumed : j.Consumed) :
    Ledger (k.handedOver id t joiner code) := by
  have live : (k.reaped id t).find joiner = some j := by
    rw [find_reaped found, update_of_ne apart.symm, waiting]
  have finds : (k.handedOver id t joiner code).find = update (k.reaped id t).find joiner
      (some { j with lastJoinResult := some (.ok code), reapedUser := t.user }) :=
    find_modifyThread_eq live
  have history : (k.handedOver id t joiner code).history =
      .handed id joiner code t.user :: .released id :: k.history := rfl
  refine ⟨fun other => ?_, fun other error user logged => ?_⟩
  · have released : other ≠ id → Event.Foreign other (.released id) :=
      fun apart => ⟨fun _ => if_neg apart.symm, rfl, rfl⟩
    rw [history, finds]
    by_cases target : other = id
    · subst target
      rw [update_of_ne apart, find_reaped found, update_self]
      exact (found ▸ h.account other).handOver exited apart.symm
    · by_cases given : other = joiner
      · subst given
        rw [update_self]
        exact ((waiting ▸ h.account other).foreign (released target)).receive alive consumed apart
          rfl
      · rw [update_of_ne given, find_reaped found, update_of_ne target]
        exact ((h.account other).foreign (released target)).foreign
          ⟨fun _ => if_neg (Ne.symm target), if_neg (Ne.symm given), rfl⟩
  · rw [history] at logged
    rcases List.mem_cons.mp logged with new | logged
    · cases new
    · rcases List.mem_cons.mp logged with new | old
      · cases new
      · exact h.refused other error user old

theorem change (change : Change mode k k') (strict : mode.strict = true) : Ledger k' := by
  cases change with
  | aside slots history _ =>
    refine ⟨fun id => ?_, ?_⟩
    · rw [history, find_of_slots slots]
      exact h.account id
    · rw [history]
      exact h.refused
  | edit f found edited =>
    exact h.edited found fun account =>
      account.edited edited.code edited.result edited.reaped (edited.user strict)
  | wait found step =>
    exact (h.edited found fun account => account.edited rfl rfl rfl fun _ => rfl).silent
      step.ofWait
  | @missed event missed =>
    have waits : ∀ other ∈ [event], other.ofWait = true := fun other member =>
      List.mem_singleton.mp member ▸ missed.ofWait
    exact h.silent waits
  | @exit id t code allowed found alive =>
    obtain ⟨live, consumed⟩ := alive strict
    refine h.logged id rfl (fun other apart => find_modifyThread_other found apart) ?_
      (fun other apart => ⟨fun _ => if_neg apart.symm, rfl, rfl⟩) (fun _ _ _ => nofun)
    have after : ((k.modifyThread id.index fun t =>
        { t with exitCode := some code, state := .exited }).log (.exited id code t.user)).find id =
        some { t with exitCode := some code, state := .exited } := find_modifyThread_self found
    rw [after]
    exact (found ▸ h.account id).exit live consumed rfl rfl rfl rfl
  | @publish index slot t generation allowed present free wait code consumed next =>
    have finds : ((k.modifySlot index fun slot => { slot with
        generation := generation, stack := none, thread := some t }).log
          (.published ⟨index, generation⟩)).find =
        update k.find ⟨index, generation⟩ (some t) :=
      find_occupy present free rfl rfl
    have vacant : k.find ⟨index, generation⟩ = none :=
      find_eq_none_of_free present free rfl
    refine h.logged ⟨index, generation⟩ rfl (fun other apart => ?_) ?_
      (fun other apart => ⟨fun _ => if_neg apart.symm, rfl, rfl⟩) (fun _ _ _ => nofun)
    · rw [finds, update_of_ne apart]
    · rw [finds, update_self]
      exact (vacant ▸ h.account ⟨index, generation⟩).publish code consumed
  | @reap id t allowed found free exited =>
    obtain ⟨code, exited⟩ := Option.isSome_iff_exists.mp (exited strict).1
    refine h.logged id rfl (fun other apart => ?_) ?_
      (fun other apart => ⟨fun _ => if_neg apart.symm, rfl, rfl⟩) (fun _ _ _ => nofun)
    · rw [find_reaped found, update_of_ne apart]
    · rw [find_reaped found, update_self]
      exact (found ▸ h.account id).release exited
  | @hand id joiner t j code allowed found waiting apart free exited =>
    obtain ⟨exited, alive, consumed⟩ := exited strict
    exact h.handedOver found waiting apart exited alive consumed
  | @refuse id t error allowed found consumed alive =>
    exact h.edited found fun account => account.refuse (alive strict) consumed rfl
  | @take id named t result allowed found named_eq present =>
    obtain rfl := named_eq strict
    refine h.logged named rfl (fun other apart => find_modifyThread_other found apart)
      ?_ (fun other apart => ⟨fun _ => rfl, rfl, ?_⟩) (fun joiner error user eq => ?_)
    · have after : ((k.modifyThread named.index fun t =>
          { t with lastJoinResult := none, reapedUser := none }).log
            (.joined named result t.reapedUser)).find named =
          some { t with lastJoinResult := none, reapedUser := none } :=
        find_modifyThread_self found
      rw [after]
      exact (found ▸ h.account named).take present rfl
    · cases result with
      | error => rfl
      | ok => exact if_neg apart.symm
    · cases eq
      refine (h.account named).empty t found ?_
      rw [Thread.undelivered, present]
  | grow allowed index =>
    refine ⟨fun id => ?_, h.refused⟩
    have same : (k.setSlots (k.scheduler.lifecycle.slots ++ [.free index])).find id = k.find id :=
      congrFun find_appendFree id
    rw [same]
    exact h.account id

theorem evolves (changed : Evolves mode k k') (strict : mode.strict = true) : Ledger k' := by
  induction changed with
  | refl => exact h
  | tail _ change ih => exact ih.change change strict

end

end Ledger

/-! ### A join that comes second -/

/-- A join of a thread that has a joiner or is gone is told an error, and gets no
resources. -/
theorem wp_joinThread_claimed {k : Kernel} {c : CpuId} {target : ThreadId} (h : Steady c k)
    (online : (k.cpu c).online = true) (claimed : k.Claimed target) :
    WP Contract (joinThread c target) (fun _ k' => ∃ id t error, (k.cpu c).current = some id ∧
      k'.find id = some t ∧ t.lastJoinResult = some (.error error) ∧ t.reapedUser = none) k := by
  rw [joinThread, wp_bind]
  refine (wp_transitionFinalizeRetired h online).mono fun _ k₁ done => ?_
  obtain ⟨finalized, steady⟩ := done
  rw [wp_bind, wp_runningThread]
  refine .orStop (fun _ => rfl) fun id running => ?_
  obtain ⟨t, found, _, _⟩ := steady.toCoherent.find_current running
  have slot := threadAt_of_find found
  rw [wp_bind, wp_thread slot]
  refine .stopIf (fun _ => rfl) fun consumed => ?_
  have unreaped : t.reapedUser = none := by
    by_contra some
    exact consumed (Or.inr (Option.isSome_iff_ne_none.mpr some))
  have before : (k.cpu c).current = some id := by
    rw [finalized.cpu] at running
    exact running
  rw [wp_bind, wp_get]
  cases refusal : k₁.joinRefusal c id target with
  | some error =>
    rw [wp_bind, setJoinResult, wp_threadMut slot]
    exact ⟨id, _, error, before, find_modifyThread_self found, rfl, unreaped⟩
  | none =>
    obtain ⟨v, live, _, free, _⟩ := joinRefusal_none refusal
    exact absurd free (finalized.claimed target claimed v live)

namespace System

variable {s : System}

theorem ledger_of_reachable (reached : machine.Reachable s) : Ledger s.kernel := by
  induction reached with
  | initial start =>
    obtain ⟨config, _, k, boot, rfl⟩ := start
    obtain ⟨scheduler, made, evolves⟩ := Evolves.of_bootstrap boot
    exact (Ledger.of_empty (slots_preBoot made) rfl).evolves evolves rfl
  | @step s t action reached taken ledger =>
    have evolves := ((Action.traced (sound_of_reachable reached) taken.1).of_ok taken.2).1
    have strict : action.mode.strict = true := by
      cases action <;> rfl
    exact ledger.evolves evolves strict

/-- A current or retired thread keeps its slot, with the slot's stack. -/
theorem slot_kept {k : Kernel} (coherent : Coherent k) {c : CpuId}
    (held : (k.cpu c).current = some id ∨ (k.cpu c).retired = some id) :
    ∃ slot t, k.slots[id.index]? = some slot ∧ slot.generation = id.generation ∧
      slot.thread = some t ∧ slot.stack = none := by
  have live : ∃ t, k.find id = some t := by
    rcases held with current | retired
    · obtain ⟨t, found, _⟩ := coherent.find_current current
      exact ⟨t, found⟩
    · obtain ⟨_, t, found, _⟩ := coherent.valid.retired c id retired
      exact ⟨t, found⟩
  obtain ⟨t, found⟩ := live
  obtain ⟨slot, present, named, occupied⟩ := find_eq_some.mp found
  refine ⟨slot, t, present, named, occupied, ?_⟩
  by_contra stack
  have free := (coherent.table.stack id.index slot present).mpr stack
  cases free.symm.trans occupied

/-- In every reachable state: each identity's log entries follow its life, so what
a thread exited with is handed over at most once and after its slot was released;
what was handed to a joiner is what its joins returned and at most one result it
has yet to take; failed joins return no resources, and a join of a thread that
has a joiner or is gone fails; threads that are current or retired keep their
slots; and the free list is exact. -/
theorem exit_join_conserve (reached : machine.Reachable s) :
    (∀ id, ∃ life, lifeOf s.kernel.history id = some life) ∧
    (∀ id t code, s.kernel.find id = some t → t.exitCode = some code →
      lifeOf s.kernel.history id = some (.exited code t.user)) ∧
    (∀ joiner, s.kernel.handedTo joiner = s.kernel.undelivered joiner ++ s.kernel.received joiner) ∧
    (∀ joiner error user, .joined joiner (.error error) user ∈ s.kernel.history → user = none) ∧
    (∀ c target t, s.kernel.Claimed target → machine.step s (.threadJoin c target) t →
      ∃ id thread error, (s.kernel.cpu c).current = some id ∧ t.kernel.find id = some thread ∧
        thread.lastJoinResult = some (.error error) ∧ thread.reapedUser = none) ∧
    (∀ c id, (s.kernel.cpu c).current = some id ∨ (s.kernel.cpu c).retired = some id →
      ∃ slot thread, s.kernel.slots[id.index]? = some slot ∧ slot.generation = id.generation ∧
        slot.thread = some thread ∧ slot.stack = none) ∧ s.kernel.freeSlots.Nodup ∧
    (∀ i, i ∈ s.kernel.freeSlots ↔ ∃ slot, s.kernel.slots[i]? = some slot ∧ slot.thread = none) ∧
    ∀ (i : Nat) slot, s.kernel.slots[i]? = some slot → slot.thread = none → slot.stack ≠ none := by
  have sound := sound_of_reachable reached
  have ledger := ledger_of_reachable reached
  have table := sound.coherent.table
  refine ⟨fun id => ?_, fun id t code found exited => ?_,
    fun joiner => (ledger.account joiner).balance, ledger.refused, ?_,
    fun c id => slot_kept sound.coherent, table.freeNodup, table.freeIff,
    fun i slot present => (table.stack i slot present).mp⟩
  · obtain ⟨life, known, _⟩ := (ledger.account id).life
    exact ⟨life, known⟩
  · exact ((found ▸ ledger.account id).life_exited exited).1
  · rintro c target t claimed ⟨enabled, run⟩
    have spec := wp_joinThread_claimed (sound.steady enabled.2) enabled.1 claimed
    have told : WP Contract (Action.threadJoin c target).run (fun _ t => ∃ id thread error,
        (s.kernel.cpu c).current = some id ∧ t.kernel.find id = some thread ∧
          thread.lastJoinResult = some (.error error) ∧ thread.reapedUser = none) s :=
      wp_discard (wp_onKernel.mpr spec)
    exact told.of_ok run

/-- The thread spawns another one, joins it and takes its code. -/
def spawnAndJoin : List Action :=
  [.enterRunningThread 0, .threadSpawn 0 ⟨true, .current⟩, .threadJoin 0 ⟨4, 1⟩, .threadExit 0 7,
    .schedulerIpi 0, .finishWait 0 ⟨⟨1, 1⟩, 0, 1⟩, .takeJoinResult 0]

theorem exit_join_conserve_joined : ∃ s, machine.Reachable s ∧
    s.kernel.received ⟨1, 1⟩ = [(7, none)] ∧
    s.kernel.handedTo ⟨1, 1⟩ = s.kernel.undelivered ⟨1, 1⟩ ++ [(7, none)] := by
  obtain ⟨s, run, shown⟩ := exists_played .twoCpus spawnAndJoin
    (fun s => decide (s.kernel.received ⟨1, 1⟩ = [(7, none)])) ⟨by decide, by decide⟩
    (by decide +kernel)
  have reached := reachable_of_started run
  have received := of_decide_eq_true shown
  refine ⟨s, reached, received, ?_⟩
  rw [(exit_join_conserve reached).2.2.1 ⟨1, 1⟩, received]

/-- No join is left behind. A registered joiner is blocked in the wait that it registered and
has no result yet, it is registered with one thread, and once that thread has exited an
interrupt is on its way to the processor that is going to hand it over. -/
theorem joins_not_stranded (reached : machine.Reachable s) {token : WaitToken}
    (registered : s.kernel.joinerOf id = some token) :
    (∃ j, s.kernel.find token.thread = some j ∧ Joining j token) ∧
    (∀ other, s.kernel.joinerOf other = some token → other = id) ∧
    ∃ t, s.kernel.find id = some t ∧ t.joinable = true ∧
      (t.state = .exited → (s.kernel.cpu t.homeCpu).retired = some id ∧
        s.ipisHandled t.homeCpu < s.kernel.ipisSent t.homeCpu) := by
  have sound := sound_of_reachable reached
  have join := sound.coherent.join
  obtain ⟨t, found, joiner⟩ := Option.bind_eq_some_iff.mp registered
  refine ⟨join.joining id token registered,
    fun other same => join.unique other id token same registered, t, found, ?_, fun exited => ?_⟩
  · by_contra detached
    have none := ((sound.coherent.thread id t found).detached (by simpa using detached)).2
    rw [none] at joiner
    cases joiner
  · have retired := join.retired id t found exited (by rw [joiner]; exact Option.some_ne_none _)
    have work : (s.kernel.cpu t.homeCpu).retired ≠ none := by
      rw [retired]
      exact Option.some_ne_none _
    exact ⟨retired, sound.notified _ ((sound.coherent.cpu _).notified (.inr work))⟩

theorem joins_not_stranded_exited : ∃ s t, machine.Reachable s ∧
    s.kernel.joinerOf ⟨4, 1⟩ = some ⟨⟨1, 1⟩, 0, 1⟩ ∧ s.kernel.find ⟨4, 1⟩ = some t ∧
    t.state = .exited ∧ (s.kernel.cpu t.homeCpu).retired = some ⟨4, 1⟩ ∧
    s.ipisHandled t.homeCpu < s.kernel.ipisSent t.homeCpu := by
  obtain ⟨s, run, shown⟩ := exists_played .twoCpus (spawnAndJoin.take 4)
    (fun s => decide (s.kernel.joinerOf ⟨4, 1⟩ = some ⟨⟨1, 1⟩, 0, 1⟩) &&
      (s.kernel.find ⟨4, 1⟩).any fun t : Thread => decide (t.state = .exited))
    ⟨by decide, by decide⟩ (by decide +kernel)
  simp only [Bool.and_eq_true, decide_eq_true_eq, Option.any_eq_true] at shown
  obtain ⟨joiner, t, found, exited⟩ := shown
  have reached := reachable_of_started run
  obtain ⟨-, -, u, same, -, pending⟩ := joins_not_stranded reached joiner
  obtain rfl := Option.mem_unique found same
  exact ⟨s, t, reached, joiner, found, exited, pending exited⟩

end System

end Genrt
