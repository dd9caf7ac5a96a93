import Genrt.Console.Stdin

/-!
# Standard input is delivered once

The slot for the one sleeping reader goes through four states: it is free, a token
is registered, a byte has taken the token and its handler has still to complete
the wait, or the wait is completed and the reader has not read again yet. In each
of them all other readers are without a wait, so nobody can be woken by a token
that is not theirs, and no reader can consume a wait before its completion.
-/

namespace Genrt

open WaitMetadata Function

namespace Reader

variable {reader : Reader} {token : WaitToken}

/-- The reader has nothing to do with the slot; at most it still has to consume a
completed wait whose token it took. -/
inductive Quiet (reader : Reader) : Prop where
  | user (pc : reader.pc = .user) (active : reader.wait.active = none)
  | reading {length : Nat} {again : Bool} (pc : reader.pc = .reading length again)
      (active : reader.wait.active = none)
  | blocking {length : Nat} (pc : reader.pc = .blocking length) (active : reader.wait.active = none)
  | finishing {length : Nat} {again : Bool} {token : WaitToken} {taken : List UInt8}
      (pc : reader.pc = .finishing length again token taken)
      (active : reader.wait.active = none ∨
        ∃ cause, reader.wait.active = some ⟨token, .completed cause, .explicit⟩)

/-- The reader waits for the token. -/
inductive Open (reader : Reader) (token : WaitToken) : Prop where
  | committing {length : Nat} (pc : reader.pc = .committing length ⟨token, .explicit⟩)
      (active : reader.wait.active = some ⟨token, .prepared, .explicit⟩)
  | blocked {length : Nat} (pc : reader.pc = .blocked length token)
      (active : reader.wait.active = some ⟨token, .blocked, .explicit⟩)

/-- The wait for the token is over, and the reader goes on to read again. -/
inductive Done (reader : Reader) (token : WaitToken) : Prop where
  | committing {length : Nat} {cause : WaitCause}
      (pc : reader.pc = .committing length ⟨token, .explicit⟩)
      (active : reader.wait.active = some ⟨token, .completed cause, .explicit⟩)
  | blocked {length : Nat} {cause : WaitCause} (pc : reader.pc = .blocked length token)
      (active : reader.wait.active = some ⟨token, .completed cause, .explicit⟩)
  | reading {length : Nat} {again : Bool} (pc : reader.pc = .reading length again)
      (active : reader.wait.active = none ∨
        ∃ cause, reader.wait.active = some ⟨token, .completed cause, .explicit⟩)

/-- The reader is at a place where it has no part in the slot. -/
def outside (reader : Reader) : Bool :=
  match reader.pc with
  | .user | .blocking _ | .finishing _ _ _ _ => true
  | _ => false

theorem Open.inside (held : reader.Open token) : reader.outside = false := by
  cases held with
  | committing pc | blocked pc => rw [outside, pc]

theorem Done.inside (held : reader.Done token) : reader.outside = false := by
  cases held with
  | committing pc | blocked pc | reading pc => rw [outside, pc]

theorem Quiet.unregistered (quiet : reader.Quiet)
    (settled : ∀ length again token taken, reader.pc ≠ .finishing length again token taken) :
    reader.wait.active = none := by
  cases quiet with
  | user _ active | reading _ active | blocking _ active => exact active
  | finishing pc _ => exact absurd pc (settled _ _ _ _)

end Reader

namespace Stdin

variable {s t : Stdin} {id : ThreadId} {token : WaitToken} {reader : Reader} {length : Nat}
  {again : Bool}

/-- The ring is empty as it was at the last registration, and no byte came since. -/
def Unfed (s : Stdin) : Prop :=
  s.rx.ring.contents = [] ∧ s.registeredWith = [] ∧ s.accepted.length = s.registeredAt

/-- The slot of the sleeping reader. -/
inductive Slot (s : Stdin) : Prop where
  | free (waiter : s.rx.waiter = none) (completed : s.rx.completed = none)
      (notifying : s.notifying = []) (quiet : ∀ id, (s.readers id).Quiet)
  | registered (token : WaitToken) (waiter : s.rx.waiter = some token)
      (completed : s.rx.completed = none) (notifying : s.notifying = []) (unfed : s.Unfed)
      (held : (s.readers token.thread).Open token)
      (quiet : ∀ id, id ≠ token.thread → (s.readers id).Quiet)
  | taken (token : WaitToken) (waiter : s.rx.waiter = none)
      (completed : s.rx.completed = some token) (notifying : s.notifying = [token])
      (held : (s.readers token.thread).Open token)
      (quiet : ∀ id, id ≠ token.thread → (s.readers id).Quiet)
  | completed (token : WaitToken) (waiter : s.rx.waiter = none)
      (completed : s.rx.completed = some token) (notifying : s.notifying = [])
      (held : (s.readers token.thread).Done token)
      (quiet : ∀ id, id ≠ token.thread → (s.readers id).Quiet)

/-- The bytes, and the slot. -/
structure Delivery (s : Stdin) : Prop where
  ring : s.rx.ring.WellFormed
  capacity : s.rx.ring.capacity = stdinRxCapacity
  balance : s.taken ++ s.rx.ring.contents = s.accepted
  slot : Slot s

/-! ### Readers that do not wait -/

/-- The slot belongs to other readers. -/
def Apart (s : Stdin) (id : ThreadId) : Prop :=
  ∀ token, (s.readers id).Open token ∨ s.rx.completed = some token ∧ (s.readers id).Done token →
    token.thread ≠ id

theorem Quiet.update (quiet : ∀ other, other ≠ id → (s.readers other).Quiet)
    (readers : t.readers = update s.readers id reader) (after : reader.Quiet) :
    ∀ other, (t.readers other).Quiet := by
  intro other
  rw [readers, update_apply]
  split
  · exact after
  · next apart => exact quiet other apart

theorem Quiet.update_apart {holder : ThreadId}
    (quiet : ∀ other, other ≠ holder → (s.readers other).Quiet)
    (readers : t.readers = Function.update s.readers id reader) (after : reader.Quiet) :
    ∀ other, other ≠ holder → (t.readers other).Quiet := by
  intro other apart
  rw [readers, update_apply]
  split
  · exact after
  · exact quiet other apart

/-- A reader outside the slot goes on. -/
theorem Slot.step (slot : Slot s) (readers : t.readers = update s.readers id reader)
    (waiter : t.rx.waiter = s.rx.waiter) (completed : t.rx.completed = s.rx.completed)
    (notifying : t.notifying = s.notifying) (unfed : s.Unfed → t.Unfed)
    (apart : s.Apart id) (after : reader.Quiet) : Slot t := by
  have other : ∀ {token : WaitToken}, token.thread ≠ id →
      t.readers token.thread = s.readers token.thread := by
    intro token apart
    rw [readers, update_of_ne apart]
  cases slot with
  | free free none idle quiet =>
    exact .free (waiter.trans free) (completed.trans none) (notifying.trans idle)
      (Quiet.update (fun other _ => quiet other) readers after)
  | registered token held none idle fed sleeps quiet =>
    have away : token.thread ≠ id := by
      intro own
      exact apart token (.inl (own ▸ sleeps)) own
    refine .registered token (waiter.trans held) (completed.trans none) (notifying.trans idle)
      (unfed fed) ?_ (Quiet.update_apart quiet readers after)
    rw [other away]
    exact sleeps
  | taken token free held idle sleeps quiet =>
    have away : token.thread ≠ id := by
      intro own
      exact apart token (.inl (own ▸ sleeps)) own
    refine .taken token (waiter.trans free) (completed.trans held) (notifying.trans idle) ?_
      (Quiet.update_apart quiet readers after)
    rw [other away]
    exact sleeps
  | completed token free held idle woken quiet =>
    have away : token.thread ≠ id := by
      intro own
      exact apart token (.inr ⟨held, own ▸ woken⟩) own
    refine .completed token (waiter.trans free) (completed.trans held) (notifying.trans idle) ?_
      (Quiet.update_apart quiet readers after)
    rw [other away]
    exact woken

theorem Slot.quiet (slot : Slot s) (apart : s.Apart id) : (s.readers id).Quiet := by
  cases slot with
  | free _ _ _ quiet => exact quiet id
  | registered token _ _ _ _ held quiet | taken token _ _ _ held quiet =>
    exact quiet id fun own => apart token (.inl (own ▸ held)) own.symm
  | completed token _ done _ held quiet =>
    exact quiet id fun own => apart token (.inr ⟨done, own ▸ held⟩) own.symm

theorem apart_of_outside (outside : (s.readers id).outside = true) : s.Apart id := by
  rintro token (held | ⟨_, held⟩) <;> cases outside.symm.trans held.inside

section

variable (h : Delivery s)

include h

/-- A reader outside the slot goes on, and the ring stays as it is. -/
theorem Delivery.step (apart : s.Apart id) (readers : t.readers = update s.readers id reader)
    (rx : t.rx = s.rx) (notifying : t.notifying = s.notifying) (accepted : t.accepted = s.accepted)
    (taken : t.taken = s.taken) (with' : t.registeredWith = s.registeredWith)
    (at' : t.registeredAt = s.registeredAt) (after : reader.Quiet) : Delivery t := by
  refine ⟨rx ▸ h.ring, rx ▸ h.capacity, ?_, ?_⟩
  · rw [taken, rx, accepted]
    exact h.balance
  · refine h.slot.step readers (by rw [rx]) (by rw [rx]) notifying ?_ apart after
    rintro ⟨empty, first, since⟩
    exact ⟨rx ▸ empty, with' ▸ first, by rw [accepted, since, at']⟩

/-- A read returns, or goes on to wait. -/
theorem Delivery.afterRead (apart : s.Apart id) (active : (s.readers id).wait.active = none)
    (length : Nat) (again : Bool) (taken : List UInt8) :
    Delivery (s.afterRead id length again taken) := by
  unfold Stdin.afterRead
  split
  · exact h.step apart rfl rfl rfl rfl rfl rfl rfl (.user rfl active)
  · split
    · exact h.step apart rfl rfl rfl rfl rfl rfl rfl (.user rfl active)
    · exact h.step apart rfl rfl rfl rfl rfl rfl rfl (.blocking rfl active)

theorem Delivery.sysReadStdin (pc : (s.readers id).pc = .user) (count : Nat) (writable : Bool) :
    Delivery (s.sysReadStdin id count writable) := by
  have apart : s.Apart id := apart_of_outside (by rw [Reader.outside, pc])
  have active := (h.slot.quiet apart).unregistered (by rw [pc]; nofun)
  unfold Stdin.sysReadStdin
  split
  · exact h.step apart rfl rfl rfl rfl rfl rfl rfl (.user rfl active)
  · split
    · exact h.step apart rfl rfl rfl rfl rfl rfl rfl (.reading rfl active)
    · exact h.step apart rfl rfl rfl rfl rfl rfl rfl (.user rfl active)

theorem Delivery.waitElsewhere (moved : s.waitElsewhere id = some t) : Delivery t := by
  unfold Stdin.waitElsewhere at moved
  dsimp only at moved
  split at moved
  · next pc =>
    cases moved
    have apart : s.Apart id := apart_of_outside (by rw [Reader.outside, pc])
    have active := (h.slot.quiet apart).unregistered (by rw [pc]; nofun)
    exact h.step apart rfl rfl rfl rfl rfl rfl rfl (.user pc active)
  · cases moved

/-- A token that was taken names a completed wait, or one that is gone. -/
theorem Delivery.finishRead {taken : List UInt8}
    (pc : (s.readers id).pc = .finishing length again token taken) :
    ∃ t, s.finishRead id length again token taken = .ok t ∧ Delivery t := by
  have apart : s.Apart id := apart_of_outside (by rw [Reader.outside, pc])
  have finished : ∃ outcome, outcome ≠ .error .notCompleted ∧
      (s.readers id).wait.finish token =
        (outcome, { (s.readers id).wait with active := none }) := by
    cases h.slot.quiet apart with
    | user pc' _ | reading pc' _ | blocking pc' _ => cases pc.symm.trans pc'
    | finishing pc' active =>
      cases pc.symm.trans pc'
      rcases active with none | ⟨cause, completed⟩
      · exact ⟨.error .stale, by simp, by simp only [finish, none]; rw [← none]⟩
      · refine ⟨.ok cause, by simp, ?_⟩
        rw [finish, completed]
        simp
  obtain ⟨outcome, fine, result⟩ := finished
  have settled : Delivery (s.setReader id
      { s.readers id with wait := { (s.readers id).wait with active := none } }) :=
    h.step apart rfl rfl rfl rfl rfl rfl rfl (.finishing pc (.inl rfl))
  have away : (s.setReader id { s.readers id with
      wait := { (s.readers id).wait with active := none } }).Apart id := by
    refine apart_of_outside ?_
    rw [Reader.outside, readers_setReader_self, pc]
  refine ⟨_, ?_, settled.afterRead away ?_ length again taken⟩
  · unfold Stdin.finishRead
    dsimp only
    rw [result]
    split
    · next failed => exact absurd (congrArg Prod.fst failed) fine
    · next same =>
      cases same
      rfl
  · rw [readers_setReader_self]

/-- Bytes are popped from the ring. -/
theorem Delivery.popInto (apart : s.Apart id) (length : Nat) :
    Delivery { s with
      rx := (s.rx.popInto length).2
      taken := s.taken ++ (s.rx.popInto length).1 } := by
  obtain ⟨ring, taken, left, capacity⟩ := h.ring.popUpTo length
  refine ⟨ring, capacity.trans h.capacity, ?_, ?_⟩
  · change s.taken ++ (s.rx.ring.popUpTo length).1 ++ (s.rx.ring.popUpTo length).2.contents = _
    rw [taken, left, List.append_assoc, List.take_append_drop]
    exact h.balance
  · refine h.slot.step (update_eq_self id s.readers).symm rfl rfl rfl ?_ apart
      (h.slot.quiet apart)
    rintro ⟨empty, first, since⟩
    refine ⟨?_, first, since⟩
    change (s.rx.ring.popUpTo length).2.contents = []
    rw [left, empty, List.drop_nil]

/-- A reader pops bytes, and takes its token if it has been woken. -/
theorem Delivery.readStdin (pc : (s.readers id).pc = .reading length again) :
    Delivery (s.readStdin id length again) := by
  have opened : ∀ token, ¬ (s.readers id).Open token := by
    rintro token (⟨other, _⟩ | ⟨other, _⟩) <;> cases pc.symm.trans other
  have others : (∀ token, s.rx.completed = some token → token.thread ≠ id) →
      Delivery (s.readStdin id length again) := by
    intro foreign
    have apart : s.Apart id := by
      rintro token (held | ⟨named, _⟩)
      · exact absurd held (opened token)
      · exact foreign token named
    have active := (h.slot.quiet apart).unregistered (by rw [pc]; nofun)
    have left : (s.rx.popInto length).2.takeCompleted id = (none, (s.rx.popInto length).2) := by
      unfold StdinRx.takeCompleted StdinRx.popInto
      dsimp only
      split
      · next token named => rw [if_neg (foreign token named)]
      · rfl
    unfold Stdin.readStdin
    dsimp only
    rw [left]
    exact (h.popInto apart length).afterRead apart active length again _
  cases named : s.rx.completed with
  | none => exact others fun token other => by cases named.symm.trans other
  | some token =>
    by_cases own : token.thread = id
    · subst own
      have took : (s.rx.popInto length).2.takeCompleted token.thread =
          (some token, { (s.rx.popInto length).2 with completed := none }) := by
        unfold StdinRx.takeCompleted StdinRx.popInto
        dsimp only
        rw [named]
        exact if_pos rfl
      obtain ⟨ring, taken, left, capacity⟩ := h.ring.popUpTo length
      unfold readStdin
      dsimp only
      rw [took]
      refine ⟨ring, capacity.trans h.capacity, ?_, ?_⟩
      · change s.taken ++ (s.rx.ring.popUpTo length).1 ++
          (s.rx.ring.popUpTo length).2.contents = _
        rw [taken, left, List.append_assoc, List.take_append_drop]
        exact h.balance
      · cases h.slot with
        | free _ none | registered _ _ none => cases named.symm.trans none
        | taken other _ named' _ held =>
          cases named.symm.trans named'
          exact absurd held (opened token)
        | completed other free named' idle held quiet =>
          cases named.symm.trans named'
          refine .free free rfl idle (Quiet.update quiet rfl (.finishing rfl ?_))
          cases held with
          | committing other | blocked other => cases pc.symm.trans other
          | reading _ active => exact active
    · refine others fun other same => ?_
      cases named.symm.trans same
      exact own

/-! ### The sleeping reader -/

/-- A reader registers only while the ring is empty and the slot is free. -/
theorem Delivery.registerIfEmpty (pc : (s.readers id).pc = .blocking length) :
    s.registerIfEmpty id length = .error (.scheduler .waitSequenceOverflow) ∨
      ∃ t, s.registerIfEmpty id length = .ok t ∧ Delivery t := by
  have apart : s.Apart id := apart_of_outside (by rw [Reader.outside, pc])
  have active := (h.slot.quiet apart).unregistered (by rw [pc]; nofun)
  unfold Stdin.registerIfEmpty
  dsimp only
  split
  · next empty =>
    split
    · next panic failed =>
      refine .inl ?_
      unfold prepareWithConsumption at failed
      rw [active] at failed
      split at failed
      · next busy => cases busy
      · split at failed
        · cases failed
          rfl
        · cases failed
    · next prepared wait registers =>
      obtain ⟨_, token, registration⟩ := prepare_cases registers
      have thread : prepared.token.thread = id := by rw [token]
      have contents : s.rx.ring.contents = [] := by
        rw [RingBuffer.contents, of_decide_eq_true empty]
        rfl
      -- the slot decides whether the registration is accepted
      have refused : ∀ rx, s.rx.registerWaiter prepared.token = (false, rx) → Delivery
          ((s.setReader id { s.readers id with wait := (wait.cancel prepared).2 }).returns id
            .notSupported) := by
        intro rx _
        have quiet : Reader.Quiet ⟨(s.readers id).cpu, (wait.cancel prepared).2, .user⟩ :=
          .user rfl (by rw [registration]; simp [cancel])
        refine h.step apart ?_ rfl rfl rfl rfl rfl rfl quiet
        rw [returns, setPc, readers_setReader_self, setReader, setReader]
        exact update_idem _ _ _
      refine .inr ?_
      cases h.slot with
      | free free none idle quiet =>
        have accepted : s.rx.registerWaiter prepared.token =
            (true, { s.rx with waiter := some prepared.token }) := by
          simp [StdinRx.registerWaiter, none, free]
        rw [accepted]
        refine ⟨_, rfl, h.ring, h.capacity, h.balance, ?_⟩
        refine .registered prepared.token rfl none idle ⟨contents, contents, rfl⟩ ?_ ?_
        · have same : prepared = ⟨prepared.token, .explicit⟩ := by rw [token]
          rw [thread, readers_setReader_self]
          exact .committing (congrArg (ReadPc.committing length) same) (by rw [registration])
        · intro other away
          rw [thread] at away
          rw [readers_setReader_of_ne _ _ away]
          exact quiet other
      | registered other held none _ _ sleeps _ =>
        have foreign : other ≠ prepared.token := by
          rintro rfl
          exact apart _ (.inl (thread ▸ sleeps)) thread
        have denied : s.rx.registerWaiter prepared.token = (false, s.rx) := by
          simp [StdinRx.registerWaiter, none, held, foreign]
        rw [denied]
        exact ⟨_, rfl, refused _ denied⟩
      | taken other _ held | completed other _ held =>
        have denied : s.rx.registerWaiter prepared.token = (false, s.rx) := by
          simp [StdinRx.registerWaiter, held]
        rw [denied]
        exact ⟨_, rfl, refused _ denied⟩
  · exact .inr ⟨_, rfl, h.step apart rfl rfl rfl rfl rfl rfl rfl (.reading rfl active)⟩

end

/-- A reader that waits owns the slot. -/
theorem own_slot (quiet : ∀ other, other ≠ token.thread → (s.readers other).Quiet)
    (waits : ¬ (s.readers id).Quiet) : token.thread = id := by
  by_contra apart
  exact waits (quiet id (Ne.symm apart))

theorem quiet_setReader (quiet : ∀ other, other ≠ id → (s.readers other).Quiet)
    (reader : Reader) : ∀ other, other ≠ id → ((s.setReader id reader).readers other).Quiet := by
  intro other apart
  rw [readers_setReader_of_ne _ _ apart]
  exact quiet other apart

/-- The registration is still there when the reader commits. -/
theorem Delivery.commitRead (h : Delivery s) {prepared : PreparedWait}
    (pc : (s.readers id).pc = .committing length prepared) :
    ∃ t, s.commitRead id length prepared = .ok t ∧ Delivery t := by
  have waits : ¬ (s.readers id).Quiet := by
    rintro (⟨other, _⟩ | ⟨other, _⟩ | ⟨other, _⟩ | ⟨other, _⟩) <;> cases pc.symm.trans other
  have sleeps : ∀ token, token.thread = id → (s.readers id).Open token →
      s.commitRead id length prepared = .ok (s.setReader id { s.readers id with
        wait := { (s.readers id).wait with active := some ⟨token, .blocked, .explicit⟩ }
        pc := .blocked length token }) := by
    intro token own held
    cases held with
    | blocked other => cases pc.symm.trans other
    | committing other active =>
      cases pc.symm.trans other
      unfold Stdin.commitRead
      simp [commit, active]
  have opened : ∀ token, (Reader.Open ⟨(s.readers id).cpu,
      { (s.readers id).wait with active := some ⟨token, .blocked, .explicit⟩ },
      .blocked length token⟩ token) := fun token => .blocked rfl rfl
  cases h.slot with
  | free _ _ _ quiet => exact absurd (quiet id) waits
  | registered token held none idle unfed open' quiet =>
    obtain rfl := own_slot quiet waits
    refine ⟨_, sleeps token rfl open', h.ring, h.capacity, h.balance, ?_⟩
    refine .registered token held none idle unfed ?_ (quiet_setReader quiet _)
    rw [readers_setReader_self]
    exact opened token
  | taken token free held idle open' quiet =>
    obtain rfl := own_slot quiet waits
    refine ⟨_, sleeps token rfl open', h.ring, h.capacity, h.balance, ?_⟩
    refine .taken token free held idle ?_ (quiet_setReader quiet _)
    rw [readers_setReader_self]
    exact opened token
  | completed token free held idle done quiet =>
    obtain rfl := own_slot quiet waits
    cases done with
    | blocked other | reading other => cases pc.symm.trans other
    | @committing _ cause other active =>
      cases pc.symm.trans other
      have early : s.commitRead token.thread length ⟨token, .explicit⟩ =
          .ok (s.setReader token.thread { s.readers token.thread with
            wait := { (s.readers token.thread).wait with active := none }
            pc := .reading length false }) := by
        unfold commitRead
        simp [commit, active]
      refine ⟨_, early, h.ring, h.capacity, h.balance, ?_⟩
      refine .completed token free held idle ?_ (quiet_setReader quiet _)
      rw [readers_setReader_self]
      exact .reading rfl (.inl rfl)

/-- A reader that was woken executes its call again. -/
theorem Delivery.restart (h : Delivery s) (pc : (s.readers id).pc = .blocked length token)
    (woken : (s.readers id).wait.isCompleted = true) :
    Delivery (s.setPc id (.reading length false)) := by
  have waits : ¬ (s.readers id).Quiet := by
    rintro (⟨other, _⟩ | ⟨other, _⟩ | ⟨other, _⟩ | ⟨other, _⟩) <;> cases pc.symm.trans other
  have closed : ∀ token, ¬ (s.readers id).Open token := by
    rintro token (⟨_, active⟩ | ⟨_, active⟩) <;>
      simp [isCompleted, active] at woken
  refine ⟨h.ring, h.capacity, h.balance, ?_⟩
  cases h.slot with
  | free _ _ _ quiet => exact absurd (quiet id) waits
  | registered token _ _ _ _ held quiet | taken token _ _ _ held quiet =>
    obtain rfl := own_slot quiet waits
    exact absurd held (closed token)
  | completed token free named idle done quiet =>
    obtain rfl := own_slot quiet waits
    refine .completed token free named idle ?_ (quiet_setReader quiet _)
    rw [setPc, readers_setReader_self]
    cases done with
    | committing other | reading other => cases pc.symm.trans other
    | blocked _ active => exact .reading rfl (.inr ⟨_, active⟩)

/-! ### Bytes -/

/-- A byte that finds room is kept, and takes the registered token. -/
theorem Delivery.onStdinByte (h : Delivery s) (byte : UInt8) : Delivery (s.onStdinByte byte) := by
  have fits := h.ring.fits
  unfold Stdin.onStdinByte StdinRx.push
  by_cases full : s.rx.ring.len = stdinRxCapacity
  · rw [if_pos full]
    dsimp only
    rw [if_pos full]
    refine ⟨h.ring, h.capacity, h.balance, ?_⟩
    cases h.slot with
    | free free none idle quiet => exact .free free none idle quiet
    | registered token held none idle unfed open' quiet =>
      exact .registered token held none idle unfed open' quiet
    | taken token free held idle open' quiet => exact .taken token free held idle open' quiet
    | completed token free held idle done quiet => exact .completed token free held idle done quiet
  · have room : s.rx.ring.len < s.rx.ring.capacity := by
      rw [h.capacity] at fits ⊢
      omega
    have balance : s.taken ++ (s.rx.ring.push byte).contents = s.accepted ++ [byte] := by
      rw [h.ring.contents_push byte room, ← List.append_assoc, h.balance]
    have ring : (s.rx.ring.push byte).WellFormed := h.ring.push room
    have capacity := (RingBuffer.capacity_push (r := s.rx.ring) byte).trans h.capacity
    rw [if_neg full]
    dsimp only
    rw [if_neg full]
    cases h.slot with
    | free free none idle quiet =>
      rw [free]
      exact ⟨ring, capacity, balance, .free rfl none idle quiet⟩
    | registered token held none idle unfed open' quiet =>
      rw [held]
      exact ⟨ring, capacity, balance, .taken token rfl rfl (by rw [idle]; rfl) open' quiet⟩
    | taken token free held idle open' quiet =>
      rw [free]
      exact ⟨ring, capacity, balance, .taken token rfl held idle open' quiet⟩
    | completed token free held idle done quiet =>
      rw [free]
      exact ⟨ring, capacity, balance, .completed token rfl held idle done quiet⟩

/-- The completion of an open wait wins. -/
theorem complete_of_open (held : reader.Open token) (cause : WaitCause) :
    (reader.wait.complete token cause).1.wins = true ∧
      (reader.wait.complete token cause).2.active = some ⟨token, .completed cause, .explicit⟩ := by
  cases held with
  | committing pc active => simp [complete, active, CompletionResult.wins]
  | blocked pc active => simp [complete, active, CompletionResult.wins]

theorem done_of_open (held : reader.Open token) (cause : WaitCause) :
    Reader.Done { reader with wait := (reader.wait.complete token cause).2 } token := by
  have active := (complete_of_open held cause).2
  cases held with
  | committing pc _ => exact .committing pc active
  | blocked pc _ => exact .blocked pc active

/-- A reader whose wait was completed, before or after it blocked, reads again. -/
theorem advance_of_completed {wait : WaitMetadata} {cause : WaitCause} (held : reader.Open token)
    (active : wait.active = some ⟨token, .completed cause, .explicit⟩)
    (woken : s.readers id = { reader with wait := wait }) :
    ∃ length t, s.advance id = .ok (some t) ∧ (t.readers id).pc = .reading length false := by
  cases held with
  | committing pc _ =>
    simp [advance, commitRead, woken, pc, commit, active, Functor.map, Except.map]
  | blocked pc _ =>
    simp [advance, woken, pc, isCompleted, active, setPc]

/-- A handler that has still to complete a wait completes that of the slot. -/
theorem Slot.notifying (slot : Slot s) (pending : token ∈ s.notifying) :
    s.rx.waiter = none ∧ s.rx.completed = some token ∧ s.notifying = [token] ∧
      (s.readers token.thread).Open token ∧
      ∀ other, other ≠ token.thread → (s.readers other).Quiet := by
  cases slot with
  | free _ _ idle | registered _ _ _ idle | completed _ _ _ idle =>
    rw [idle] at pending
    cases pending
  | taken holder free held idle open' quiet =>
    rw [idle] at pending
    obtain rfl := List.mem_singleton.mp pending
    exact ⟨free, held, idle, open', quiet⟩

theorem Delivery.notify (h : Delivery s) (moved : s.notify token = some t) : Delivery t := by
  unfold Stdin.notify at moved
  split at moved
  · next pending =>
    cases moved
    obtain ⟨free, held, only, open', quiet⟩ := h.slot.notifying pending
    refine ⟨h.ring, h.capacity, h.balance, ?_⟩
    refine .completed token free held ?_ ?_ (quiet_setReader quiet _)
    · change s.notifying.erase token = []
      rw [only, List.erase_cons_head]
    · rw [readers_setReader_self]
      exact done_of_open open' .notified
  · cases moved

/-! ### Whole runs -/

theorem Delivery.of_initial (start : Initial s) : Delivery s := by
  have ring : s.rx.ring = .new stdinRxCapacity 0 := by rw [start.rx]; rfl
  refine ⟨?_, ?_, ?_, ?_⟩
  · rw [ring]
    exact RingBuffer.wellFormed_new (by decide)
  · rw [ring, RingBuffer.capacity_new]
  · rw [ring, start.taken, start.accepted, RingBuffer.contents_new]
    rfl
  · exact .free (by rw [start.rx]; rfl) (by rw [start.rx]; rfl) start.notifying
      fun id => .user (start.idle id).1 (start.idle id).2

/-- A move keeps the invariant, and halts only when a thread has used up its wait
sequences. -/
theorem Delivery.move (h : Delivery s) (label : StdinMove) :
    s.move label = .error (.scheduler .waitSequenceOverflow) ∨
      ∃ next, s.move label = .ok next ∧ ∀ t, next = some t → Delivery t := by
  have single : ∀ {t : Stdin}, Delivery t → ∀ u, some t = some u → Delivery u := by
    rintro t delivery u ⟨⟩
    exact delivery
  cases label with
  | read id count writable =>
    simp only [Stdin.move]
    split
    · next pc => exact .inr ⟨_, rfl, single (h.sysReadStdin pc count writable)⟩
    · exact .inr ⟨_, rfl, nofun⟩
  | byte byte => exact .inr ⟨_, rfl, single (h.onStdinByte byte)⟩
  | notify token => exact .inr ⟨_, rfl, fun t moved => h.notify moved⟩
  | elsewhere id => exact .inr ⟨_, rfl, fun t moved => h.waitElsewhere moved⟩
  | advance id =>
    simp only [Stdin.move, advance]
    split
    · exact .inr ⟨_, rfl, nofun⟩
    · next pc => exact .inr ⟨_, rfl, single (h.readStdin pc)⟩
    · next pc =>
      obtain ⟨t, finished, delivery⟩ := h.finishRead pc
      rw [finished]
      exact .inr ⟨_, rfl, single delivery⟩
    · next pc =>
      rcases h.registerIfEmpty pc with overflow | ⟨t, registered, delivery⟩
      · rw [overflow]
        exact .inl rfl
      · rw [registered]
        exact .inr ⟨_, rfl, single delivery⟩
    · next pc =>
      obtain ⟨t, committed, delivery⟩ := h.commitRead pc
      rw [committed]
      exact .inr ⟨_, rfl, single delivery⟩
    · next pc =>
      split
      · next woken => exact .inr ⟨_, rfl, single (h.restart pc woken)⟩
      · exact .inr ⟨_, rfl, nofun⟩

theorem Delivery.of_reachable (reached : machine.Reachable s) : Delivery s := by
  refine reached.invariant (fun _ => .of_initial) fun s label t _ h taken => ?_
  rcases h.move label with overflow | ⟨next, moved, keeps⟩
  · cases overflow.symm.trans taken
  · exact keeps t (Except.ok.inj (moved.symm.trans taken))

/-- Reads take the accepted bytes in order and each once. A registered token found
the ring empty and has seen no byte since; the next byte takes exactly this token.
Its handler completes the wait of this token and of no other reader, and the reader
then reads again. The only panic left is that of a thread without fresh wait
sequences. -/
theorem stdin_delivered (reached : machine.Reachable s) :
    s.taken ++ s.rx.ring.contents = s.accepted ∧ (∀ token, s.rx.waiter = some token →
      s.registeredWith = [] ∧ s.accepted.length = s.registeredAt ∧
      ∀ byte, (s.onStdinByte byte).accepted = s.accepted ++ [byte] ∧
        (s.onStdinByte byte).rx.waiter = none ∧ (s.onStdinByte byte).notifying = [token]) ∧
    (∀ token ∈ s.notifying,
      ((s.readers token.thread).wait.complete token .notified).1.wins = true ∧
      ∃ t, s.notify token = some t ∧ t.notifying = [] ∧
        (t.readers token.thread).wait.active = some ⟨token, .completed .notified, .explicit⟩ ∧
        (∃ length u, t.advance token.thread = .ok (some u) ∧
          (u.readers token.thread).pc = .reading length false) ∧
        ∀ id, id ≠ token.thread → t.readers id = s.readers id) ∧
    ∀ label panic, s.move label = .error panic → panic = .scheduler .waitSequenceOverflow := by
  have h := Delivery.of_reachable reached
  refine ⟨h.balance, fun token waiter => ?_, fun token pending => ?_, fun label panic failed => ?_⟩
  · cases h.slot with
    | free free | taken _ free | completed _ free => cases waiter.symm.trans free
    | registered holder held none idle unfed open' quiet =>
      cases waiter.symm.trans held
      obtain ⟨empty, first, since⟩ := unfed
      have length : s.rx.ring.len ≠ stdinRxCapacity := by
        rw [← h.ring.length_contents, empty]
        decide
      refine ⟨first, since, fun byte => ?_⟩
      have pushed : s.rx.push byte = (some token, { s.rx with
          ring := s.rx.ring.push byte, waiter := Option.none, completed := some token }) := by
        simp [StdinRx.push, length, waiter]
      unfold onStdinByte
      rw [pushed]
      dsimp only
      rw [if_neg length, idle]
      exact ⟨rfl, rfl, rfl⟩
  · obtain ⟨_, _, only, held, _⟩ := h.slot.notifying pending
    obtain ⟨wins, active⟩ := complete_of_open held .notified
    refine ⟨wins, _, if_pos pending, ?_, ?_, ?_, fun id apart => readers_setReader_of_ne _ _ apart⟩
    · exact only ▸ List.erase_cons_head ..
    · rw [readers_setReader_self]
      exact active
    · exact advance_of_completed held active (readers_setReader_self ..)
  · rcases h.move label with overflow | ⟨next, moved, _⟩
    · exact Except.error.inj (failed.symm.trans overflow)
    · cases failed.symm.trans moved

/-- A reader sleeps after another one has taken the byte that came first, and the
handler of the next byte completes its wait. -/
theorem stdin_delivered_blocked : ∃ s t, machine.Reachable s ∧ s.taken = [65] ∧
    s.rx.waiter = some ⟨⟨1, 1⟩, 0, 2⟩ ∧ (s.onStdinByte 66).notify ⟨⟨1, 1⟩, 0, 2⟩ = some t ∧
    (t.readers ⟨1, 1⟩).wait.active = some ⟨⟨⟨1, 1⟩, 0, 2⟩, .completed .notified, .explicit⟩ := by
  obtain ⟨s, reached, shown⟩ := exists_played
    [.read ⟨1, 1⟩ 4 true, .advance ⟨1, 1⟩, .advance ⟨1, 1⟩, .byte 65, .advance ⟨1, 1⟩,
      .read ⟨2, 1⟩ 4 true, .advance ⟨2, 1⟩, .notify ⟨⟨1, 1⟩, 0, 1⟩, .advance ⟨1, 1⟩,
      .advance ⟨1, 1⟩, .advance ⟨1, 1⟩, .advance ⟨1, 1⟩, .advance ⟨1, 1⟩]
    (fun s => decide (s.taken = [65]) && decide (s.rx.waiter = some ⟨⟨1, 1⟩, 0, 2⟩))
    (by decide +kernel)
  rw [Bool.and_eq_true, decide_eq_true_eq, decide_eq_true_eq] at shown
  obtain ⟨taken, waiter⟩ := shown
  have notifying := (((stdin_delivered reached).2.1 _ waiter).2.2 66).2.2
  have arrives : machine.step s (.byte 66) (s.onStdinByte 66) := rfl
  obtain ⟨-, t, notified, -, active, -⟩ :=
    (stdin_delivered (reached.step arrives)).2.2.1 ⟨⟨1, 1⟩, 0, 2⟩ (notifying ▸ .head _)
  exact ⟨s, t, reached, taken, waiter, notified, active⟩

end Stdin

end Genrt
