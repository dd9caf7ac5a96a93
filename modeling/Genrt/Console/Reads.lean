import Genrt.Console.Delivery
import Genrt.Foundation.Result

/-!
# What a standard-input read returns

A read that finds the ring empty looks again when it registers. If a byte has
come meanwhile it does not register but reads a second time, and that read is not
repeated: if another reader has taken the byte in between, the call fails with a
fault although its buffer is good.

As long as nobody takes bytes between the check and the second read of another
reader, a call whose arguments were accepted returns bytes, or reports that
somebody else is waiting.
-/

namespace Genrt

open Function

namespace Reader

/-- Reads ask for at least one byte, and a second read finds one. -/
def Fed (filled : Prop) (reader : Reader) : Prop :=
  match reader.pc with
  | .user => True
  | .reading length again => 0 < length ∧ (again = true → filled)
  | .finishing length again _ taken => 0 < length ∧ (again = true → taken ≠ [])
  | .blocking length => 0 < length
  | .committing length _ => 0 < length
  | .blocked length _ => 0 < length

/-- The reader is about to read again. -/
def ReadsAgain (reader : Reader) : Prop := ∃ length, reader.pc = .reading length true

variable {filled : Prop} {reader : Reader}

theorem Fed.mono {filled' : Prop} (fed : reader.Fed filled) (keeps : filled → filled') :
    reader.Fed filled' := by
  unfold Fed at fed ⊢
  cases pc : reader.pc with
  | reading length again =>
    rw [pc] at fed
    exact ⟨fed.1, fun second => keeps (fed.2 second)⟩
  | user => trivial
  | finishing | blocking | committing | blocked =>
    rw [pc] at fed
    exact fed

theorem Fed.of_not_readsAgain {filled' : Prop} (fed : reader.Fed filled)
    (first : ¬ reader.ReadsAgain) : reader.Fed filled' := by
  unfold Fed at fed ⊢
  cases pc : reader.pc with
  | reading length again =>
    rw [pc] at fed
    exact ⟨fed.1, fun second => absurd ⟨length, second ▸ pc⟩ first⟩
  | user => trivial
  | finishing | blocking | committing | blocked =>
    rw [pc] at fed
    exact fed

theorem Fed.of_pc {reader' : Reader} (fed : reader.Fed filled) (same : reader'.pc = reader.pc) :
    reader'.Fed filled := by
  unfold Fed
  rw [same]
  exact fed

end Reader

namespace Stdin

variable {s t : Stdin} {id : ThreadId} {token : WaitToken} {reader : Reader} {length : Nat}
  {again : Bool}

/-- Nobody takes bytes while another reader is about to read again. -/
def Undisturbed (s : Stdin) (label : StdinMove) : Prop :=
  ∀ id length again, label = .advance id → (s.readers id).pc = .reading length again →
    ∀ other, other ≠ id → ¬ (s.readers other).ReadsAgain

def AllFed (s : Stdin) : Prop := ∀ id, (s.readers id).Fed (s.rx.ring.contents ≠ [])

/-- One reader goes on and the ring keeps its bytes. -/
theorem AllFed.step (fed : s.AllFed) (readers : t.readers = update s.readers id reader)
    (keeps : s.rx.ring.contents ≠ [] → t.rx.ring.contents ≠ [])
    (after : reader.Fed (t.rx.ring.contents ≠ [])) : t.AllFed := by
  intro other
  rw [readers, update_apply]
  split
  · exact after
  · exact (fed other).mono keeps

theorem AllFed.returns {result : ReadResult} (fed : s.AllFed) : (s.returns id result).AllFed :=
  fed.step rfl (fun filled => filled) trivial

theorem AllFed.setReader (fed : s.AllFed) (same : reader.pc = (s.readers id).pc) :
    (s.setReader id reader).AllFed :=
  fed.step rfl (fun filled => filled) ((fed id).of_pc same)

/-- A read takes a byte if there is one. -/
theorem popInto_ne_nil (h : Delivery s) (positive : 0 < length) (filled : s.rx.ring.contents ≠ []) :
    (s.rx.popInto length).1 ≠ [] := by
  obtain ⟨_, popped, _, _⟩ := h.ring.popUpTo length
  change (s.rx.ring.popUpTo length).1 ≠ []
  rw [popped]
  intro none
  rcases List.take_eq_nil_iff.mp none with zero | empty
  · omega
  · exact filled empty

theorem ring_of_registerWaiter {rx rx' : StdinRx} {answer : Bool}
    (registered : rx.registerWaiter token = (answer, rx')) : rx'.ring = rx.ring := by
  unfold StdinRx.registerWaiter at registered
  split at registered
  · cases registered
    rfl
  · split at registered
    · split at registered
      · cases registered
        rfl
      · cases registered
        rfl
    · cases registered
      rfl

/-! ### A reader goes on within its call -/

/-- What a call whose arguments were accepted may return: bytes, or that another
reader waits or has not read again since it was woken. -/
inductive Served (s : Stdin) (id : ThreadId) : ReadResult → Prop where
  | bytes {taken : List UInt8} (filled : taken ≠ []) : Served s id (.bytes taken)
  | busy {token : WaitToken} (waits : s.rx.waiter = some token ∨ s.rx.completed = some token)
      (other : token.thread ≠ id) : Served s id .notSupported

/-- The step returns nothing, or serves the call. -/
def Serves (s : Stdin) (id : ThreadId) (t : Stdin) : Prop :=
  t.results = s.results ∨ ∃ result, t.results = s.results ++ [(id, result)] ∧ Served s id result

/-- The reader alone moves, and its step serves the call. -/
structure Advances (s : Stdin) (id : ThreadId) (t : Stdin) : Prop where
  others : ∀ other, other ≠ id → t.readers other = s.readers other
  fed : (t.readers id).Fed (t.rx.ring.contents ≠ [])
  ring : t.rx.ring = s.rx.ring ∨ ∃ length again, (s.readers id).pc = .reading length again
  serves : Serves s id t

variable {taken : List UInt8} {label : StdinMove} {u : Stdin}

theorem Advances.of_update (others : ∀ other, other ≠ id → u.readers other = s.readers other)
    (readers : t.readers = update u.readers id reader) (fed : reader.Fed (t.rx.ring.contents ≠ []))
    (ring : t.rx.ring = s.rx.ring ∨ ∃ length again, (s.readers id).pc = .reading length again)
    (serves : Serves s id t) : Advances s id t where
  others other apart := by rw [readers, update_of_ne apart, others other apart]
  fed := by rwa [readers, update_self]
  ring := ring
  serves := serves

theorem Advances.afterRead (others : ∀ other, other ≠ id → u.readers other = s.readers other)
    (ring : u.rx.ring = s.rx.ring ∨ ∃ length again, (s.readers id).pc = .reading length again)
    (same : u.results = s.results) (positive : 0 < length) (fed : again = true → taken ≠ []) :
    Advances s id (u.afterRead id length again taken) := by
  unfold Stdin.afterRead
  split_ifs with filled second
  · exact .of_update others rfl trivial ring (.inr ⟨_, congrArg (· ++ _) same, .bytes filled⟩)
  · exact absurd (fed second) filled
  · exact .of_update others rfl positive ring (.inl same)

/-- A registration is refused because of another reader. -/
theorem served_of_refused (h : Delivery s) (pc : (s.readers id).pc = .blocking length)
    {rx : StdinRx} (refused : s.rx.registerWaiter token = (false, rx)) :
    Served s id .notSupported := by
  have apart : s.Apart id := apart_of_outside (by rw [Reader.outside, pc])
  cases h.slot with
  | free free none _ _ => simp [StdinRx.registerWaiter, none, free] at refused
  | registered other held _ _ _ sleeps _ =>
    refine .busy (.inl held) fun same => ?_
    exact apart other (.inl (same ▸ sleeps)) same
  | taken other _ held _ sleeps _ =>
    refine .busy (.inr held) fun same => ?_
    exact apart other (.inl (same ▸ sleeps)) same
  | completed other _ held _ woken _ =>
    refine .busy (.inr held) fun same => ?_
    exact apart other (.inr ⟨held, same ▸ woken⟩) same

theorem advances_readStdin (h : Delivery s) (fed : s.AllFed)
    (pc : (s.readers id).pc = .reading length again) :
    Advances s id (s.readStdin id length again) := by
  have mine := fed id
  simp only [Reader.Fed, pc] at mine
  have filled : again = true → (s.rx.popInto length).1 ≠ [] :=
    fun second => popInto_ne_nil h mine.1 (mine.2 second)
  unfold readStdin
  dsimp only
  split
  · exact .of_update (fun _ _ => rfl) rfl ⟨mine.1, filled⟩ (.inr ⟨_, _, pc⟩) (.inl rfl)
  · exact .afterRead (fun _ _ => rfl) (.inr ⟨_, _, pc⟩) rfl mine.1 filled

theorem advances_registerIfEmpty (h : Delivery s) (fed : s.AllFed)
    (pc : (s.readers id).pc = .blocking length)
    (registered : s.registerIfEmpty id length = .ok t) : Advances s id t := by
  have positive := fed id
  simp only [Reader.Fed, pc] at positive
  unfold registerIfEmpty at registered
  dsimp only at registered
  split at registered
  · split at registered
    · cases registered
    · split at registered
      · next accepted =>
        cases registered
        exact .of_update (fun _ _ => rfl) rfl positive (.inl (ring_of_registerWaiter accepted))
          (.inl rfl)
      · next refused =>
        cases registered
        exact .of_update (fun _ apart => update_of_ne apart ..) rfl trivial (.inl rfl)
          (.inr ⟨_, rfl, served_of_refused h pc refused⟩)
  · next filled =>
    cases registered
    refine .of_update (fun _ _ => rfl) rfl ⟨positive, fun _ empty => filled ?_⟩ (.inl rfl)
      (.inl rfl)
    refine decide_eq_true ?_
    rw [← h.ring.length_contents]
    exact List.length_eq_zero_iff.mpr empty

theorem advances (h : Delivery s) (fed : s.AllFed) (moved : s.advance id = .ok (some t)) :
    Advances s id t := by
  have mine := fed id
  unfold advance at moved
  split at moved
  · cases moved
  · next pc =>
    cases moved
    exact advances_readStdin h fed pc
  · next pc =>
    simp only [Reader.Fed, pc] at mine
    have finished := Result.eq_ok_of_map_some moved
    unfold finishRead at finished
    dsimp only at finished
    split at finished
    · cases finished
    · cases finished
      exact .afterRead (fun _ apart => update_of_ne apart ..) (.inl rfl) rfl mine.1 mine.2
  · next pc => exact advances_registerIfEmpty h fed pc (Result.eq_ok_of_map_some moved)
  · next pc =>
    simp only [Reader.Fed, pc] at mine
    have committed := Result.eq_ok_of_map_some moved
    unfold commitRead at committed
    dsimp only at committed
    split at committed
    · cases committed
      exact .of_update (fun _ _ => rfl) rfl mine (.inl rfl) (.inl rfl)
    · cases committed
      exact .of_update (fun _ _ => rfl) rfl ⟨mine, nofun⟩ (.inl rfl) (.inl rfl)
    · cases committed
  · next pc =>
    simp only [Reader.Fed, pc] at mine
    split at moved
    · cases moved
      exact .of_update (fun _ _ => rfl) rfl ⟨mine, nofun⟩ (.inl rfl) (.inl rfl)
    · cases moved

theorem AllFed.advance (fed : s.AllFed) (undisturbed : s.Undisturbed (.advance id))
    (step : Advances s id t) : t.AllFed := by
  intro other
  by_cases apart : other = id
  · exact apart ▸ step.fed
  · rw [step.others other apart]
    rcases step.ring with ring | ⟨_, _, pc⟩
    · exact ring ▸ fed other
    · exact (fed other).of_not_readsAgain (undisturbed id _ _ rfl pc other apart)

theorem AllFed.onStdinByte (h : Delivery s) (fed : s.AllFed) (byte : UInt8) :
    (s.onStdinByte byte).AllFed := by
  have keeps : s.rx.ring.contents ≠ [] → (s.onStdinByte byte).rx.ring.contents ≠ [] := by
    intro filled gone
    have after := (h.onStdinByte byte).balance
    have accepted : (s.onStdinByte byte).accepted.length ≥ s.accepted.length := by
      unfold Stdin.onStdinByte
      dsimp only
      split <;> simp
    have taken : (s.onStdinByte byte).taken = s.taken := rfl
    rw [gone, List.append_nil, taken] at after
    rw [← after, ← h.balance, List.length_append] at accepted
    exact filled (List.length_eq_zero_iff.mp (by omega))
  exact fun other => (fed other).mono keeps

theorem AllFed.sysReadStdin (fed : s.AllFed) (count : Nat) (writable : Bool) :
    (s.sysReadStdin id count writable).AllFed := by
  unfold Stdin.sysReadStdin
  split_ifs with zero
  · exact fed.returns
  · have positive : 0 < min count maxUserCopy := by
      refine Nat.lt_min.mpr ⟨Nat.pos_of_ne_zero zero, by decide⟩
    exact fed.step rfl (fun filled => filled) ⟨positive, nofun⟩
  · exact fed.returns

theorem AllFed.move (h : Delivery s) (fed : s.AllFed) (undisturbed : s.Undisturbed label)
    (moved : s.move label = .ok (some t)) : t.AllFed := by
  cases label with
  | read id count writable =>
    simp only [move] at moved
    split at moved
    · cases moved
      exact fed.sysReadStdin count writable
    · cases moved
  | byte byte =>
    cases moved
    exact fed.onStdinByte h byte
  | notify token =>
    simp only [move, notify, Except.ok.injEq] at moved
    split at moved
    · cases moved
      exact fed.setReader rfl
    · cases moved
  | elsewhere id =>
    simp only [move, waitElsewhere, Except.ok.injEq] at moved
    split at moved
    · cases moved
      exact fed.setReader rfl
    · cases moved
  | advance id => exact fed.advance undisturbed (advances h fed moved)

theorem allFed_of_run {first : Stdin} (start : Initial first)
    (run : machine.Run Undisturbed first s) : Delivery s ∧ s.AllFed := by
  have initially : Delivery first ∧ first.AllFed := by
    refine ⟨.of_initial start, fun id => ?_⟩
    simp only [Reader.Fed, (start.idle id).1]
  have keep : ∀ s label t, Delivery s ∧ s.AllFed → Undisturbed s label →
      machine.step s label t → Delivery t ∧ t.AllFed := by
    rintro s label t ⟨h, fed⟩ undisturbed taken
    refine ⟨?_, fed.move h undisturbed taken⟩
    rcases h.move label with overflow | ⟨next, moved, keeps⟩
    · cases overflow.symm.trans taken
    · exact keeps t (Except.ok.inj (moved.symm.trans taken))
  exact run.invariant keep initially

/-! ### A single reader -/

/-- Nobody but `id` reads. -/
def Lone (id : ThreadId) (s : Stdin) : Prop := ∀ other, other ≠ id → (s.readers other).pc = .user

/-- The move is not a read of another thread. -/
def Leaves (id : ThreadId) : StdinMove → Prop
  | .read reader _ _ => reader = id
  | .advance reader => reader = id
  | .byte _ | .notify _ | .elsewhere _ => True

theorem Lone.undisturbed (lone : Lone id s) (leaves : Leaves id label) : s.Undisturbed label := by
  rintro _ _ _ rfl _ other apart ⟨_, second⟩
  obtain rfl : _ = id := leaves
  cases (lone other apart).symm.trans second

theorem Lone.setReader (lone : Lone id s) (place : ThreadId)
    (same : place ≠ id → reader.pc = (s.readers place).pc) :
    Lone id (s.setReader place reader) := by
  intro other apart
  simp only [Stdin.setReader, update_apply]
  split
  · next here =>
    subst here
    exact (same apart).trans (lone other apart)
  · exact lone other apart

theorem Lone.setPc (lone : Lone id s) (pc : ReadPc) : Lone id (s.setPc id pc) :=
  lone.setReader id fun apart => absurd rfl apart

theorem Lone.move (h : Delivery s) (fed : s.AllFed) (lone : Lone id s) (leaves : Leaves id label)
    (moved : s.move label = .ok (some t)) : Lone id t := by
  cases label with
  | read reader count writable =>
    obtain rfl : reader = id := leaves
    simp only [move] at moved
    split at moved
    · cases moved
      unfold sysReadStdin
      split_ifs
      · exact lone.setPc _
      · exact lone.setPc _
      · exact lone.setPc _
    · cases moved
  | byte byte =>
    cases moved
    exact lone
  | notify token =>
    simp only [move, notify, Except.ok.injEq] at moved
    split at moved
    · cases moved
      exact Lone.setReader lone _ fun _ => rfl
    · cases moved
  | elsewhere reader =>
    simp only [move, waitElsewhere, Except.ok.injEq] at moved
    split at moved
    · cases moved
      exact lone.setReader _ fun _ => rfl
    · cases moved
  | advance reader =>
    obtain rfl : reader = id := leaves
    exact fun other apart => ((advances h fed moved).others other apart) ▸ lone other apart

/-- A single reader is never disturbed. -/
theorem Lone.run {first : Stdin} (start : Initial first) {labels : List StdinMove}
    (only : ∀ label ∈ labels, Leaves id label) (before : machine.Run Undisturbed first s)
    (lone : Lone id s) (executed : Machine.execute (Machine.attempt Stdin.move) s labels = some t) :
    machine.Run Undisturbed first t ∧ Lone id t := by
  induction labels generalizing s with
  | nil =>
    cases executed
    exact ⟨before, lone⟩
  | cons label rest ih =>
    rw [Machine.execute, List.foldlM_cons, Option.bind_eq_bind, Option.bind_eq_some_iff]
      at executed
    obtain ⟨u, taken, executed⟩ := executed
    have leaves := only label (.head _)
    have moved := Machine.attempt_eq_some.mp taken
    obtain ⟨h, fed⟩ := allFed_of_run start before
    exact ih (fun later member => only later (.tail _ member))
      (.step before (lone.undisturbed leaves) moved) (lone.move h fed leaves moved) executed

/-! ### Results -/

/-- A read with a good buffer of nonzero length does not fault, as long as nobody
takes bytes while another reader is about to read again: each step of a run returns
nothing, rejects the arguments of a call, or returns bytes or that another reader
is waiting. -/
theorem stdin_read_served {first : Stdin} (start : Initial first)
    (run : machine.Run Undisturbed first s) {label : StdinMove} (undisturbed : s.Undisturbed label)
    (taken : machine.step s label t) : t.results = s.results ∨
    (∃ id count writable, label = .read id count writable ∧ (count = 0 ∨ writable = false)) ∨
    ∃ id result, label = .advance id ∧ t.results = s.results ++ [(id, result)] ∧
      Served s id result := by
  obtain ⟨h, fed⟩ := allFed_of_run start run
  change s.move label = .ok (some t) at taken
  cases label with
  | read id count writable =>
    simp only [move] at taken
    split at taken
    · cases taken
      unfold sysReadStdin
      split_ifs with zero good
      · exact .inr (.inl ⟨id, count, writable, rfl, .inl zero⟩)
      · exact .inl rfl
      · exact .inr (.inl ⟨id, count, writable, rfl, .inr (Bool.not_eq_true _ ▸ good)⟩)
    · cases taken
  | byte byte =>
    cases taken
    exact .inl rfl
  | notify token =>
    simp only [move, notify, Except.ok.injEq] at taken
    split at taken
    · cases taken
      exact .inl rfl
    · cases taken
  | elsewhere id =>
    simp only [move, waitElsewhere, Except.ok.injEq] at taken
    split at taken
    · cases taken
      exact .inl rfl
    · cases taken
  | advance id =>
    rcases (advances h fed taken).serves with quiet | ⟨result, returned, served⟩
    · exact .inl quiet
    · exact .inr (.inr ⟨id, result, rfl, returned, served⟩)

/-- The second read of a single reader returns the byte that came meanwhile. -/
theorem stdin_read_served_second :
    ∃ s t, machine.Run Undisturbed fresh s ∧ machine.step s (.advance ⟨1, 1⟩) t ∧
      t.results = [(⟨1, 1⟩, .bytes [65])] ∧ (t.results = s.results ∨
      (∃ id count writable, StdinMove.advance ⟨1, 1⟩ = .read id count writable ∧
        (count = 0 ∨ writable = false)) ∨ ∃ id result, StdinMove.advance ⟨1, 1⟩ = .advance id ∧
        t.results = s.results ++ [(id, result)] ∧ Served s id result) := by
  let labels : List StdinMove :=
    [.read ⟨1, 1⟩ 4 true, .advance ⟨1, 1⟩, .byte 65, .advance ⟨1, 1⟩]
  have executed : (Machine.execute (Machine.attempt move) fresh labels).any (fun s =>
      (Machine.attempt move s (.advance ⟨1, 1⟩)).any fun t =>
        decide (t.results = [(⟨1, 1⟩, .bytes [65])])) = true := by decide +kernel
  obtain ⟨s, first, shown⟩ := (Option.any_eq_true _ _).mp executed
  obtain ⟨t, second, results⟩ := (Option.any_eq_true _ _).mp shown
  have taken : machine.step s (.advance ⟨1, 1⟩) t := Machine.attempt_eq_some.mp second
  have start : Initial fresh := ⟨rfl, fun _ => ⟨rfl, rfl⟩, rfl, rfl, rfl⟩
  have only : ∀ label ∈ labels, Leaves ⟨1, 1⟩ label := by
    simp [labels, Leaves]
  obtain ⟨run, lone⟩ := Lone.run start only (.refl _) (fun _ _ => rfl) first
  exact ⟨s, t, run, taken, of_decide_eq_true results,
    stdin_read_served start run (lone.undisturbed rfl) taken⟩

/-- A reader finds the ring filled and another one takes the byte before it reads
again: the call fails although its buffer is good. -/
theorem stdin_read_faults :
    ∃ labels s, Machine.execute (Machine.attempt move) fresh labels = some s ∧
      (∀ id count writable, StdinMove.read id count writable ∈ labels →
        count ≠ 0 ∧ writable = true) ∧ (⟨1, 1⟩, ReadResult.fault) ∈ s.results := by
  let labels : List StdinMove :=
    [.read ⟨1, 1⟩ 4 true, .advance ⟨1, 1⟩, .byte 65, .advance ⟨1, 1⟩, .read ⟨2, 1⟩ 4 true,
      .advance ⟨2, 1⟩, .advance ⟨1, 1⟩]
  have executed : (Machine.execute (Machine.attempt move) fresh labels).any
      (fun s => decide ((⟨1, 1⟩, ReadResult.fault) ∈ s.results)) = true := by decide +kernel
  obtain ⟨s, run, shown⟩ := (Option.any_eq_true _ _).mp executed
  refine ⟨labels, s, run, fun id count writable member => ?_, of_decide_eq_true shown⟩
  simp only [labels, List.mem_cons, StdinMove.read.injEq, reduceCtorEq, List.not_mem_nil,
    or_false, false_or] at member
  rcases member with ⟨_, rfl, rfl⟩ | ⟨_, rfl, rfl⟩ <;> decide

end Stdin

end Genrt
