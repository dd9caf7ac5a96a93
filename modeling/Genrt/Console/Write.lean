import Genrt.Console.Drain

/-!
# What the write system call reports

`write_bytes` drops a message that does not fit into the queue, and tells nobody.
The system call then reports the whole length as written. A queue too full for a
message can be reached: writers that find a drainer at work return at once, however
slowly it drains.

A system call whose message finds room reports what was accepted.
-/

namespace Genrt

open Console Function

/-- The bytes that a call wants to write. -/
def WriteCall.message (call : WriteCall) : List UInt8 :=
  match call.given with
  | .writeBytes bytes => bytes
  | .tryWriteFmt pieces => pieces.flatten
  | .sysWrite _ len _ buffer => buffer.take (min len maxUserCopy)

/-- The copy from the program succeeded. -/
def WriteCall.Copied (call : WriteCall) : Prop :=
  ∀ fd len isOpen buffer, call.given = .sysWrite fd len isOpen buffer →
    min len maxUserCopy ≤ buffer.length

def WritePc.call? : WritePc → Option WriteCall
  | .idle => none
  | .pushing call _ | .formatting call _ | .taking call | .popping call | .sending call _
  | .releasing call | .rechecking call | .retaking call => some call

namespace Console

variable {Writer : Type} [DecidableEq Writer] {s t : Console Writer} {id : Writer} {pc : WritePc}

/-- The message of the call was accepted. -/
def Accepted (s : Console Writer) (call : WriteCall) : Prop :=
  call.Copied ∧ (call.number, call.message) ∈ s.messages

/-- Calls push their own bytes, and those that go on to drain or have reported a
length were accepted. -/
structure Reported (s : Console Writer) : Prop where
  copied : ∀ id call, (s.writers id).call? = some call → call.Copied
  pushing : ∀ id call bytes, s.writers id = .pushing call bytes → bytes = call.message
  formatting : ∀ id call pieces, s.writers id = .formatting call pieces →
    call.given = .tryWriteFmt pieces
  looking : ∀ id call, (s.writers id).looks = true → (s.writers id).call? = some call →
    s.Accepted call
  answers : ∀ call n, (call, .written n) ∈ s.answers → 0 < n →
    call.answer true = .written n ∧ s.Accepted call

section

variable (h : Reported s)

include h

/-- One writer goes on with a call. -/
theorem Reported.update (writers : t.writers = update s.writers id pc)
    (messages : s.messages ⊆ t.messages) (copied : ∀ call, pc.call? = some call → call.Copied)
    (pushing : ∀ call bytes, pc = .pushing call bytes → bytes = call.message)
    (formatting : ∀ call pieces, pc = .formatting call pieces → call.given = .tryWriteFmt pieces)
    (looking : ∀ call, pc.looks = true → pc.call? = some call → t.Accepted call)
    (answers : ∀ call n, (call, .written n) ∈ t.answers → 0 < n →
      (call, .written n) ∈ s.answers ∨ call.answer true = .written n ∧ t.Accepted call) :
    Reported t := by
  have more : ∀ call, s.Accepted call → t.Accepted call := fun call accepted =>
    ⟨accepted.1, messages accepted.2⟩
  constructor
  · intro other call running
    rw [writers, update_apply] at running
    split at running
    · exact copied call running
    · exact h.copied other call running
  · intro other call bytes running
    rw [writers, update_apply] at running
    split at running
    · exact pushing call bytes running
    · exact h.pushing other call bytes running
  · intro other call pieces running
    rw [writers, update_apply] at running
    split at running
    · exact formatting call pieces running
    · exact h.formatting other call pieces running
  · intro other call looks running
    rw [writers, update_apply] at looks running
    split at looks
    · next own =>
      rw [if_pos own] at running
      exact looking call looks running
    · next apart =>
      rw [if_neg apart] at running
      exact more call (h.looking other call looks running)
  · intro call n answered some
    rcases answers call n answered some with old | new
    · obtain ⟨answer, accepted⟩ := h.answers call n old some
      exact ⟨answer, more call accepted⟩
    · exact new

variable {call : WriteCall}

/-- A call returns. -/
theorem Reported.answer {answer : WriteAnswer}
    (fair : ∀ n, answer = .written n → 0 < n → call.answer true = .written n ∧ s.Accepted call) :
    Reported (s.answer id call answer) := by
  refine h.update rfl (.refl _) nofun nofun nofun nofun ?_
  intro other n answered some
  rcases List.mem_append.mp answered with old | new
  · exact .inl old
  · cases List.mem_singleton.mp new
    exact .inr (fair n rfl some)

/-- A call whose message was accepted goes on. -/
theorem Reported.go (writers : t.writers = Function.update s.writers id pc)
    (messages : t.messages = s.messages) (answers : t.answers = s.answers)
    (accepted : s.Accepted call) (looks : pc.looks = true) (own : pc.call? = some call) :
    Reported t := by
  refine h.update writers (messages ▸ List.Subset.refl _) ?_ ?_ ?_ ?_ ?_
  · intro other named
    cases own.symm.trans named
    exact accepted.1
  · rintro _ _ rfl
    cases looks
  · rintro _ _ rfl
    cases looks
  · intro other _ named
    cases own.symm.trans named
    exact ⟨accepted.1, messages ▸ accepted.2⟩
  · intro other n answered _
    exact .inl (answers ▸ answered)

theorem Reported.begin (request : WriteRequest) : Reported (s.begin id request) := by
  have counted : Reported { s with calls := s.calls + 1 } :=
    { h with }
  cases request with
  | writeBytes bytes =>
    refine counted.update rfl (.refl _) ?_ ?_ nofun nofun fun _ _ old _ => .inl old
    · rintro _ ⟨⟩ _ _ _ _ ⟨⟩
    · rintro _ _ ⟨⟩
      rfl
  | tryWriteFmt pieces =>
    refine counted.update rfl (.refl _) ?_ nofun ?_ nofun fun _ _ old _ => .inl old
    · rintro _ ⟨⟩ _ _ _ _ ⟨⟩
    · rintro _ _ ⟨⟩
      rfl
  | sysWrite fd len isOpen buffer =>
    unfold Console.begin Console.sysWrite
    dsimp only
    split
    · exact counted.answer nofun
    · split
      · refine counted.answer ?_
        rintro _ ⟨⟩ some
        exact absurd some (Nat.lt_irrefl 0)
      · split
        · exact counted.answer nofun
        · next short =>
          refine counted.update rfl (.refl _) ?_ ?_ nofun nofun
            fun _ _ old _ => .inl old
          · rintro _ ⟨⟩ _ _ _ _ ⟨⟩
            exact Nat.le_of_not_lt short
          · rintro _ _ ⟨⟩
            rfl

/-- If the step is the push of a write system call, it finds room. -/
def roomy (s : Console Writer) : ConsoleMove Writer → Bool
  | .call _ _ => true
  | .advance id =>
    match s.writers id with
    | .pushing ⟨_, .sysWrite _ _ _ _⟩ bytes =>
      decide (bytes.length ≤ consoleTxCapacity - s.queue.len)
    | _ => true

/-- The message of a system call is accepted if it finds room. -/
theorem Reported.pushBytes {bytes : List UInt8} (pc : s.writers id = .pushing call bytes)
    (room : s.roomy (.advance id) = true) : Reported (s.pushBytes id call bytes) := by
  have copied : call.Copied := h.copied id call (by rw [pc]; rfl)
  have own := h.pushing id call bytes pc
  unfold Console.pushBytes
  split
  · refine h.update rfl (List.subset_append_left _ _) ?_ nofun nofun ?_ fun _ _ old _ => .inl old
    · rintro _ ⟨⟩
      exact copied
    · rintro _ _ ⟨⟩
      refine ⟨copied, ?_⟩
      rw [own]
      exact List.mem_append_right _ (.head _)
  · next full =>
    refine h.answer fun n written _ => ?_
    unfold WriteCall.answer at written
    split at written
    · cases written
    · cases written
    · next given =>
      obtain ⟨number, request⟩ := call
      cases given
      rw [roomy, pc] at room
      rw [ConsoleTx.push, if_neg (Nat.not_lt.mpr (of_decide_eq_true room))] at full
      cases full

theorem Reported.pushFmt {pieces : List (List UInt8)}
    (pc : s.writers id = .formatting call pieces) : Reported (s.pushFmt id call pieces) := by
  have copied : call.Copied := h.copied id call (by rw [pc]; rfl)
  have given := h.formatting id call pieces pc
  have message : call.message = pieces.flatten := by rw [WriteCall.message, given]
  unfold Console.pushFmt
  split
  · refine h.update rfl (List.subset_append_left _ _) ?_ nofun nofun ?_ fun _ _ old _ => .inl old
    · rintro _ ⟨⟩
      exact copied
    · rintro _ _ ⟨⟩
      refine ⟨copied, ?_⟩
      rw [message]
      exact List.mem_append_right _ (.head _)
  · have same : Reported { s with queue := (s.queue.tryWriteFmt pieces).2 } :=
      { h with }
    next refused =>
      rw [refused] at same
      refine same.answer fun n written => ?_
      rw [WriteCall.answer, given] at written
      cases written

/-- An accepted call returns. -/
theorem Reported.done (accepted : s.Accepted call) :
    Reported (s.answer id call (call.answer true)) :=
  h.answer fun _ same _ => ⟨same, accepted⟩

theorem Reported.advance (moved : s.advance id = some t) (room : s.roomy (.advance id) = true) :
    Reported t := by
  have accepted : ∀ {pc call}, s.writers id = pc → pc.looks = true → pc.call? = some call →
      s.Accepted call := by
    rintro _ call rfl looks own
    exact h.looking id call looks own
  unfold Console.advance at moved
  split at moved
  · cases moved
  · next pc =>
    cases moved
    exact h.pushBytes pc room
  · next pc =>
    cases moved
    exact h.pushFmt pc
  · next pc =>
    cases moved
    unfold take
    split
    · exact h.done (accepted pc rfl rfl)
    · exact h.go rfl rfl rfl (accepted pc rfl rfl) rfl rfl
  · next pc =>
    cases moved
    unfold take
    split
    · exact h.done (accepted pc rfl rfl)
    · exact h.go rfl rfl rfl (accepted pc rfl rfl) rfl rfl
  · next pc =>
    cases moved
    unfold popChunk
    dsimp only
    split <;> exact h.go rfl rfl rfl (accepted pc rfl rfl) rfl rfl
  · next raw pc =>
    cases moved
    cases raw <;> exact h.go rfl rfl rfl (accepted pc rfl rfl) rfl rfl
  · next pc =>
    cases moved
    exact h.go rfl rfl rfl (accepted pc rfl rfl) rfl rfl
  · next pc =>
    split at moved
    · cases moved
      exact h.done (accepted pc rfl rfl)
    · cases moved
      exact h.go rfl rfl rfl (accepted pc rfl rfl) rfl rfl

end

/-! ### Runs in which every message finds room -/

omit [DecidableEq Writer] in
theorem Reported.of_initial (start : Initial s) : Reported s := by
  have idle := start.idle
  refine ⟨?_, ?_, ?_, ?_, ?_⟩
  · intro id call running
    rw [idle] at running
    cases running
  · intro id call bytes running
    rw [idle] at running
    cases running
  · intro id call pieces running
    rw [idle] at running
    cases running
  · intro id call looks
    rw [idle] at looks
    cases looks
  · intro call n answered
    rw [start.answers] at answered
    cases answered

theorem Reported.of_run {first : Console Writer} (start : Initial first)
    (run : (machine Writer).Run (fun s label => s.roomy label = true) first s) : Reported s := by
  induction run with
  | refl => exact .of_initial start
  | @step s t label _ roomy taken h =>
    cases label with
    | call id request =>
      simp only [machine, move] at taken
      split at taken
      · cases taken
        exact h.begin request
      · cases taken
    | advance id => exact h.advance taken roomy

/-- If every push of a write system call finds room, a call that reports `n` bytes
had the first `n` bytes of its buffer accepted. -/
theorem sysWrite_accepted {first : Console Writer} (start : Initial first)
    (run : (machine Writer).Run (fun s label => s.roomy label = true) first s) {call : WriteCall}
    {n : Nat} (answered : (call, .written n) ∈ s.answers) (some : 0 < n) :
    ∃ fd len isOpen buffer, call.given = .sysWrite fd len isOpen buffer ∧ n ≤ buffer.length ∧
      (call.number, buffer.take n) ∈ s.messages := by
  obtain ⟨answer, copied, accepted⟩ := (Reported.of_run start run).answers call n answered some
  unfold WriteCall.answer at answer
  split at answer
  · cases answer
  · cases answer
  · next fd len isOpen buffer given =>
    cases answer
    refine ⟨fd, len, isOpen, buffer, given, copied fd len isOpen buffer given, ?_⟩
    rw [WriteCall.message, given] at accepted
    exact accepted

/-- One byte is written to an idle console. -/
theorem sysWrite_accepted_once : ∃ s : Console Nat,
    (machine Nat).Run (fun s label => s.roomy label = true) (fresh Nat) s ∧
      (⟨0, .sysWrite 1 1 true [65, 66]⟩, .written 1) ∈ s.answers ∧ (0, [65]) ∈ s.messages := by
  have played : (Machine.execute (fun s label => if s.roomy label then s.move label else none)
      (fresh Nat) (.call 0 (.sysWrite 1 1 true [65, 66]) :: List.replicate 8 (.advance 0))).any
        (fun s => decide ((⟨0, .sysWrite 1 1 true [65, 66]⟩, .written 1) ∈ s.answers)) = true := by
    decide +kernel
  obtain ⟨s, executed, shown⟩ := (Option.any_eq_true _ _).mp played
  have run : (machine Nat).Run (fun s label => s.roomy label = true) (fresh Nat) s := by
    refine .of_execute (fun s label _ t taken => ?_) executed
    split at taken
    · next roomy => exact ⟨roomy, taken⟩
    · cases taken
  have answered := of_decide_eq_true shown
  obtain ⟨fd, len, isOpen, buffer, given, _, accepted⟩ :=
    sysWrite_accepted (initial_fresh Nat) run answered (by decide)
  cases given
  exact ⟨s, run, answered, accepted⟩

/-! ### A dropped message -/

/-- The first writer has become the drainer, and the second one has written `count`
messages of the largest size since. -/
structure Stalled (count : Nat) (s : Console Nat) : Prop where
  reached : (machine Nat).Reachable s
  draining : s.draining = true
  idle : s.writers 1 = .idle
  length : s.queue.len = 1 + 1024 * count
  numbers : ∀ entry ∈ s.messages, entry.1 < s.calls

theorem stalled_zero : ∃ s, Stalled 0 s := by
  obtain ⟨s, reached, shown⟩ := exists_played [.call 0 (.writeBytes [65]), .advance 0, .advance 0]
    (fun s : Console Nat => s.draining && decide ((s.writers 1).call? = none) &&
      decide (s.queue.len = 1) && decide (s.messages.all fun entry => decide (entry.1 < s.calls)))
    (by decide +kernel)
  simp only [Bool.and_eq_true, decide_eq_true_eq, List.all_eq_true] at shown
  obtain ⟨⟨⟨draining, free⟩, length⟩, numbers⟩ := shown
  refine ⟨s, reached, draining, ?_, length, numbers⟩
  cases pc : s.writers 1 with
  | idle => rfl
  | pushing | formatting | taking | popping | sending | releasing | rechecking | retaking =>
    rw [pc] at free
    cases free

variable {count : Nat} {r : Console Nat} {buffer : List UInt8}

/-- The second writer makes a system call. -/
def writing (r : Console Nat) (buffer : List UInt8) : Console Nat :=
  { r with calls := r.calls + 1 }.setPc 1
    (.pushing ⟨r.calls, .sysWrite 1 1024 true buffer⟩ (buffer.take 1024))

/-- Its message is accepted. -/
def queued (r : Console Nat) (buffer : List UInt8) : Console Nat :=
  { writing r buffer with
    queue := r.queue.pushAll (buffer.take 1024)
    messages := r.messages ++ [(r.calls, buffer.take 1024)] }.setPc 1
      (.taking ⟨r.calls, .sysWrite 1 1024 true buffer⟩)

theorem Stalled.reached_writing (h : Stalled count r) (full : buffer.length = 1024) :
    (machine Nat).Reachable (writing r buffer) := by
  have taken : (machine Nat).step r (.call 1 (.sysWrite 1 1024 true buffer))
      (writing r buffer) := by
    simp [machine, move, h.idle, begin, sysWrite, full, maxUserCopy, writing]
  exact h.reached.step taken

/-- The message fits, and the writer leaves it to the drainer. -/
theorem Stalled.succ (h : Stalled count r) (fits : count < 31) (full : buffer.length = 1024) :
    ∃ t, Stalled (count + 1) t := by
  have size : (buffer.take 1024).length = 1024 := by rw [List.length_take, full, Nat.min_self]
  have pushed : r.queue.push (buffer.take 1024) = some (r.queue.pushAll (buffer.take 1024)) := by
    refine if_neg ?_
    rw [h.length, size, consoleTxCapacity]
    omega
  have accepts : (machine Nat).step (writing r buffer) (.advance 1) (queued r buffer) := by
    simp [machine, move, advance, pushBytes, queued, writing, setPc, pushed]
  have leaves : (machine Nat).step (queued r buffer) (.advance 1)
      ((queued r buffer).answer 1 ⟨r.calls, .sysWrite 1 1024 true buffer⟩ (.written 1024)) := by
    simp [machine, move, advance, take, queued, writing, setPc, h.draining,
      WriteCall.answer, maxUserCopy]
  refine ⟨_, ((h.reached_writing full).step accepts).step leaves, h.draining, ?_, ?_, ?_⟩
  · simp [answer, setPc]
  · change (r.queue.pushAll (buffer.take 1024)).len = _
    rw [RingBuffer.len_pushAll, h.length, size]
    omega
  · intro entry member
    rcases List.mem_append.mp member with old | new
    · exact Nat.lt_succ_of_lt (h.numbers entry old)
    · rw [List.mem_singleton.mp new]
      exact Nat.lt_succ_self _

theorem exists_stalled (count : Nat) (fits : count ≤ 31) : ∃ s, Stalled count s := by
  induction count with
  | zero => exact stalled_zero
  | succ count ih =>
    obtain ⟨s, stalled⟩ := ih (Nat.le_of_succ_le fits)
    exact stalled.succ fits (List.length_replicate (n := 1024) (a := 65))

/-- While the drainer stands still, the thirty-second message of a second writer
does not fit. Its system call reports it as written. -/
theorem sysWrite_reports_dropped : ∃ s : Console Nat, (machine Nat).Reachable s ∧
    ∃ call n, (call, .written n) ∈ s.answers ∧ 0 < n ∧
      ∀ bytes, (call.number, bytes) ∉ s.messages := by
  obtain ⟨r, h⟩ := exists_stalled 31 le_rfl
  have full : (List.replicate 1024 (65 : UInt8)).length = 1024 := List.length_replicate
  have size : ((List.replicate 1024 (65 : UInt8)).take 1024).length = 1024 := by
    rw [List.length_take, full, Nat.min_self]
  generalize List.replicate 1024 (65 : UInt8) = buffer at full size
  have dropped : r.queue.push (buffer.take 1024) = none := by
    refine if_pos ?_
    rw [h.length, size, consoleTxCapacity]
    omega
  have reports : (machine Nat).step (writing r buffer) (.advance 1)
      ((writing r buffer).answer 1 ⟨r.calls, .sysWrite 1 1024 true buffer⟩ (.written 1024)) := by
    simp [machine, move, advance, pushBytes, writing, setPc, dropped,
      WriteCall.answer, maxUserCopy]
  refine ⟨_, (h.reached_writing full).step reports, _, 1024,
    List.mem_append_right _ (.head _), by decide, fun bytes member => ?_⟩
  exact Nat.lt_irrefl _ (h.numbers _ member)

end Console

end Genrt
