import Genrt.Console.Output

/-!
# Console output is serialised and never stuck

The flag is set exactly while one writer drains, and while the queue holds bytes
some writer will still look at it: the drainer, one that has just pushed, or one
that has cleared the flag and not looked again. The bytes sent, those of the chunk
in flight and those of the queue are the accepted bytes in the order of the pushes.
-/

namespace Genrt

open Function

/-- The writer owns the flag. -/
def WritePc.drains : WritePc → Bool
  | .popping _ | .sending _ _ | .releasing _ => true
  | _ => false

/-- The writer will look at the queue before it returns. -/
def WritePc.looks : WritePc → Bool
  | .taking _ | .popping _ | .sending _ _ | .releasing _ | .rechecking _ | .retaking _ => true
  | .idle | .pushing _ _ | .formatting _ _ => false

def WritePc.raw? : WritePc → Option (List UInt8)
  | .sending _ raw => some raw
  | _ => none

theorem WritePc.looks_of_drains {pc : WritePc} (drains : pc.drains = true) : pc.looks = true := by
  cases pc <;> first | rfl | cases drains

theorem WritePc.drains_of_raw {pc : WritePc} {raw : List UInt8} (sends : pc.raw? = some raw) :
    pc.drains = true := by
  cases pc <;> first | rfl | cases sends

/-! ### Formatted messages -/

namespace QueueWriter

/-- A writer has pushed a part of the message, or all of it. -/
theorem writeFmt_cases {queue : ConsoleTx} (ring : queue.WellFormed)
    (capacity : queue.capacity = consoleTxCapacity) (pieces : List (List UInt8)) :
    ∃ written, written.length ≤ queue.capacity - queue.len ∧
      (writeFmt ⟨queue, true⟩ pieces).queue = queue.pushAll written ∧
      ((writeFmt ⟨queue, true⟩ pieces).accepted = true → written = pieces.flatten) := by
  induction pieces generalizing queue with
  | nil => exact ⟨[], Nat.zero_le _, rfl, fun _ => rfl⟩
  | cons piece rest ih =>
    rw [writeFmt, writeStr, if_pos rfl, ConsoleTx.push]
    by_cases full : consoleTxCapacity - queue.len < piece.length
    · rw [if_pos full]
      refine ⟨[], Nat.zero_le _, rfl, fun absurd => ?_⟩
      cases absurd
    · have room : piece.length ≤ queue.capacity - queue.len := by omega
      obtain ⟨sound, _, same, _⟩ := ring.pushAll room
      obtain ⟨written, fits, pushed, whole⟩ := ih sound (same.trans capacity)
      rw [if_neg full]
      refine ⟨piece ++ written, ?_, ?_, fun accepted => ?_⟩
      · rw [same, RingBuffer.len_pushAll] at fits
        rw [List.length_append]
        omega
      · rw [pushed, RingBuffer.pushAll, RingBuffer.pushAll, RingBuffer.pushAll, List.foldl_append]
      · rw [whole accepted, List.flatten_cons]

end QueueWriter

/-- A formatted message is appended as a whole, or the contents stay. -/
theorem ConsoleTx.tryWriteFmt_spec {queue : ConsoleTx} (ring : queue.WellFormed)
    (capacity : queue.capacity = consoleTxCapacity) (pieces : List (List UInt8)) :
    (queue.tryWriteFmt pieces).2.WellFormed ∧
      (queue.tryWriteFmt pieces).2.capacity = consoleTxCapacity ∧
      (queue.tryWriteFmt pieces).2.contents =
        if (queue.tryWriteFmt pieces).1 then queue.contents ++ pieces.flatten
        else queue.contents := by
  obtain ⟨written, fits, pushed, whole⟩ := QueueWriter.writeFmt_cases ring capacity pieces
  rw [tryWriteFmt]
  split
  · next accepted =>
    obtain ⟨sound, contents, same, _⟩ := ring.pushAll fits
    rw [if_pos rfl, pushed, ← whole accepted]
    exact ⟨sound, same.trans capacity, contents⟩
  · obtain ⟨sound, contents, same⟩ := ring.rollback fits
    rw [if_neg Bool.false_ne_true, pushed]
    exact ⟨sound, same.trans capacity, contents⟩

theorem ConsoleTx.push_spec {queue next : ConsoleTx} (ring : queue.WellFormed)
    (capacity : queue.capacity = consoleTxCapacity) {bytes : List UInt8}
    (pushed : queue.push bytes = some next) :
    next.WellFormed ∧ next.capacity = consoleTxCapacity ∧
      next.contents = queue.contents ++ bytes := by
  unfold push at pushed
  split at pushed
  · cases pushed
  · next room =>
    cases pushed
    have fits : bytes.length ≤ queue.capacity - queue.len := by omega
    obtain ⟨sound, contents, same, _⟩ := ring.pushAll fits
    exact ⟨sound, same.trans capacity, contents⟩

namespace Console

variable {Writer : Type} [DecidableEq Writer] {s t : Console Writer} {id : Writer} {pc : WritePc}

/-! ### The flag -/

/-- The flag is set exactly while one writer drains. -/
structure Flag (s : Console Writer) : Prop where
  one : ∀ a b, (s.writers a).drains = true → (s.writers b).drains = true → a = b
  set : s.draining = true ↔ ∃ id, (s.writers id).drains = true

section

variable (h : Flag s) (writers : t.writers = update s.writers id pc)

include h writers

theorem Flag.keep (draining : t.draining = s.draining) (same : pc.drains = (s.writers id).drains) :
    Flag t := by
  have drains : ∀ other, (t.writers other).drains = (s.writers other).drains := by
    intro other
    rw [writers, update_apply]
    split
    · next own => rw [same, own]
    · rfl
  constructor
  · simpa only [drains] using h.one
  · simpa only [drains, draining] using h.set

theorem Flag.taken (before : s.draining = false) (after : t.draining = true)
    (drains : pc.drains = true) : Flag t := by
  have none : ∀ other, (s.writers other).drains = false := by
    intro other
    refine Bool.eq_false_iff.mpr fun drains => ?_
    cases before.symm.trans (h.set.mpr ⟨other, drains⟩)
  have only : ∀ other, (t.writers other).drains = true ↔ other = id := by
    intro other
    rw [writers, update_apply]
    split
    · next own => exact iff_of_true drains own
    · next apart => exact iff_of_false (by rw [none]; exact Bool.false_ne_true) apart
  constructor
  · intro a b first second
    rw [(only a).mp first, (only b).mp second]
  · exact iff_of_true after ⟨id, (only id).mpr rfl⟩

theorem Flag.released (own : (s.writers id).drains = true) (after : t.draining = false)
    (drains : pc.drains = false) : Flag t := by
  have none : ∀ other, (t.writers other).drains = false := by
    intro other
    rw [writers, update_apply]
    split
    · exact drains
    · next apart =>
      refine Bool.eq_false_iff.mpr fun other' => apart ?_
      exact h.one other id other' own
  constructor
  · intro a _ first
    cases (none a).symm.trans first
  · refine iff_of_false (by rw [after]; exact Bool.false_ne_true) ?_
    rintro ⟨other, other'⟩
    cases (none other).symm.trans other'

end

/-! ### Bytes in flight -/

/-- What is left of the chunk that is being sent. -/
def InFlight (s : Console Writer) (unsent : List UInt8) : Prop :=
  (∀ id raw, (s.writers id).raw? = some raw → unsent = raw) ∧
    ((∀ id, (s.writers id).raw? = none) → unsent = [])

theorem InFlight.keep {unsent : List UInt8} (h : InFlight s unsent)
    (writers : t.writers = update s.writers id pc)
    (same : pc.raw? = (s.writers id).raw?) : InFlight t unsent := by
  have raw : ∀ other, (t.writers other).raw? = (s.writers other).raw? := by
    intro other
    rw [writers, update_apply]
    split
    · next own => rw [same, own]
    · rfl
  simpa only [InFlight, raw] using h

omit [DecidableEq Writer] in
/-- Only the drainer has bytes in flight. -/
theorem Flag.raw_none (h : Flag s) (own : (s.writers id).drains = true) {other : Writer}
    (apart : other ≠ id) : (s.writers other).raw? = none := by
  cases sends : (s.writers other).raw? with
  | none => rfl
  | some raw => exact absurd (h.one other id (WritePc.drains_of_raw sends) own) apart

theorem InFlight.of_drainer (h : Flag s) (own : (s.writers id).drains = true)
    (writers : t.writers = update s.writers id pc) : InFlight t (pc.raw?.getD []) := by
  have mine : t.writers id = pc := by rw [writers, update_self]
  constructor
  · intro other raw sends
    by_cases same : other = id
    · rw [same, mine] at sends
      rw [sends]
      rfl
    · rw [writers, update_of_ne same, h.raw_none own same] at sends
      cases sends
  · intro none
    rw [← mine, none id]
    rfl

/-! ### The invariant -/

/-- The accepted bytes, in the order of the pushes. -/
def accepted (s : Console Writer) : List UInt8 := (s.messages.map Prod.snd).flatten

structure Drained (s : Console Writer) : Prop where
  ring : s.queue.WellFormed
  capacity : s.queue.capacity = consoleTxCapacity
  flag : Flag s
  watched : s.queue.contents ≠ [] → ∃ id, (s.writers id).looks = true
  sent : ∃ unsent, InFlight s unsent ∧
    s.uart ++ unsent ++ writeBytesRaw s.queue.contents = writeBytesRaw s.accepted

theorem writeBytesRaw_append (first second : List UInt8) :
    writeBytesRaw (first ++ second) = writeBytesRaw first ++ writeBytesRaw second :=
  List.flatMap_append

variable {bytes : List UInt8} {call : WriteCall}

theorem looks_self (writers : t.writers = update s.writers id pc)
    (looks : pc.looks = true) : ∃ other, (t.writers other).looks = true := by
  refine ⟨id, ?_⟩
  rw [writers, update_self]
  exact looks

section

variable (h : Drained s)

include h

/-- A writer that neither drains nor looks goes on. -/
theorem Drained.go (writers : t.writers = update s.writers id pc)
    (queue : t.queue.WellFormed ∧ t.queue.capacity = consoleTxCapacity)
    (contents : t.queue.contents = s.queue.contents) (draining : t.draining = s.draining)
    (uart : t.uart = s.uart) (messages : t.messages = s.messages)
    (drains : pc.drains = (s.writers id).drains) (raw : pc.raw? = (s.writers id).raw?)
    (looks : pc.looks = true ∨ (s.writers id).looks = false ∨ s.queue.contents = [] ∨
      ∃ other, other ≠ id ∧ (s.writers other).looks = true) : Drained t := by
  refine ⟨queue.1, queue.2, h.flag.keep writers draining drains, fun stored => ?_, ?_⟩
  · rw [contents] at stored
    rcases looks with looks | idle | empty | ⟨other, apart, looks⟩
    · exact looks_self writers looks
    · obtain ⟨other, looks⟩ := h.watched stored
      have apart : other ≠ id := by
        rintro rfl
        cases idle.symm.trans looks
      exact ⟨other, by rwa [writers, update_of_ne apart]⟩
    · exact absurd empty stored
    · refine ⟨other, ?_⟩
      rw [writers, update_of_ne apart]
      exact looks
  · obtain ⟨unsent, flight, balance⟩ := h.sent
    refine ⟨unsent, flight.keep writers raw, ?_⟩
    rw [uart, contents, accepted, messages]
    exact balance

/-- A message is accepted. -/
theorem Drained.pushed (writers : t.writers = update s.writers id (.taking call))
    (idle : (s.writers id).drains = false ∧ (s.writers id).raw? = none)
    (queue : t.queue.WellFormed ∧ t.queue.capacity = consoleTxCapacity)
    (contents : t.queue.contents = s.queue.contents ++ bytes) (draining : t.draining = s.draining)
    (uart : t.uart = s.uart) (messages : t.messages = s.messages ++ [(call.number, bytes)]) :
    Drained t := by
  refine ⟨queue.1, queue.2, h.flag.keep writers draining idle.1.symm,
    fun _ => looks_self writers rfl, ?_⟩
  obtain ⟨unsent, flight, balance⟩ := h.sent
  refine ⟨unsent, flight.keep writers idle.2.symm, ?_⟩
  rw [uart, contents, accepted, messages, List.map_append, List.flatten_append,
    List.map_singleton, List.flatten_singleton, writeBytesRaw_append, writeBytesRaw_append,
    ← List.append_assoc, balance]
  rfl

/-! ### Steps -/

theorem Drained.begin (pc : s.writers id = .idle) (request : WriteRequest) :
    Drained (s.begin id request) := by
  have queue := And.intro h.ring h.capacity
  have drains : (s.writers id).drains = false := by rw [pc]; rfl
  have raw : (s.writers id).raw? = none := by rw [pc]; rfl
  have looks : (s.writers id).looks = false := by rw [pc]; rfl
  cases request with
  | writeBytes bytes | tryWriteFmt pieces =>
    exact h.go rfl queue rfl rfl rfl rfl drains.symm raw.symm (.inr (.inl looks))
  | sysWrite fd len isOpen buffer =>
    unfold Console.begin Console.sysWrite
    dsimp only
    split
    · exact h.go rfl queue rfl rfl rfl rfl drains.symm raw.symm (.inr (.inl looks))
    · split
      · exact h.go rfl queue rfl rfl rfl rfl drains.symm raw.symm (.inr (.inl looks))
      · split
        · exact h.go rfl queue rfl rfl rfl rfl drains.symm raw.symm (.inr (.inl looks))
        · exact h.go rfl queue rfl rfl rfl rfl drains.symm raw.symm (.inr (.inl looks))

theorem Drained.pushBytes (pc : s.writers id = .pushing call bytes) :
    Drained (s.pushBytes id call bytes) := by
  have drains : (s.writers id).drains = false := by rw [pc]; rfl
  have raw : (s.writers id).raw? = none := by rw [pc]; rfl
  unfold Console.pushBytes
  split
  · next queue accepted =>
    obtain ⟨ring, capacity, contents⟩ := ConsoleTx.push_spec h.ring h.capacity accepted
    exact h.pushed rfl ⟨drains, raw⟩ ⟨ring, capacity⟩ contents rfl rfl rfl
  · exact h.go rfl ⟨h.ring, h.capacity⟩ rfl rfl rfl rfl drains.symm raw.symm
      (.inr (.inl (by rw [pc]; rfl)))

theorem Drained.pushFmt {pieces : List (List UInt8)} (pc : s.writers id = .formatting call pieces) :
    Drained (s.pushFmt id call pieces) := by
  have drains : (s.writers id).drains = false := by rw [pc]; rfl
  have raw : (s.writers id).raw? = none := by rw [pc]; rfl
  obtain ⟨ring, capacity, contents⟩ := ConsoleTx.tryWriteFmt_spec h.ring h.capacity pieces
  unfold Console.pushFmt
  split
  · next queue accepted =>
    rw [accepted] at ring capacity contents
    exact h.pushed rfl ⟨drains, raw⟩ ⟨ring, capacity⟩ contents rfl rfl rfl
  · next queue refused =>
    rw [refused] at ring capacity contents
    exact h.go rfl ⟨ring, capacity⟩ contents rfl rfl rfl drains.symm raw.symm
      (.inr (.inl (by rw [pc]; rfl)))

/-- A writer that finds the flag set leaves its message to the drainer. -/
theorem Drained.take (call : WriteCall)
    (idle : (s.writers id).drains = false ∧ (s.writers id).raw? = none) :
    Drained (s.take id call) := by
  unfold Console.take
  split
  · next set =>
    obtain ⟨drainer, drains⟩ := h.flag.set.mp set
    have apart : drainer ≠ id := by
      rintro rfl
      cases idle.1.symm.trans drains
    exact h.go rfl ⟨h.ring, h.capacity⟩ rfl rfl rfl rfl idle.1.symm idle.2.symm
      (.inr (.inr (.inr ⟨drainer, apart, WritePc.looks_of_drains drains⟩)))
  · next clear =>
    refine ⟨h.ring, h.capacity, h.flag.taken rfl (Bool.eq_false_iff.mpr clear) rfl rfl,
      fun _ => looks_self rfl rfl, ?_⟩
    obtain ⟨unsent, flight, balance⟩ := h.sent
    exact ⟨unsent, flight.keep rfl idle.2.symm, balance⟩

/-- The drainer goes on. -/
theorem Drained.drain (own : (s.writers id).drains = true)
    (writers : t.writers = update s.writers id pc) (drains : pc.drains = true)
    (queue : t.queue.WellFormed ∧ t.queue.capacity = consoleTxCapacity)
    (draining : t.draining = s.draining) (messages : t.messages = s.messages)
    (balance : t.uart ++ pc.raw?.getD [] ++ writeBytesRaw t.queue.contents =
      s.uart ++ (s.writers id).raw?.getD [] ++ writeBytesRaw s.queue.contents) : Drained t := by
  refine ⟨queue.1, queue.2, h.flag.keep writers draining (drains.trans own.symm),
    fun _ => looks_self writers (WritePc.looks_of_drains drains),
    _, InFlight.of_drainer h.flag own writers, ?_⟩
  obtain ⟨unsent, flight, before⟩ := h.sent
  have owed : unsent = (s.writers id).raw?.getD [] := by
    cases sends : (s.writers id).raw? with
    | some raw => exact flight.1 id raw sends
    | none =>
      refine flight.2 fun other => ?_
      by_cases same : other = id
      · rw [same, sends]
      · exact h.flag.raw_none own same
  rw [balance, ← owed, before, accepted, accepted, messages]

theorem Drained.popChunk (pc : s.writers id = .popping call) : Drained (s.popChunk id call) := by
  have own : (s.writers id).drains = true := by rw [pc]; rfl
  obtain ⟨ring, chunk, left, capacity⟩ := h.ring.popUpTo consoleTxDrainChunk
  have queue := And.intro ring (capacity.trans h.capacity)
  have split : writeBytesRaw s.queue.contents =
      writeBytesRaw s.queue.popChunk.1 ++ writeBytesRaw s.queue.popChunk.2.contents := by
    rw [ConsoleTx.popChunk, chunk, left, ← writeBytesRaw_append, List.take_append_drop]
  unfold Console.popChunk
  dsimp only
  split
  · next none =>
    refine h.drain own rfl rfl queue rfl rfl ?_
    rw [split, none, pc]
    rfl
  · refine h.drain own rfl rfl queue rfl rfl ?_
    rw [split, pc]
    change s.uart ++ writeBytesRaw s.queue.popChunk.1 ++ _ = s.uart ++ [] ++ _
    rw [List.append_nil, List.append_assoc]
    rfl

theorem Drained.send {raw : List UInt8} (pc : s.writers id = .sending call raw) :
    Drained (s.send id call raw) := by
  have own : (s.writers id).drains = true := by rw [pc]; rfl
  cases raw with
  | nil =>
    refine h.drain own rfl rfl ⟨h.ring, h.capacity⟩ rfl rfl ?_
    rw [pc]
    rfl
  | cons c rest =>
    refine h.drain own rfl rfl ⟨h.ring, h.capacity⟩ rfl rfl ?_
    rw [pc]
    change s.uart ++ [c] ++ rest ++ _ = s.uart ++ (c :: rest) ++ _
    rw [List.append_assoc s.uart, List.singleton_append]
    rfl

theorem Drained.release (pc : s.writers id = .releasing call) :
    Drained ({ s with draining := false }.setPc id (.rechecking call)) := by
  have own : (s.writers id).drains = true := by rw [pc]; rfl
  refine ⟨h.ring, h.capacity, h.flag.released rfl own rfl rfl, fun _ => looks_self rfl rfl, ?_⟩
  obtain ⟨unsent, flight, balance⟩ := h.sent
  exact ⟨unsent, flight.keep rfl (by rw [pc]; rfl), balance⟩

theorem Drained.advance (moved : s.advance id = some t) : Drained t := by
  unfold Console.advance at moved
  split at moved
  · cases moved
  · next pc =>
    cases moved
    exact h.pushBytes pc
  · next pc =>
    cases moved
    exact h.pushFmt pc
  · next pc =>
    cases moved
    exact h.take _ (by rw [pc]; exact ⟨rfl, rfl⟩)
  · next pc =>
    cases moved
    exact h.take _ (by rw [pc]; exact ⟨rfl, rfl⟩)
  · next pc =>
    cases moved
    exact h.popChunk pc
  · next pc =>
    cases moved
    exact h.send pc
  · next pc =>
    cases moved
    exact h.release pc
  · next pc =>
    have drains : (s.writers id).drains = false := by rw [pc]; rfl
    have raw : (s.writers id).raw? = none := by rw [pc]; rfl
    split at moved
    · next empty =>
      have contents : s.queue.contents = [] := by
        rw [RingBuffer.contents, of_decide_eq_true empty]
        rfl
      cases moved
      exact h.go rfl ⟨h.ring, h.capacity⟩ rfl rfl rfl rfl drains.symm raw.symm
        (.inr (.inr (.inl contents)))
    · cases moved
      exact h.go rfl ⟨h.ring, h.capacity⟩ rfl rfl rfl rfl drains.symm raw.symm (.inl rfl)

end

/-! ### Whole runs -/

omit [DecidableEq Writer] in
theorem Drained.of_initial (start : Initial s) : Drained s := by
  have idle : ∀ id, s.writers id = .idle := start.idle
  have contents : s.queue.contents = [] := by
    rw [start.queue]
    rfl
  refine ⟨?_, ?_, ⟨fun a _ drains => ?_, ?_⟩, fun stored => absurd contents stored, [], ?_, ?_⟩
  · rw [start.queue]
    exact RingBuffer.wellFormed_new (by decide)
  · rw [start.queue]
    exact RingBuffer.capacity_new _ _
  · rw [idle] at drains
    cases drains
  · refine iff_of_false (by rw [start.draining]; exact Bool.false_ne_true) ?_
    rintro ⟨id, drains⟩
    rw [idle] at drains
    cases drains
  · refine ⟨fun id raw sends => ?_, fun _ => rfl⟩
    rw [idle] at sends
    cases sends
  · rw [contents, start.uart, accepted, start.messages]
    rfl

theorem Drained.move (h : Drained s) {label : ConsoleMove Writer} (taken : s.move label = some t) :
    Drained t := by
  cases label with
  | call id request =>
    simp only [Console.move] at taken
    split at taken
    · next pc =>
      cases taken
      exact h.begin pc request
    · cases taken
  | advance id => exact h.advance taken

theorem Drained.of_reachable (reached : (machine Writer).Reachable s) : Drained s :=
  reached.invariant (fun _ => .of_initial) fun _ _ _ _ h taken => h.move taken

/-- One writer drains at a time. The UART gets the accepted bytes in the order of
the pushes, and when no writer is in a call it has got all of them. A formatted
message is appended as a whole or not at all. -/
theorem console_serialised (reached : (machine Writer).Reachable s) :
    (∀ a b, (s.writers a).drains = true → (s.writers b).drains = true → a = b) ∧
    (∃ unsent, InFlight s unsent ∧
      s.uart ++ unsent ++ writeBytesRaw s.queue.contents = writeBytesRaw s.accepted) ∧
    (∀ pieces, (s.queue.tryWriteFmt pieces).2.contents =
      if (s.queue.tryWriteFmt pieces).1 then s.queue.contents ++ pieces.flatten
      else s.queue.contents) ∧
    ((∀ id, s.writers id = .idle) →
      s.queue.contents = [] ∧ s.draining = false ∧ s.uart = writeBytesRaw s.accepted ∧
        readText s.uart = some s.accepted) := by
  have h := Drained.of_reachable reached
  obtain ⟨unsent, flight, balance⟩ := h.sent
  refine ⟨h.flag.one, ⟨unsent, flight, balance⟩,
    fun pieces => (ConsoleTx.tryWriteFmt_spec h.ring h.capacity pieces).2.2, fun idle => ?_⟩
  have empty : s.queue.contents = [] := by
    by_contra stored
    obtain ⟨id, looks⟩ := h.watched stored
    rw [idle] at looks
    cases looks
  have clear : s.draining = false := by
    refine Bool.eq_false_iff.mpr fun set => ?_
    obtain ⟨id, drains⟩ := h.flag.set.mp set
    rw [idle] at drains
    cases drains
  have none : unsent = [] := flight.2 fun id => by rw [idle]; rfl
  rw [empty, none, List.append_nil] at balance
  have all : s.uart = writeBytesRaw s.accepted := (List.append_nil _).symm.trans balance
  exact ⟨empty, clear, all, all ▸ readText_writeBytesRaw _⟩

/-- A second writer leaves its message to the first one, which is in the middle of
a line end. -/
theorem console_serialised_twice : ∃ s : Console Nat, (machine Nat).Reachable s ∧ s.uart = [13] ∧
    s.messages = [(0, [10]), (1, [66])] ∧
    s.uart ++ [10] ++ writeBytesRaw s.queue.contents = writeBytesRaw s.accepted := by
  obtain ⟨s, reached, shown⟩ := exists_played
    [.call 0 (.writeBytes [10]), .advance 0, .advance 0, .advance 0,
      .call 1 (.writeBytes [66]), .advance 1, .advance 1, .advance 0]
    (fun s : Console Nat => decide (s.uart = [13]) &&
      decide (s.messages = [(0, [10]), (1, [66])]) && decide ((s.writers 0).raw? = some [10]))
    (by decide +kernel)
  simp only [Bool.and_eq_true, decide_eq_true_eq] at shown
  obtain ⟨⟨uart, messages⟩, raw⟩ := shown
  obtain ⟨unsent, flight, balance⟩ := (console_serialised reached).2.1
  obtain rfl := flight.1 0 _ raw
  exact ⟨s, reached, uart, messages, balance⟩

end Console

end Genrt
