import Genrt.Basic
import Genrt.Foundation.Machine
import Genrt.Foundation.RingBuffer

/-!
# Console output

Writers push whole messages into a ring under its lock, and one of them at a time
sends its bytes to the UART outside the lock. A flag names the drainer: a writer
that finds it set returns at once, and the drainer looks at the ring once more
after it has cleared the flag.

Every access to the ring, to the flag and to the UART is one step of a writer, and
the steps of all writers interleave freely.
-/

namespace Genrt

def consoleTxCapacity : Nat := 32 * 1024

def consoleTxDrainChunk : Nat := 64

/-! ### The queue under its lock -/

abbrev ConsoleTx := RingBuffer UInt8

namespace ConsoleTx

def new : ConsoleTx := RingBuffer.new consoleTxCapacity 0

/-- All bytes, or none. -/
def push (queue : ConsoleTx) (bytes : List UInt8) : Option ConsoleTx :=
  if consoleTxCapacity - queue.len < bytes.length then none else some (queue.pushAll bytes)

def popChunk (queue : ConsoleTx) : List UInt8 × ConsoleTx := queue.popUpTo consoleTxDrainChunk

end ConsoleTx

/-- A byte as the UART gets it. -/
def putcRaw (c : UInt8) : List UInt8 := if c = 10 then [13, c] else [c]

def writeBytesRaw (bytes : List UInt8) : List UInt8 := bytes.flatMap putcRaw

/-- What a terminal reads that takes a carriage return and a line feed for the end of a
line. A line feed alone is not text. -/
def readText : List UInt8 → Option (List UInt8)
  | [] => some []
  | 13 :: 10 :: rest => (readText rest).map (10 :: ·)
  | 10 :: _ => none
  | c :: rest => (readText rest).map (c :: ·)

theorem head?_writeBytesRaw (bytes : List UInt8) : (writeBytesRaw bytes).head? ≠ some 10 := by
  cases bytes with
  | nil => simp [writeBytesRaw]
  | cons c rest =>
    rw [writeBytesRaw, List.flatMap_cons, putcRaw]
    split
    · simp
    · simpa

/-- The terminal reads the bytes as they were written. -/
theorem readText_writeBytesRaw (bytes : List UInt8) :
    readText (writeBytesRaw bytes) = some bytes := by
  induction bytes with
  | nil => rfl
  | cons c rest ih =>
    have front := head?_writeBytesRaw rest
    rw [writeBytesRaw, List.flatMap_cons, ← writeBytesRaw, putcRaw]
    split
    · next line => rw [List.cons_append, List.singleton_append, line, readText, ih, Option.map_some]
    · next plain =>
      rw [List.singleton_append, readText, ih, Option.map_some]
      · intro tail _ line
        exact front (by rw [line, List.head?_cons])
      · exact plain

structure QueueWriter where
  queue : ConsoleTx
  accepted : Bool

namespace QueueWriter

def writeStr (writer : QueueWriter) (value : List UInt8) : Bool × QueueWriter :=
  if writer.accepted then
    match writer.queue.push value with
    | some queue => (true, { writer with queue := queue })
    | none => (false, { writer with accepted := false })
  else (false, { writer with accepted := false })

/-- Formatting writes the pieces of a message until the writer fails. -/
def writeFmt (writer : QueueWriter) : List (List UInt8) → QueueWriter
  | [] => writer
  | piece :: rest =>
    match writer.writeStr piece with
    | (true, writer) => writer.writeFmt rest
    | (false, writer) => writer

end QueueWriter

/-- The locked part of `try_write_fmt`. -/
def ConsoleTx.tryWriteFmt (queue : ConsoleTx) (pieces : List (List UInt8)) : Bool × ConsoleTx :=
  let writer := QueueWriter.writeFmt ⟨queue, true⟩ pieces
  if writer.accepted then (true, writer.queue) else (false, writer.queue.rollback queue)

/-! ### Calls -/

inductive WriteErrno where
  | ebadf
  | enotsup
  | efault
deriving DecidableEq, Repr

/-- A call with its arguments. For a system call `isOpen` says whether the
descriptor is open, and `buffer` are the bytes that can be read at its address. -/
inductive WriteRequest where
  | writeBytes (bytes : List UInt8)
  | tryWriteFmt (pieces : List (List UInt8))
  | sysWrite (fd len : Nat) (isOpen : Bool) (buffer : List UInt8)
deriving DecidableEq

inductive WriteAnswer where
  | done
  | formatted (accepted : Bool)
  | written (count : Nat)
  | failed (errno : WriteErrno)
deriving DecidableEq

/-- The number of a call and its arguments. -/
structure WriteCall where
  number : Nat
  given : WriteRequest
deriving DecidableEq

/-- What a call returns after its message was accepted or dropped. -/
def WriteCall.answer (call : WriteCall) (accepted : Bool) : WriteAnswer :=
  match call.given with
  | .writeBytes _ => .done
  | .tryWriteFmt _ => .formatted accepted
  | .sysWrite _ len _ _ => .written (min len maxUserCopy)

/-- What a writer does next. -/
inductive WritePc where
  | idle
  | pushing (call : WriteCall) (bytes : List UInt8)
  | formatting (call : WriteCall) (pieces : List (List UInt8))
  /-- Try to become the drainer. -/
  | taking (call : WriteCall)
  | popping (call : WriteCall)
  /-- Send to the UART what is left of a chunk. -/
  | sending (call : WriteCall) (raw : List UInt8)
  /-- Clear the flag. -/
  | releasing (call : WriteCall)
  /-- Look at the queue once more. -/
  | rechecking (call : WriteCall)
  | retaking (call : WriteCall)

/-- All writers. The last four fields are what statements about whole runs read:
the bytes sent to the UART, the accepted messages with the numbers of their calls,
the answers, and the number of calls. -/
structure Console (Writer : Type) where
  queue : ConsoleTx
  draining : Bool
  writers : Writer → WritePc
  uart : List UInt8
  messages : List (Nat × List UInt8)
  answers : List (WriteCall × WriteAnswer)
  calls : Nat

namespace Console

variable {Writer : Type} [DecidableEq Writer] (s : Console Writer)

def setPc (id : Writer) (pc : WritePc) : Console Writer :=
  { s with writers := Function.update s.writers id pc }

/-- A call returns. -/
def answer (id : Writer) (call : WriteCall) (answer : WriteAnswer) : Console Writer :=
  { s.setPc id .idle with answers := s.answers ++ [(call, answer)] }

/-- `sys_write` up to `write_bytes`. -/
def sysWrite (id : Writer) (call : WriteCall) (fd len : Nat) (isOpen : Bool)
    (buffer : List UInt8) : Console Writer :=
  if fd ≠ 1 ∧ fd ≠ 2 then s.answer id call (.failed (if isOpen then .enotsup else .ebadf))
  else if len = 0 then s.answer id call (.written 0)
  else if buffer.length < min len maxUserCopy then s.answer id call (.failed .efault)
  else s.setPc id (.pushing call (buffer.take (min len maxUserCopy)))

/-- A writer calls. -/
def begin (id : Writer) (request : WriteRequest) : Console Writer :=
  let call : WriteCall := ⟨s.calls, request⟩
  let s := { s with calls := s.calls + 1 }
  match request with
  | .writeBytes bytes => s.setPc id (.pushing call bytes)
  | .tryWriteFmt pieces => s.setPc id (.formatting call pieces)
  | .sysWrite fd len isOpen buffer => s.sysWrite id call fd len isOpen buffer

/-- `write_bytes` pushes; a message that does not fit is dropped. -/
def pushBytes (id : Writer) (call : WriteCall) (bytes : List UInt8) : Console Writer :=
  match s.queue.push bytes with
  | some queue =>
    { s with queue := queue, messages := s.messages ++ [(call.number, bytes)] }.setPc id
      (.taking call)
  | none => s.answer id call (call.answer false)

/-- `try_write_fmt` pushes. -/
def pushFmt (id : Writer) (call : WriteCall) (pieces : List (List UInt8)) : Console Writer :=
  match s.queue.tryWriteFmt pieces with
  | (true, queue) =>
    { s with queue := queue, messages := s.messages ++ [(call.number, pieces.flatten)] }.setPc id
      (.taking call)
  | (false, queue) => { s with queue := queue }.answer id call (call.answer false)

/-- Set the flag if it is clear, or return. -/
def take (id : Writer) (call : WriteCall) : Console Writer :=
  if s.draining then s.answer id call (call.answer true)
  else { s with draining := true }.setPc id (.popping call)

/-- Pop a chunk, and leave the inner loop when there is none. -/
def popChunk (id : Writer) (call : WriteCall) : Console Writer :=
  let (chunk, queue) := s.queue.popChunk
  if chunk = [] then { s with queue := queue }.setPc id (.releasing call)
  else { s with queue := queue }.setPc id (.sending call (writeBytesRaw chunk))

/-- Send one byte to the UART. -/
def send (id : Writer) (call : WriteCall) : List UInt8 → Console Writer
  | [] => s.setPc id (.popping call)
  | c :: rest => { s with uart := s.uart ++ [c] }.setPc id (.sending call rest)

/-- The next step of a writer, if it is in a call. -/
def advance (id : Writer) : Option (Console Writer) :=
  match s.writers id with
  | .idle => none
  | .pushing call bytes => some (s.pushBytes id call bytes)
  | .formatting call pieces => some (s.pushFmt id call pieces)
  | .taking call | .retaking call => some (s.take id call)
  | .popping call => some (s.popChunk id call)
  | .sending call raw => some (s.send id call raw)
  | .releasing call => some ({ s with draining := false }.setPc id (.rechecking call))
  | .rechecking call =>
    if s.queue.isEmpty then some (s.answer id call (call.answer true))
    else some (s.setPc id (.retaking call))

end Console

/-- A writer calls, or goes on with its call. -/
inductive ConsoleMove (Writer : Type) where
  | call (id : Writer) (request : WriteRequest)
  | advance (id : Writer)

namespace Console

variable {Writer : Type} [DecidableEq Writer]

def move (s : Console Writer) : ConsoleMove Writer → Option (Console Writer)
  | .call id request =>
    match s.writers id with
    | .idle => some (s.begin id request)
    | _ => none
  | .advance id => s.advance id

/-- Nothing has been written. -/
structure Initial (s : Console Writer) : Prop where
  queue : s.queue = .new
  draining : s.draining = false
  idle : ∀ id, s.writers id = .idle
  uart : s.uart = []
  messages : s.messages = []
  answers : s.answers = []
  calls : s.calls = 0

/-- All interleavings. -/
def machine (Writer : Type) [DecidableEq Writer] :
    Machine (Console Writer) (ConsoleMove Writer) where
  initial := Initial
  step s label t := s.move label = some t

/-! ### Executions -/

/-- The console before its first message. -/
def fresh (Writer : Type) : Console Writer := ⟨.new, false, fun _ => .idle, [], [], [], 0⟩

theorem initial_fresh (Writer : Type) : Initial (fresh Writer) :=
  ⟨rfl, rfl, fun _ => rfl, rfl, rfl, rfl, rfl⟩

/-- What an execution shows holds in some reachable state. -/
theorem exists_played (labels : List (ConsoleMove Writer)) (shows : Console Writer → Bool)
    (played : (Machine.execute move (fresh Writer) labels).any shows = true) :
    ∃ s, (machine Writer).Reachable s ∧ shows s = true := by
  obtain ⟨s, run, shown⟩ := (Option.any_eq_true _ _).mp played
  have initial : (machine Writer).Reachable (fresh Writer) := .initial (initial_fresh Writer)
  exact ⟨s, initial.of_execute (fun _ _ _ taken => taken) run, shown⟩

end Console

end Genrt
