import Genrt.Foundation.Machine
import Genrt.Foundation.RingBuffer
import Genrt.Sched.Wait

/-!
# Standard input

The receive interrupt pushes bytes into a ring, and reads pop them. One reader can
sleep until the next byte. Its token is the waiter of the ring until a byte takes
it, and the completed token from then on until the reader takes that: the byte
handler completes the wait only after it has released the ring, and the reader
executes its system call again before it consumes its wait.

The pieces of a read and of a byte handler are single steps, and the steps of all
readers and handlers interleave freely.
-/

namespace Genrt

open Function

def stdinRxCapacity : Nat := 256

/-! ### The receive ring under its lock -/

structure StdinRx where
  ring : RingBuffer UInt8
  overflowCount : Nat
  waiter : Option WaitToken
  completed : Option WaitToken

namespace StdinRx

def new : StdinRx := ⟨.new stdinRxCapacity 0, 0, none, none⟩

/-- Bytes that find the ring full are dropped and counted. The count is a `usize`
that saturates. -/
def push (rx : StdinRx) (byte : UInt8) : Option WaitToken × StdinRx :=
  if rx.ring.len = stdinRxCapacity then
    (none, { rx with overflowCount := min (rx.overflowCount + 1) (2 ^ 64 - 1) })
  else
    let rx := { rx with ring := rx.ring.push byte }
    match rx.waiter with
    | some token => (some token, { rx with waiter := none, completed := some token })
    | none => (none, rx)

def popInto (rx : StdinRx) (length : Nat) : List UInt8 × StdinRx :=
  let popped := rx.ring.popUpTo length
  (popped.1, { rx with ring := popped.2 })

def isEmpty (rx : StdinRx) : Bool := rx.ring.isEmpty

def registerWaiter (rx : StdinRx) (waiter : WaitToken) : Bool × StdinRx :=
  if rx.completed.isSome then (false, rx)
  else match rx.waiter with
    | some existing => if existing = waiter then (true, rx) else (false, rx)
    | none => (true, { rx with waiter := some waiter })

def takeCompleted (rx : StdinRx) (current : ThreadId) : Option WaitToken × StdinRx :=
  match rx.completed with
  | some token =>
    if token.thread = current then (some token, { rx with completed := none }) else (none, rx)
  | none => (none, rx)

end StdinRx

/-! ### Reads -/

inductive StdinPanic where
  | consumedBeforeCompletion
  | staleBeforeCommit
  | scheduler (panic : Panic)
deriving DecidableEq, Repr

/-- What a read returns to its program. -/
inductive ReadResult where
  | bytes (taken : List UInt8)
  | fault
  | notSupported
deriving DecidableEq

/-- What a reader does next. Its system call reads up to `length` bytes; `again`
marks the second read of a call that found the ring filled meanwhile. -/
inductive ReadPc where
  /-- The thread runs its program. -/
  | user
  /-- Pop bytes and take the completed token. -/
  | reading (length : Nat) (again : Bool)
  /-- Consume the wait of the token that was taken. -/
  | finishing (length : Nat) (again : Bool) (token : WaitToken) (taken : List UInt8)
  /-- Register if the ring is still empty. -/
  | blocking (length : Nat)
  | committing (length : Nat) (prepared : PreparedWait)
  | blocked (length : Nat) (token : WaitToken)

structure Reader where
  cpu : CpuId
  wait : WaitMetadata
  pc : ReadPc

/-- All readers and byte handlers. `notifying` are the tokens of the handlers that
have released the ring. The last fields are what statements about whole runs read:
the accepted bytes, the bytes that reads took, what the reads returned, and the
ring's bytes and the number of accepted bytes at the last registration. -/
structure Stdin where
  rx : StdinRx
  readers : ThreadId → Reader
  notifying : List WaitToken
  accepted : List UInt8
  taken : List UInt8
  results : List (ThreadId × ReadResult)
  registeredWith : List UInt8
  registeredAt : Nat

namespace Stdin

variable (s : Stdin)

def setReader (id : ThreadId) (reader : Reader) : Stdin :=
  { s with readers := update s.readers id reader }

@[simp] theorem readers_setReader_self (id : ThreadId) (reader : Reader) :
    (s.setReader id reader).readers id = reader := update_self ..

theorem readers_setReader_of_ne {id other : ThreadId} (reader : Reader) (apart : other ≠ id) :
    (s.setReader id reader).readers other = s.readers other := update_of_ne apart ..

def setPc (id : ThreadId) (pc : ReadPc) : Stdin := s.setReader id { s.readers id with pc := pc }

def returns (id : ThreadId) (result : ReadResult) : Stdin :=
  { s.setPc id .user with results := s.results ++ [(id, result)] }

/-- `sys_read_stdin` checks its arguments. -/
def sysReadStdin (id : ThreadId) (count : Nat) (writable : Bool) : Stdin :=
  if count = 0 then s.returns id (.bytes [])
  else if writable then s.setPc id (.reading (min count maxUserCopy) false)
  else s.returns id .fault

/-- `sys_read_stdin` goes on after a read. -/
def afterRead (id : ThreadId) (length : Nat) (again : Bool) (taken : List UInt8) : Stdin :=
  if taken ≠ [] then s.returns id (.bytes taken)
  else if again then s.returns id .fault
  else s.setPc id (.blocking length)

/-- The locked part of `read_stdin`. -/
def readStdin (id : ThreadId) (length : Nat) (again : Bool) : Stdin :=
  let (taken, rx) := s.rx.popInto length
  let (completed, rx) := rx.takeCompleted id
  let s := { s with rx := rx, taken := s.taken ++ taken }
  match completed with
  | some token => s.setPc id (.finishing length again token taken)
  | none => s.afterRead id length again taken

/-- The rest of `read_stdin`. -/
def finishRead (id : ThreadId) (length : Nat) (again : Bool) (token : WaitToken)
    (taken : List UInt8) : Except StdinPanic Stdin :=
  let reader := s.readers id
  match reader.wait.finish token with
  | (.error .notCompleted, _) => .error .consumedBeforeCompletion
  | (_, wait) => .ok ((s.setReader id { reader with wait := wait }).afterRead id length again taken)

/-- The locked part of `block_current_stdin_read_if_empty`. -/
def registerIfEmpty (id : ThreadId) (length : Nat) : Except StdinPanic Stdin :=
  if s.rx.isEmpty then
    let reader := s.readers id
    match reader.wait.prepareWithConsumption id reader.cpu .explicit with
    | .error panic => .error (.scheduler panic)
    | .ok (prepared, wait) =>
      match s.rx.registerWaiter prepared.token with
      | (true, rx) =>
        .ok ({ s with
          rx := rx
          registeredWith := s.rx.ring.contents
          registeredAt := s.accepted.length }.setReader id
            { reader with wait := wait, pc := .committing length prepared })
      | (false, _) =>
        .ok ((s.setReader id { reader with wait := (wait.cancel prepared).2 }).returns id
          .notSupported)
  else .ok (s.setPc id (.reading length true))

/-- The call is executed again once the thread runs; it has its old arguments. -/
def commitRead (id : ThreadId) (length : Nat) (prepared : PreparedWait) : Except StdinPanic Stdin :=
  let reader := s.readers id
  match reader.wait.commit prepared with
  | (.block token, wait) =>
    .ok (s.setReader id { reader with wait := wait, pc := .blocked length token })
  | (.early _, wait) =>
    .ok (s.setReader id { reader with wait := wait, pc := .reading length false })
  | (.stale, _) => .error .staleBeforeCommit

/-- The next step of a reader, if it can take one. -/
def advance (id : ThreadId) : Except StdinPanic (Option Stdin) :=
  match (s.readers id).pc with
  | .user => .ok none
  | .reading length again => .ok (some (s.readStdin id length again))
  | .finishing length again token taken => some <$> s.finishRead id length again token taken
  | .blocking length => some <$> s.registerIfEmpty id length
  | .committing length prepared => some <$> s.commitRead id length prepared
  | .blocked length _ =>
    if (s.readers id).wait.isCompleted then .ok (some (s.setPc id (.reading length false)))
    else .ok none

/-- The locked part of `on_stdin_byte`. -/
def onStdinByte (byte : UInt8) : Stdin :=
  let (waiter, rx) := s.rx.push byte
  { s with
    rx := rx
    notifying := waiter.toList ++ s.notifying
    accepted := if s.rx.ring.len = stdinRxCapacity then s.accepted else s.accepted ++ [byte] }

/-- The rest of `on_stdin_byte`. -/
def notify (token : WaitToken) : Option Stdin :=
  if token ∈ s.notifying then
    let reader := s.readers token.thread
    some ({ s with notifying := s.notifying.erase token }.setReader token.thread
      { reader with wait := (reader.wait.complete token .notified).2 })
  else none

/-- A thread registers and consumes a wait of another kind between its reads. -/
def waitElsewhere (id : ThreadId) : Option Stdin :=
  let reader := s.readers id
  match reader.pc with
  | .user =>
    some (s.setReader id
      { reader with wait := { reader.wait with nextSequence := reader.wait.nextSequence + 1 } })
  | _ => none

end Stdin

/-- A program reads, a reader goes on, a byte arrives or its handler completes a
wait, or a thread waits for something else. -/
inductive StdinMove where
  | read (id : ThreadId) (count : Nat) (writable : Bool)
  | advance (id : ThreadId)
  | byte (byte : UInt8)
  | notify (token : WaitToken)
  | elsewhere (id : ThreadId)

namespace Stdin

def move (s : Stdin) : StdinMove → Except StdinPanic (Option Stdin)
  | .read id count writable =>
    match (s.readers id).pc with
    | .user => .ok (some (s.sysReadStdin id count writable))
    | _ => .ok none
  | .advance id => s.advance id
  | .byte byte => .ok (some (s.onStdinByte byte))
  | .notify token => .ok (s.notify token)
  | .elsewhere id => .ok (s.waitElsewhere id)

/-- No byte has arrived, and nobody reads or waits. -/
structure Initial (s : Stdin) : Prop where
  rx : s.rx = .new
  idle : ∀ id, (s.readers id).pc = .user ∧ (s.readers id).wait.active = none
  notifying : s.notifying = []
  accepted : s.accepted = []
  taken : s.taken = []

/-- All interleavings. -/
def machine : Machine Stdin StdinMove where
  initial := Initial
  step s label t := s.move label = .ok (some t)

/-! ### Executions -/

/-- Threads on the boot processor before their first read. -/
def fresh : Stdin where
  rx := .new
  readers _ := ⟨0, ⟨0, none⟩, .user⟩
  notifying := []
  accepted := []
  taken := []
  results := []
  registeredWith := []
  registeredAt := 0

/-- What an execution shows holds in some reachable state. -/
theorem exists_played (labels : List StdinMove) (shows : Stdin → Bool)
    (played : (Machine.execute (Machine.attempt move) fresh labels).any shows = true) :
    ∃ s, machine.Reachable s ∧ shows s = true := by
  have start : Initial fresh := ⟨rfl, fun _ => ⟨rfl, rfl⟩, rfl, rfl, rfl⟩
  exact Machine.exists_executed (fun _ _ _ taken => taken) start labels shows played

end Stdin

end Genrt
