import Genrt.Foundation.Words
import Genrt.Basic
import Genrt.Memory.Types

/-!
# Copies between user and kernel memory

The kernel copies through the user addresses of the running process. A range is
validated first, page by page; the bytes are then moved as words where the user
address is aligned, and one by one at the edges. There is no recovery from a load or
store that faults, so a copy must not touch what it has not validated.

A state holds the bytes of both sides and a trace of validations and accesses. An access
outside the installed tables and a word access at an address that is not aligned stop
the kernel.
-/

namespace Genrt.UserCopy

open Effect Words

inductive UserCopyError where
  | empty
  | tooLarge
  | nameTooLong
  | addressOverflow
  | notUserRange
  | notMapped
  | notReadable
  | notWritable
  | noCurrentAddressSpace
  | outOfMemory
deriving DecidableEq, Repr

inductive AccessKind where
  | read
  | write
deriving DecidableEq, Repr

/-- The user side of the processor: the translations of the installed tables by page
number, the address space that user pointers belong to, if there is one, and the tables of
all address spaces. That address space is the installed one. -/
structure UserView where
  installed : Nat → Option UserMappingInfo
  current : Option Nat
  tables : Nat → Nat → Option UserMappingInfo
  active : ∀ space, current = some space → tables space = installed

namespace UserView

def currentUserAddressSpace (view : UserView) : Option Nat := view.current

def queryUserMapping (view : UserView) (space va : Nat) : Option UserMappingInfo :=
  (view.tables space (va / pageSize)).map fun info => { info with pa := info.pa + va % pageSize }

/-- User code could load from the page: the processor translates for it. -/
def el0Readable (view : UserView) (va : Nat) : Bool :=
  match view.installed (va / pageSize) with
  | none => false
  | some info => info.user && info.readable

def currentUserPageReadable (view : UserView) (va : Nat) : Bool :=
  view.currentUserAddressSpace.isSome && view.el0Readable va

end UserView

/-! ### Loads and stores -/

inductive CopyEvent where
  | validated (range : AddrRange) (access : AccessKind)
  | touched (range : AddrRange) (access : AccessKind)
deriving DecidableEq, Repr

/-- The trace is newest first. -/
structure CopyState where
  user : ByteMemory
  kernel : ByteMemory
  trace : List CopyEvent

/-- What stops the kernel. -/
inductive CopyFault where
  | dataAbort
  | misaligned
  | overflow
  | diverges
deriving DecidableEq, Repr

abbrev CopyM := Effect CopyState CopyFault

def allows (info : UserMappingInfo) : AccessKind → Bool
  | .read => info.user && info.readable
  | .write => info.user && info.writable

def UserView.translates (view : UserView) (access : AccessKind) (va : Nat) : Bool :=
  match view.installed (va / pageSize) with
  | none => false
  | some info => allows info access

def touch (view : UserView) (access : AccessKind) (address size : Nat) : CopyM Unit := do
  stopIf (address % size ≠ 0) .misaligned
  stopIf (∃ offset < size, view.translates access (address + offset) = false) .dataAbort
  modify fun s => { s with trace := .touched ⟨address, address + size⟩ access :: s.trace }

/-- A load of that many bytes from a user address. -/
def readVolatile (view : UserView) (address size : Nat) : CopyM Nat := do
  touch view .read address size
  let s ← get
  pure (ofBytes (load s.user address size))

def writeVolatile (view : UserView) (address size value : Nat) : CopyM Unit := do
  touch view .write address size
  modify fun s => { s with user := store s.user address (toBytes size value) }

def readKernelUnaligned (address size : Nat) : CopyM Nat := do
  let s ← get
  pure (ofBytes (load s.kernel address size))

def readKernel (address size : Nat) : CopyM Nat := do
  stopIf (address % size ≠ 0) .misaligned
  readKernelUnaligned address size

def writeKernelUnaligned (address size value : Nat) : CopyM Unit :=
  modify fun s => { s with kernel := store s.kernel address (toBytes size value) }

def writeKernel (address size value : Nat) : CopyM Unit := do
  stopIf (address % size ≠ 0) .misaligned
  writeKernelUnaligned address size value

/-! ### Validation -/

def checkMapping (mapping : UserMappingInfo) (access : AccessKind) : Except UserCopyError Unit :=
  if mapping.user = false then .error .notUserRange
  else
    match access with
    | .read => if mapping.readable then .ok () else .error .notReadable
    | .write => if mapping.writable then .ok () else .error .notWritable

/-- One round of the walk. -/
def checkPage (view : UserView) (space : Nat) (access : AccessKind) (cursor : Nat) :
    Except UserCopyError Unit :=
  match view.queryUserMapping space cursor with
  | none => .error .notMapped
  | some mapping => do
      checkMapping mapping access
      match checkedAdd cursor pageSize with
      | none => .error .addressOverflow
      | some _ => .ok ()

def validateUserRangeUnbounded (view : UserView) (ptr len : Nat) (access : AccessKind) :
    Except UserCopyError Unit :=
  if len = 0 then .error .empty
  else
    match checkedAdd ptr len with
    | none => .error .addressOverflow
    | some stop =>
      if ptr < userTextBase ∨ userStackTop < stop ∨ stop ≤ ptr then .error .notUserRange
      else if access = .read ∧ alignDown ptr pageSize = alignDown (stop - 1) pageSize then
        if view.currentUserPageReadable ptr then .ok () else .error .notReadable
      else
        match view.currentUserAddressSpace with
        | none => .error .noCurrentAddressSpace
        | some space =>
          (counter (alignDown ptr pageSize) stop pageSize).forM (checkPage view space access)

def validateUserRange (view : UserView) (ptr len : Nat) (access : AccessKind) :
    Except UserCopyError Unit :=
  if len = 0 then .error .empty
  else if maxUserCopy < len then .error .tooLarge
  else validateUserRangeUnbounded view ptr len access

/-- Continue if a validation has passed. -/
def whenValid {α : Type} (checked : Except UserCopyError Unit) (ptr len : Nat)
    (access : AccessKind) (body : CopyM (Except UserCopyError α)) :
    CopyM (Except UserCopyError α) :=
  match checked with
  | .error error => pure (.error error)
  | .ok () => do
      modify fun s => { s with trace := .validated ⟨ptr, ptr + len⟩ access :: s.trace }
      body

/-- Continue with a sum that is an address. -/
def whenFits {α : Type} (sum : Option Nat) (body : Nat → CopyM (Except UserCopyError α)) :
    CopyM (Except UserCopyError α) :=
  match sum with
  | none => pure (.error .addressOverflow)
  | some address => body address

/-! ### Ranges of bytes -/

def copyWordBytes : Nat := 8

def wrappingNeg (value : Nat) : Nat := (usizeLimit - value % usizeLimit) % usizeLimit

/-- The number of bytes before the first aligned user word. -/
def headLen (user len : Nat) : Nat := min (wrappingNeg user &&& (copyWordBytes - 1)) len

/-- The offset behind the last whole word. -/
def wordEnd (user len : Nat) : Nat := len - (len - headLen user len) % copyWordBytes

def kernelAligned (kernel user len : Nat) : Bool :=
  (kernel + headLen user len) % usizeLimit % copyWordBytes == 0

def readByte (view : UserView) (dst userSrc offset : Nat) : CopyM Unit := do
  let byte ← readVolatile view (userSrc + offset) 1
  writeKernel (dst + offset) 1 byte

def readWord (view : UserView) (aligned : Bool) (dst userSrc offset : Nat) : CopyM Unit := do
  let word ← readVolatile view (userSrc + offset) copyWordBytes
  if aligned then writeKernel (dst + offset) copyWordBytes word
  else writeKernelUnaligned (dst + offset) copyWordBytes word

def readValidatedUserBytes (view : UserView) (dst len userSrc : Nat) : CopyM Unit := do
  let aligned := kernelAligned dst userSrc len
  forEach (counter 0 (headLen userSrc len) 1) (readByte view dst userSrc)
  forEach (counter (headLen userSrc len) (wordEnd userSrc len) copyWordBytes)
    (readWord view aligned dst userSrc)
  forEach (counter (wordEnd userSrc len) len 1) (readByte view dst userSrc)

def writeByte (view : UserView) (userDst src offset : Nat) : CopyM Unit := do
  let byte ← readKernel (src + offset) 1
  writeVolatile view (userDst + offset) 1 byte

def writeWord (view : UserView) (aligned : Bool) (userDst src offset : Nat) : CopyM Unit := do
  let word ← if aligned then readKernel (src + offset) copyWordBytes
    else readKernelUnaligned (src + offset) copyWordBytes
  writeVolatile view (userDst + offset) copyWordBytes word

/-- The source picks one of two word loops, with and without aligned kernel loads. -/
def writeValidatedUserBytes (view : UserView) (userDst src len : Nat) : CopyM Unit := do
  let aligned := kernelAligned src userDst len
  forEach (counter 0 (headLen userDst len) 1) (writeByte view userDst src)
  forEach (counter (headLen userDst len) (wordEnd userDst len) copyWordBytes)
    (writeWord view aligned userDst src)
  forEach (counter (wordEnd userDst len) len 1) (writeByte view userDst src)

/-! ### Copies

A kernel slice is given by its address and length. -/

def copyFromUser (view : UserView) (dst len userSrc : Nat) : CopyM (Except UserCopyError Unit) :=
  if len = 0 then pure (.ok ())
  else
    whenValid (validateUserRange view userSrc len .read) userSrc len .read do
      readValidatedUserBytes view dst len userSrc
      pure (.ok ())

def copyToUser (view : UserView) (userDst src len : Nat) : CopyM (Except UserCopyError Unit) :=
  if len = 0 then pure (.ok ())
  else if maxUserCopy < len then pure (.error .tooLarge)
  else
    whenValid (validateUserRangeUnbounded view userDst len .write) userDst len .write do
      writeValidatedUserBytes view userDst src len
      pure (.ok ())

def copyCstrToUser (view : UserView) (userDst value len maxLen : Nat) :
    CopyM (Except UserCopyError Nat) :=
  whenFits (checkedAdd len 1) fun required =>
    if maxLen < required then pure (.error .tooLarge)
    else
      whenValid (validateUserRangeUnbounded view userDst required .write) userDst required
        .write do
          writeValidatedUserBytes view userDst value len
          whenFits (checkedAdd userDst len) fun nulDst => do
            writeVolatile view nulDst 1 0
            pure (.ok required)

/-! ### Strings -/

/-- The kernel heap: the capacity after a reservation for a vector, or none. -/
structure ReserveHeap where
  tryReserveExact : (len additional : Nat) → Option Nat
  enough : ∀ len additional capacity, tryReserveExact len additional = some capacity →
    len + additional ≤ capacity

/-- A growing vector of the bytes read so far. -/
structure PathBuffer where
  bytes : List UInt8
  capacity : Nat

inductive Scan where
  | returns (result : Except UserCopyError (List UInt8))
  | continues (path : PathBuffer)

/-- Make room for one more byte. -/
def PathBuffer.grow (heap : ReserveHeap) (maxLen : Nat) (path : PathBuffer) : Option PathBuffer :=
  if path.bytes.length = path.capacity then
    (heap.tryReserveExact path.bytes.length (min (maxLen - path.bytes.length) 64)).map
      fun capacity => { path with capacity }
  else some path

/-- Scan the bytes of a validated chunk. -/
def scanChunk (view : UserView) (heap : ReserveHeap) (maxLen : Nat) :
    Nat → Nat → PathBuffer → CopyM Scan
  | 0, _, path => pure (.continues path)
  | count + 1, address, path => do
      let byte ← readVolatile view address 1
      if byte = 0 then pure (.returns (.ok path.bytes))
      else if path.bytes.length = maxLen then pure (.returns (.error .nameTooLong))
      else
        match path.grow heap maxLen with
        | none => pure (.returns (.error .outOfMemory))
        | some path =>
          scanChunk view heap maxLen count (address + 1)
            { path with bytes := path.bytes ++ [UInt8.ofNat byte] }

/-- Scan page by page. The loop is given more rounds than it can take. -/
def scanPages (view : UserView) (heap : ReserveHeap) (maxLen : Nat) :
    Nat → Nat → Nat → PathBuffer → CopyM (Except UserCopyError (List UInt8))
  | 0, _, _, _ => throw .diverges
  | rounds + 1, cursor, scanned, path =>
    if maxLen < scanned then pure (.error .nameTooLong)
    else
      whenFits (checkedAdd (alignDown cursor pageSize) pageSize) fun pageEnd => do
        stopIf (usizeLimit ≤ maxLen + 1) .overflow
        let chunkLen := min (pageEnd - cursor) (maxLen + 1 - scanned)
        whenValid (validateUserRangeUnbounded view cursor chunkLen .read) cursor chunkLen
          .read do
            match ← scanChunk view heap maxLen chunkLen cursor path with
            | .returns result => pure result
            | .continues path =>
              whenFits (checkedAdd cursor chunkLen) fun next =>
                scanPages view heap maxLen rounds next (scanned + chunkLen) path

def copyCstrFromUser (view : UserView) (heap : ReserveHeap) (ptr maxLen : Nat) :
    CopyM (Except UserCopyError (List UInt8)) :=
  scanPages view heap maxLen (2 + maxLen) ptr 0 ⟨[], 0⟩

end Genrt.UserCopy
