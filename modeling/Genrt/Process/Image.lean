import Genrt.Foundation.Fallible
import Genrt.Memory.Frames
import Genrt.Sched.State

/-!
# The initial user stack

A new program finds its arguments at the top of its stack: the strings, then a
table with their number, their addresses and the addresses of the environment. The
kernel writes them through the frames of the stack, before the stack belongs to
anybody who runs. What a failed attempt has written stays in the frames.
-/

namespace Genrt

open Fallible

def userStackSize : Nat := 64 * 1024

/-! ### Collecting the arguments -/

inductive ExecStringVector where
  | argv
  | envp
deriving DecidableEq, Repr

structure ExecArgs where
  argv : List (List UInt8)
  envp : List (List UInt8)
  stringBytes : Nat
deriving DecidableEq, Repr

def execStackTableWords (argc envc : Nat) : Nat := 1 + argc + 1 + envc + 1

/-- The bytes that the table leaves for strings. -/
def execArgStringBudget (argc envc : Nat) : Option Nat :=
  let tableBytes := execStackTableWords argc envc * 8
  if userStackSize < tableBytes then none else some (userStackSize - tableBytes)

def execVectorSlotIncrement (vector target : ExecStringVector) : Nat :=
  if vector = target then 1 else 0

namespace ExecArgs

def empty : ExecArgs := ⟨[], [], 0⟩

/-- One more string. Too many bytes are refused with `E2BIG`, here `none`. -/
def push (args : ExecArgs) (vector : ExecStringVector) (value : List UInt8) : Option ExecArgs := do
  let nextArgv := args.argv.length + execVectorSlotIncrement vector .argv
  let nextEnvp := args.envp.length + execVectorSlotIncrement vector .envp
  let budget ← execArgStringBudget nextArgv nextEnvp
  let nextBytes := args.stringBytes + (value.length + 1)
  if budget < nextBytes then none
  else
    match vector with
    | .argv => some { args with argv := args.argv ++ [value], stringBytes := nextBytes }
    | .envp => some { args with envp := args.envp ++ [value], stringBytes := nextBytes }

/-- The vectors that can be collected. -/
inductive Accepted : ExecArgs → Prop
  | empty : Accepted .empty
  | push {args args' : ExecArgs} {vector : ExecStringVector} {value : List UInt8} :
      Accepted args → args.push vector value = some args' → Accepted args'

end ExecArgs

/-! ### Writing the stack -/

/-- Writing may give up, and keeps what it has written. -/
abbrev StackM := EStateM Unit PhysicalMemory

/-- The bytes that start at a user address of the stack. -/
def PhysicalMemory.put (m : PhysicalMemory) (stack : OwnedUserStack) (va : Nat)
    (bytes : List UInt8) : PhysicalMemory :=
  m.copyBytesToPhys (stack.frames + (va - stack.base)) bytes .arguments

namespace OwnedUserStack

variable (stack : OwnedUserStack)

def writeStackBytes (va : Nat) (bytes : List UInt8) : StackM Unit := do
  if bytes.isEmpty then pure ()
  else
    failIf (va < stack.base) ()
    failIf (userStackSize < va - stack.base + bytes.length) ()
    modify fun m => m.put stack va bytes

def writeStackByte (va : Nat) (byte : UInt8) : StackM Unit := do
  failIf (va < stack.base) ()
  failIf (userStackSize ≤ va - stack.base) ()
  modify fun m => m.put stack va [byte]

def writeStackU64 (va value : Nat) : StackM Unit := stack.writeStackBytes va (Words.toBytes 8 value)

/-- A string and its terminator go below the stack pointer, which moves to the string. -/
def pushStackCstr (sp : Nat) (bytes : List UInt8) : StackM Nat := do
  failIf (sp < bytes.length + 1) ()
  let sp := sp - (bytes.length + 1)
  failIf (sp < stack.base) ()
  stack.writeStackBytes sp bytes
  stack.writeStackByte (sp + bytes.length) 0
  pure sp

/-- Strings from the last to the first. The addresses come in the order of the strings. -/
def pushStrings (sp : Nat) : List (List UInt8) → StackM (Nat × List Nat)
  | [] => pure (sp, [])
  | string :: rest => do
      let (sp, addresses) ← pushStrings sp rest
      let sp ← stack.pushStackCstr sp string
      pure (sp, sp :: addresses)

/-- Words from an address upwards. -/
def writeWords (va : Nat) : List Nat → StackM Unit
  | [] => pure ()
  | word :: rest => do
      stack.writeStackU64 va word
      writeWords (va + 8) rest

/-- The initial stack pointer, unless the arguments do not fit. -/
def buildInitialUserStack (args : ExecArgs) : StackM Nat := do
  let (sp, envPtrs) ← stack.pushStrings userStackTop args.envp
  let (sp, argPtrs) ← stack.pushStrings sp args.argv
  let sp := alignDown sp 16
  let tableSize := execStackTableWords args.argv.length args.envp.length * 8
  failIf (sp < tableSize) ()
  let sp := alignDown (sp - tableSize) 16
  failIf (sp < stack.base) ()
  stack.writeWords sp (args.argv.length :: argPtrs ++ 0 :: envPtrs ++ [0])
  pure sp

end OwnedUserStack

end Genrt
