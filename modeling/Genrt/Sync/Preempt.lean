import Genrt.Basic

/-!
# Preemption bookkeeping of one processor

A nesting depth disables preemption, and one bit remembers that a reschedule was
requested. A checkpoint consumes the request only on an online processor at
depth zero.
-/

namespace Genrt

structure PreemptionState where
  disableDepth : Nat
  reschedulePending : Bool
deriving DecidableEq, Repr

namespace PreemptionState

def new : PreemptionState := ⟨0, false⟩

/-- The depth is a `usize` that must not wrap. -/
def enter (s : PreemptionState) : Except Panic PreemptionState :=
  if 2 ^ 64 ≤ s.disableDepth + 1 then .error .nestingOverflow
  else .ok { s with disableDepth := s.disableDepth + 1 }

def leave (s : PreemptionState) : Except Panic (Bool × PreemptionState) :=
  if s.disableDepth = 0 then .error .nestingUnderflow
  else .ok (s.disableDepth - 1 = 0 ∧ s.reschedulePending,
    { s with disableDepth := s.disableDepth - 1 })

def request (s : PreemptionState) : PreemptionState := { s with reschedulePending := true }

def consumeCheckpoint (s : PreemptionState) (online : Bool) : Bool × PreemptionState :=
  if online = false ∨ s.disableDepth ≠ 0 ∨ s.reschedulePending = false then (false, s)
  else (true, { s with reschedulePending := false })

def isDisabled (s : PreemptionState) : Bool := s.disableDepth ≠ 0

end PreemptionState

end Genrt
