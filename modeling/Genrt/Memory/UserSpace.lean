import Genrt.Sched.Table

/-!
# Installed user address spaces

Each processor records the root it has installed and whether user pointers may
be used. A root is installed on its owner processor only, and on one processor
at a time. Installing and removing a root goes through architecture hooks that
may refuse.
-/

namespace Genrt

open Effect

inductive VmError where
  | wrongCpu
  | activeAddressSpace
  | architecture
deriving DecidableEq, Repr

def retainUserAddressSpaceForIdle (cpu : CpuId) : KernelM (Except VmError Unit) := do
  modify fun k => k.setUserSpace cpu { k.userSpaces cpu with userAccess := false }
  pure (.ok ())

def clearUserAddressSpace (cpu : CpuId) : KernelM (Except VmError Unit) := do
  modify fun k => k.setUserSpace cpu { k.userSpaces cpu with userAccess := false }
  let k ← get
  if (k.userSpaces cpu).installed = none then pure (.ok ())
  else if k.platform.detaches = false then pure (.error .architecture)
  else
    set (k.setUserSpace cpu { k.userSpaces cpu with installed := none })
    pure (.ok ())

def activateUserAddressSpace (cpu : CpuId) (aspace : AddressSpaceId) :
    KernelM (Except VmError Unit) := do
  let k ← get
  if cpu ≠ aspace.ownerCpu then pure (.error .wrongCpu)
  else if (k.userSpaces cpu).installed = some aspace.rootPa then
    set (k.setUserSpace cpu { k.userSpaces cpu with userAccess := true })
    pure (.ok ())
  else if ∃ other, other ≠ cpu ∧ (k.userSpaces other).installed = some aspace.rootPa then
    pure (.error .activeAddressSpace)
  else if k.platform.activates aspace.rootPa = false then
    set (k.setUserSpace cpu { k.userSpaces cpu with userAccess := false })
    pure (.error .architecture)
  else
    set (k.setUserSpace cpu ⟨some aspace.rootPa, true⟩)
    pure (.ok ())

end Genrt
