import Genrt.Memory.Types

/-!
# User pages

A user address space maps pages of the lower half of the addresses to frames. Three
indices of an address lead through its tables.
-/

namespace Genrt

structure UserMapFlags where
  write : Bool
  execute : Bool
deriving DecidableEq, Repr

/-- The flag of stacks. -/
def UserMapFlags.writeOnly : UserMapFlags := ⟨true, false⟩

structure UserPage where
  frame : Nat
  flags : UserMapFlags
deriving DecidableEq, Repr

/-- End of the lower half of the address range. -/
def lowerVaLimit : Nat := 2 ^ 48

def isUserVa (va : Nat) : Bool := decide (va < lowerVaLimit)

def l0Index (va : Nat) : Nat := va / 2 ^ 39 % 512

def l1Index (va : Nat) : Nat := va / 2 ^ 30 % 512

def l2Index (va : Nat) : Nat := va / 2 ^ 21 % 512

end Genrt
