import Mathlib

/-!
# Addresses and ranges

Addresses are words of the target. A range is half open and may be empty; the
functions on ranges do not rely on its bounds being in order.
-/

namespace Genrt

def pageSize : Nat := 4096

/-- User programs and their stacks lie between these addresses. -/
def userTextBase : Nat := 0x4000000000

def userStackTop : Nat := 0x8000000000

/-- An address computation of the target wraps at this value. -/
def usizeLimit : Nat := 2 ^ 64

def checkedAdd (a b : Nat) : Option Nat := if a + b < usizeLimit then some (a + b) else none

/-- No alignment is asked for by zero. -/
def alignDown (value align : Nat) : Nat := if align = 0 then value else value / align * align

def alignUp (value align : Nat) : Option Nat :=
  if align = 0 then some value
  else (checkedAdd value (align - 1)).map fun sum => sum / align * align

/-- A half-open range of addresses. -/
structure AddrRange where
  start : Nat
  stop : Nat
deriving DecidableEq, Repr

abbrev PhysRange := AddrRange

namespace AddrRange

def Contains (range : AddrRange) (address : Nat) : Prop :=
  range.start ≤ address ∧ address < range.stop

def overlaps (range other : AddrRange) : Bool :=
  range.start < other.stop && other.start < range.stop

def clippedTo (range outer : AddrRange) : Option AddrRange :=
  let start := max range.start outer.start
  let stop := min range.stop outer.stop
  if stop ≤ start then none else some ⟨start, stop⟩

end AddrRange

/-- What a walk of the user tables finds for an address. -/
structure UserMappingInfo where
  pa : Nat
  user : Bool
  readable : Bool
  writable : Bool
  executable : Bool
deriving DecidableEq, Repr

theorem alignDown_page (value : Nat) : alignDown value pageSize = value / pageSize * pageSize :=
  if_neg (by decide)

/-- Rounding up gives the first page boundary that is not below the value. -/
theorem alignUp_page {value aligned : Nat} (rounded : alignUp value pageSize = some aligned) :
    aligned % pageSize = 0 ∧ value ≤ aligned ∧ aligned < value + pageSize := by
  have nonzero : ¬ pageSize = 0 := by decide
  rw [alignUp, if_neg nonzero, checkedAdd] at rounded
  split at rounded
  · cases rounded
    dsimp only [pageSize]
    omega
  · cases rounded

end Genrt
