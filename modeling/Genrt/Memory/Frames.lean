import Genrt.Memory.Types
import Genrt.Foundation.Words

/-!
# Physical memory

The free page frames and the contents of memory. Every cell carries where its value came
from. The kernel keeps no such record; statements about what a program can read use it.
-/

namespace Genrt

/-- Where the value of a memory cell came from. -/
inductive Origin where
  /-- It was there when the frame was allocated. -/
  | stale
  | zeroing
  | image
  | arguments
  | program
deriving DecidableEq, Repr

structure Cell where
  value : UInt8
  origin : Origin
deriving DecidableEq, Repr

/-- The free frames and the contents of memory. -/
structure PhysicalMemory where
  free : Multiset Nat
  cells : Nat → Cell

namespace PhysicalMemory

variable (m : PhysicalMemory)

/-- Bytes from the kernel go to physical memory. -/
def copyBytesToPhys (dst : Nat) (src : List UInt8) (origin : Origin) : PhysicalMemory :=
  { m with cells := fun pa =>
      if dst ≤ pa then
        match src[pa - dst]? with
        | some value => ⟨value, origin⟩
        | none => m.cells pa
      else m.cells pa }

end PhysicalMemory

/-! ### Copies -/

namespace PhysicalMemory

variable {m : PhysicalMemory}

/-- The values of the cells. -/
def bytes (m : PhysicalMemory) : Words.ByteMemory := fun pa => (m.cells pa).value

theorem bytes_copyBytesToPhys (dst : Nat) (src : List UInt8) (origin : Origin) :
    (m.copyBytesToPhys dst src origin).bytes = Words.store m.bytes dst src := by
  funext pa
  unfold bytes copyBytesToPhys Words.store
  dsimp only
  split
  · cases src[pa - dst]? <;> rfl
  · rfl

theorem cells_copyBytesToPhys_outside {dst pa : Nat} {src : List UInt8} {origin : Origin}
    (outside : pa < dst ∨ dst + src.length ≤ pa) :
    (m.copyBytesToPhys dst src origin).cells pa = m.cells pa := by
  unfold copyBytesToPhys
  dsimp only
  split
  · rw [List.getElem?_eq_none (by omega)]
  · rfl

/-- Adjacent copies make one copy. -/
theorem copyBytesToPhys_append (dst : Nat) (first second : List UInt8) (origin : Origin) :
    (m.copyBytesToPhys dst first origin).copyBytesToPhys (dst + first.length) second origin =
      m.copyBytesToPhys dst (first ++ second) origin := by
  unfold copyBytesToPhys
  congr 1
  funext pa
  dsimp only
  by_cases above : dst + first.length ≤ pa
  · have start : dst ≤ pa := by omega
    have past : first[pa - dst]? = none := List.getElem?_eq_none (by omega)
    rw [if_pos above, if_pos start, if_pos start, List.getElem?_append_right (by omega), past,
      Nat.sub_sub]
  · rw [if_neg above]
    split
    · rw [List.getElem?_append_left (by omega)]
    · rfl

/-- The order of adjacent copies does not matter. -/
theorem copyBytesToPhys_append_comm (dst : Nat) (first second : List UInt8) (origin : Origin) :
    (m.copyBytesToPhys (dst + first.length) second origin).copyBytesToPhys dst first origin =
      m.copyBytesToPhys dst (first ++ second) origin := by
  unfold copyBytesToPhys
  congr 1
  funext pa
  dsimp only
  by_cases above : dst + first.length ≤ pa
  · have start : dst ≤ pa := by omega
    have past : first[pa - dst]? = none := List.getElem?_eq_none (by omega)
    rw [if_pos above, if_pos start, if_pos start, List.getElem?_append_right (by omega), past,
      Nat.sub_sub]
  · rw [if_neg above]
    split
    · next start =>
      rw [List.getElem?_append_left (by omega), List.getElem?_eq_getElem (by omega)]
    · rfl

end PhysicalMemory

end Genrt
