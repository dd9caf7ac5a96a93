import Genrt.Mmu.Tables

/-!
# Kernel regions

The upper half of the address range is translated through the second root register, by
blocks of two megabytes in tables of three levels. A region is mapped, unmapped or
protected block by block, after a first pass over all blocks that changes nothing.

Mapping makes tables as it goes. When it runs out of frames it clears the blocks that it
has written and gives back the tables that are empty then. Address arithmetic wraps.
-/

namespace Genrt.Mmu

open Fallible

/-- Addresses of the upper half. -/
def isKernelVa (va : Nat) : Bool := decide (kernelHvaOffset ≤ va)

def wrappingAdd (a b : Nat) : Nat := (a + b) % usizeLimit

/-- The offsets that a loop over the blocks of a size visits. -/
def blockOffsets (size : Nat) : List Nat :=
  (List.range ((size + (blockSize - 1)) / blockSize)).map (· * blockSize)

/-- The addresses of the blocks of a region. -/
def regionBlocks (va size : Nat) : List Nat := (blockOffsets size).map (wrappingAdd va)

def State.isEmpty (s : State) (table : Nat) : Bool :=
  (List.finRange tableEntries).all fun index => s.memory table index == 0

def existingL2Table (s : State) (va : Nat) : Option Nat :=
  if s.ttbr1 = 0 then none
  else do
    let l1 ← tableOf (s.read s.ttbr1 (l0Index va))
    tableOf (s.read l1 (l1Index va))

def translateKernelVa (s : State) (va : Nat) : Option Nat :=
  if isKernelVa va = false then none
  else if s.ttbr1 = 0 then none
  else do
    let l1 ← tableOf (s.read s.ttbr1 (l0Index va))
    let l2 ← tableOf (s.read l1 (l1Index va))
    let entry := s.read l2 (l2Index va)
    if isBlockDesc entry then some (descPa entry + va % blockSize) else none

/-! ### Empty tables -/

/-- Clear an entry whose table is empty. -/
def detachIfEmpty (s : State) (table index : Nat) : List Nat × State :=
  match tableOf (s.read table index) with
  | none => ([], s)
  | some next => if s.isEmpty next then ([next], s.write table index 0) else ([], s)

/-- The lower table comes first, since the upper one may be empty only after it. -/
def detachEmptyTablesForVa (s : State) (va : Nat) : List Nat × State :=
  if s.ttbr1 = 0 then ([], s)
  else match tableOf (s.read s.ttbr1 (l0Index va)) with
    | none => ([], s)
    | some l1 =>
      let (lower, s) := detachIfEmpty s l1 (l1Index va)
      let (upper, s) := detachIfEmpty s s.ttbr1 (l0Index va)
      (lower ++ upper, s)

def reclaimDetachedTablesForVa (s : State) (va : Nat) : State :=
  let (detached, s) := detachEmptyTablesForVa s va
  detached.foldl State.freeFrame s

def reclaimRegion (va size : Nat) (s : State) : State :=
  (regionBlocks va size).foldl reclaimDetachedTablesForVa s

/-- Write the entry of a block, if its table exists. -/
def rewriteBlock (value : Nat → Nat) (s : State) (va : Nat) : State :=
  match existingL2Table s va with
  | none => s
  | some l2 => s.write l2 (l2Index va) (value (s.read l2 (l2Index va)))

def rewriteRegion (value : Nat → Nat) (va size : Nat) (s : State) : State :=
  (regionBlocks va size).foldl (rewriteBlock value) s

def rollbackKernelMap (va mappedSize : Nat) (s : State) : State :=
  reclaimRegion va mappedSize (rewriteRegion (fun _ => 0) va mappedSize s)

/-! ### Mapping -/

def ensureL2Table (va : Nat) : Vm Nat := do
  let root := (← get).ttbr1
  failIf (root = 0) .notInitialized
  let l1 ← ensureTable root (l0Index va)
  let entry := (← get).read l1 (l1Index va)
  if isTableDesc entry then pure (descPa entry)
  else if isValid entry = false then do
    let pa ← tryCatch allocTableFrame fun error => do
      modify fun s => reclaimDetachedTablesForVa s va
      throw error
    modify (·.clear pa)
    modify (·.installTable l1 (l1Index va) pa)
    pure pa
  else throw .unsupported

def validateKernelVaSize (va size : Nat) : Vm Unit := do
  failIf (size = 0) .invalidRange
  failIf (isKernelVa va = false) .notKernelVa
  failIf (va % blockSize ≠ 0 ∨ size % blockSize ≠ 0) .notAligned

def validateKernelRegion (va pa size : Nat) : Vm Unit := do
  validateKernelVaSize va size
  failIf (pa % blockSize ≠ 0) .notAligned

def ensureKernelBlockUnmapped (va : Nat) : Vm Unit := do
  let s ← get
  failIf (s.ttbr1 = 0) .notInitialized
  let l0e := s.read s.ttbr1 (l0Index va)
  if isValid l0e = false then pure ()
  else do
    failIf (isTableDesc l0e = false) .unsupported
    let l1e := s.read (descPa l0e) (l1Index va)
    if isValid l1e = false then pure ()
    else do
      failIf (isTableDesc l1e = false) .unsupported
      failIf (isValid (s.read (descPa l1e) (l2Index va)) = true) .alreadyMapped

def mapKernelBlock (va pa : Nat) (attr : VmMemoryAttr) (flags : VmFlags) (offset : Nat) :
    Vm Unit := do
  let current := wrappingAdd va offset
  let l2 ← tryCatch (ensureL2Table current) fun error => do
    modify (rollbackKernelMap va offset)
    throw error
  modify (·.write l2 (l2Index current)
    (blockDesc (wrappingAdd pa offset) (attrToIndex attr) flags))

def mapKernelRegion (va pa size : Nat) (attr : VmMemoryAttr) (flags : VmFlags) : Vm Unit := do
  requireRuntimeTables
  validateKernelRegion va pa size
  forEach (regionBlocks va size) ensureKernelBlockUnmapped
  forEach (blockOffsets size) (mapKernelBlock va pa attr flags)

/-! ### Unmapping and protection -/

def validateExistingKernelBlocks (va size : Nat) : Vm Unit :=
  forEach (regionBlocks va size) fun current => do
    let s ← get
    failIf (((existingL2Table s current).any fun l2 =>
      isBlockDesc (s.read l2 (l2Index current))) = false) .missingMapping

/-- The tables that the first pass has found are there for the loops after it. -/
def unmapKernelRegion (va size : Nat) : Vm Unit := do
  requireRuntimeTables
  validateKernelVaSize va size
  validateExistingKernelBlocks va size
  modify (rewriteRegion (fun _ => 0) va size)
  modify (reclaimRegion va size)

def protectedDesc (flags : VmFlags) (old : Nat) : Nat :=
  blockDesc (descPa old) ((old >>> 2) &&& 0b111) flags

def protectKernelRegion (va size : Nat) (flags : VmFlags) : Vm Unit := do
  requireRuntimeTables
  validateKernelVaSize va size
  validateExistingKernelBlocks va size
  modify (rewriteRegion (protectedDesc flags) va size)

end Genrt.Mmu
