import Genrt.Memory.Types

/-!
# The memory map

At boot the usable page frames are what the RAM ranges leave after all reserved
ranges are taken out. Both lists are sorted by their starts, the reserved one is
merged, and one pass over them cuts each RAM range into pieces. A piece is rounded
inwards to pages and joined with the last piece if it touches or overlaps it.

RAM ranges are not merged, so a piece can start before the last one. It then has
been cut out of an earlier RAM range already, and joining changes nothing; this is
the invariant of the outer loop.

Output lists are kept newest first while they are built.
-/

namespace Genrt

inductive RegionKind where
  | usable
  | reserved
  | mmio
deriving DecidableEq, Repr

structure PhysRegion where
  range : PhysRange
  kind : RegionKind
deriving DecidableEq, Repr

inductive MemoryError where
  | noUsableRam
  | noBootstrapHeapRange
  | tooManyRanges
  | addressOutOfRange
  | heapInit
  | heapSmokeTest
deriving DecidableEq, Repr

/-! ### Sorting and merging -/

/-- Move a range down past the ranges that start after it. The sorted ranges are
given from the last to the first. -/
def sinkRange (current : PhysRange) : List PhysRange → List PhysRange
  | [] => [current]
  | previous :: before =>
    if current.start < previous.start then previous :: sinkRange current before
    else current :: previous :: before

def sortRanges (ranges : List PhysRange) : List PhysRange :=
  (ranges.foldl (fun sorted current => sinkRange current sorted) []).reverse

/-- Extend the last range by one that overlaps or touches it, or append it. -/
def mergeRange (out : List PhysRange) (current : PhysRange) : List PhysRange :=
  match out with
  | [] => [current]
  | last :: before =>
    if last.overlaps current || last.stop == current.start then
      { last with stop := max last.stop current.stop } :: before
    else current :: last :: before

def mergeRanges (ranges : List PhysRange) : List PhysRange := (ranges.foldl mergeRange []).reverse

/-! ### Cutting -/

/-- The output lists, newest first. -/
structure MemoryMap where
  physRegions : List PhysRegion
  usableRanges : List AddrRange
deriving DecidableEq, Repr

/-- The lengths of the output slices. -/
structure MapCapacity where
  physRegions : Nat
  usableRanges : Nat

def pushPhysRegion (capacity : Nat) (out : List PhysRegion) (region : PhysRegion) :
    Except MemoryError (List PhysRegion) :=
  if region.range.stop ≤ region.range.start then .ok out
  else
    match out with
    | [] => if 0 < capacity then .ok [region] else .error .tooManyRanges
    | prev :: before =>
      if prev.kind = region.kind ∧ region.range.start ≤ prev.range.stop then
        .ok (⟨⟨prev.range.start, max prev.range.stop region.range.stop⟩, prev.kind⟩ :: before)
      else if before.length + 1 < capacity then .ok (region :: prev :: before)
      else .error .tooManyRanges

def pushUsableFrameRange (capacity : Nat) (out : List AddrRange) (range : PhysRange) :
    Except MemoryError (List AddrRange) :=
  match alignUp range.start pageSize with
  | none => .error .addressOutOfRange
  | some start =>
    let stop := alignDown range.stop pageSize
    if stop ≤ start then .ok out
    else
      match out with
      | [] => if 0 < capacity then .ok [⟨start, stop⟩] else .error .tooManyRanges
      | prev :: before =>
        if start ≤ prev.stop then .ok (⟨prev.start, max prev.stop stop⟩ :: before)
        else if before.length + 1 < capacity then .ok (⟨start, stop⟩ :: prev :: before)
        else .error .tooManyRanges

namespace MemoryMap

def pushRegion (capacity : MapCapacity) (map : MemoryMap) (region : PhysRegion) :
    Except MemoryError MemoryMap := do
  let regions ← pushPhysRegion capacity.physRegions map.physRegions region
  pure { map with physRegions := regions }

/-- A usable piece goes to both lists. -/
def pushUsable (capacity : MapCapacity) (map : MemoryMap) (range : PhysRange) :
    Except MemoryError MemoryMap := do
  let map ← map.pushRegion capacity ⟨range, .usable⟩
  let usable ← pushUsableFrameRange capacity.usableRanges map.usableRanges range
  pure { map with usableRanges := usable }

/-- Push the piece between the cursor and a bound, if there is one. -/
def pushGap (capacity : MapCapacity) (map : MemoryMap) (cursor stop : Nat) :
    Except MemoryError MemoryMap :=
  if cursor < stop then map.pushUsable capacity ⟨cursor, stop⟩ else .ok map

/-- Cut the reserved ranges out of a RAM range. The result is the cursor after the
last of them. -/
def cutReserved (capacity : MapCapacity) (ram : PhysRange) :
    List PhysRange → Nat → MemoryMap → Except MemoryError (Nat × MemoryMap)
  | [], cursor, map => .ok (cursor, map)
  | reserved :: rest, cursor, map =>
    if reserved.stop ≤ ram.start then cutReserved capacity ram rest cursor map
    else if ram.stop ≤ reserved.start then .ok (cursor, map)
    else
      match reserved.clippedTo ram with
      | none => cutReserved capacity ram rest cursor map
      | some clipped => do
          let map ← map.pushGap capacity cursor clipped.start
          let map ← map.pushRegion capacity ⟨clipped, .reserved⟩
          cutReserved capacity ram rest (max cursor clipped.stop) map

def addRam (capacity : MapCapacity) (reserved : List PhysRange) (map : MemoryMap)
    (ram : PhysRange) : Except MemoryError MemoryMap := do
  let (cursor, map) ← cutReserved capacity ram reserved ram.start map
  map.pushGap capacity cursor ram.stop

/-- `build_memory_map`. -/
def build (capacity : MapCapacity) (rams reserved : List PhysRange) :
    Except MemoryError MemoryMap := do
  let map ← rams.foldlM (addRam capacity reserved) ⟨[], []⟩
  if map.usableRanges = [] then .error .noUsableRam else .ok map

/-- The usable ranges in address order. -/
def usable (map : MemoryMap) : List AddrRange := map.usableRanges.reverse

end MemoryMap

/-- The map that boot computes from the ranges it has collected. -/
def bootMemoryMap (capacity : MapCapacity) (rams reserved : List PhysRange) :
    Except MemoryError MemoryMap :=
  MemoryMap.build capacity (sortRanges rams) (mergeRanges (sortRanges reserved))

end Genrt
