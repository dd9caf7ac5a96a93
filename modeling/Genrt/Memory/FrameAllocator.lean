import Genrt.Foundation.LinkedList
import Genrt.Foundation.Words
import Genrt.Memory.Types

/-!
# The frame allocator

Free page frames form a list in the order of their addresses. The link to the next free
frame is stored in the frame itself, so an owner overwrites it; the allocator must follow
the links of free frames only.

A contiguous allocation walks the list once. It remembers the first aligned frame of the
current run of adjacent frames, and takes the run out of the list when it is long enough.

A loop that follows links is given one round more than there are free frames by the
counter of the allocator; a loop that uses them up is an error of its own.
-/

namespace Genrt

open LinkedList Function

inductive FramePanic where
  /-- A debug assertion of the allocator. -/
  | assertion
  | overflow
  | missingRun
  | diverges
  /-- A free of frames that the memory map does not have. -/
  | invalidFrame
deriving DecidableEq, Repr

/-- `free_list_end`. -/
def freeListEnd : Nat := usizeLimit - 1

/-- The allocator and the links that are stored in the frames. -/
structure FrameAllocator where
  head : Option Nat
  pageBytes : Nat
  totalFrames : Nat
  freeFrames : Nat
  links : Nat → Nat

namespace FrameAllocator

variable (a : FrameAllocator)

def nextFreeFrame (frame : Nat) : Option Nat := follow freeListEnd (a.links frame)

def writeNextFreeFrame (frame next : Nat) : FrameAllocator :=
  { a with links := update a.links frame next }

/-- The number of rounds of a loop that counts down from the stop of a range. -/
def rounds (start stop page : Nat) : Nat := (stop - start + (page - 1)) / page

/-! ### Initialisation -/

/-- The walk of `insert_frame_sorted` from an item in front of the frame. -/
def insertAfter (frame : Nat) : Nat → Nat → FrameAllocator → Except FramePanic FrameAllocator
  | 0, _, _ => .error .diverges
  | fuel + 1, prev, a =>
    match a.nextFreeFrame prev with
    | none =>
      .ok { (a.writeNextFreeFrame frame freeListEnd).writeNextFreeFrame prev frame with
        freeFrames := a.freeFrames + 1 }
    | some candidate =>
      if frame < candidate then
        .ok { (a.writeNextFreeFrame frame candidate).writeNextFreeFrame prev frame with
          freeFrames := a.freeFrames + 1 }
      else insertAfter frame fuel candidate a

def insertFrameSorted (frame : Nat) : Except FramePanic FrameAllocator :=
  match a.head with
  | none =>
    .ok { a.writeNextFreeFrame frame freeListEnd with
      head := some frame, freeFrames := a.freeFrames + 1 }
  | some head =>
    if frame < head then
      .ok { a.writeNextFreeFrame frame head with
        head := some frame, freeFrames := a.freeFrames + 1 }
    else insertAfter frame (a.freeFrames + 1) head a

/-- Insert the frames of a range, the last one first. -/
def insertDown (page : Nat) : Nat → Nat → FrameAllocator → Except FramePanic FrameAllocator
  | 0, _, a => .ok a
  | count + 1, frame, a => do
      let a ← a.insertFrameSorted (frame - page)
      insertDown page count (frame - page) a

def initFromRanges (ranges : List AddrRange) (page : Nat) : Except FramePanic FrameAllocator := do
  let empty : FrameAllocator := ⟨none, page, 0, 0, a.links⟩
  let a ← ranges.reverse.foldlM
    (fun a range => insertDown page (rounds range.start range.stop page) range.stop a) empty
  .ok { a with totalFrames := a.freeFrames }

/-! ### Allocation -/

def allocFrame : Option Nat × FrameAllocator :=
  match a.head with
  | none => (none, a)
  | some frame =>
    (some frame, { a with head := a.nextFreeFrame frame, freeFrames := a.freeFrames - 1 })

/-- The variables of the walk. -/
structure RunSearch where
  prev : Option Nat
  previousFrame : Option Nat
  candidatePrev : Option Nat
  runStart : Option Nat
  runEnd : Option Nat
  runLen : Nat

namespace RunSearch

def start : RunSearch := ⟨none, none, none, none, none, 0⟩

def contiguous (search : RunSearch) (page frame : Nat) : Bool :=
  match search.previousFrame with
  | some last => frame == last + page
  | none => false

/-- Forget the run if the frame does not continue it. -/
def restart (search : RunSearch) (page frame : Nat) : RunSearch :=
  if search.contiguous page frame then search
  else { search with candidatePrev := none, runStart := none, runEnd := none, runLen := 0 }

/-- Begin a run with an aligned frame, or extend the run. -/
def extend (search : RunSearch) (align frame : Nat) : RunSearch :=
  if search.runStart.isNone ∧ frame &&& (align - 1) = 0 then
    { search with
      candidatePrev := search.prev, runStart := some frame, runEnd := some frame, runLen := 1 }
  else if search.runStart.isSome then
    { search with runEnd := some frame, runLen := search.runLen + 1 }
  else search

def visited (search : RunSearch) (frame : Nat) : RunSearch :=
  { search with prev := some frame, previousFrame := some frame }

end RunSearch

/-- Leave out what lies between a frame, or the head, and the given link. -/
def unlinked (next : Option Nat) : Option Nat → FrameAllocator
  | some before => a.writeNextFreeFrame before (raw freeListEnd next)
  | none => { a with head := next }

/-- Take the run that has been found out of the list. -/
def takeRun (search : RunSearch) (frames page : Nat) (next : Option Nat) :
    Except FramePanic (Option AddrRange × FrameAllocator) :=
  let counted := { a.unlinked next search.candidatePrev with freeFrames := a.freeFrames - frames }
  match search.runStart, search.runEnd with
  | some start, some last =>
    match checkedAdd last page with
    | some stop => .ok (some ⟨start, stop⟩, counted)
    | none => .error .overflow
  | _, _ => .error .missingRun

def searchRun (frames page align : Nat) :
    Nat → Option Nat → RunSearch → Except FramePanic (Option AddrRange × FrameAllocator)
  | 0, _, _ => .error .diverges
  | _ + 1, none, _ => .ok (none, a)
  | fuel + 1, some frame, search =>
    let next := a.nextFreeFrame frame
    let search := (search.restart page frame).extend align frame
    if search.runLen = frames then a.takeRun search frames page next
    else searchRun frames page align fuel next (search.visited frame)

/-- `is_power_of_two`. -/
def isPowerOfTwo (value : Nat) : Bool := 2 ^ Nat.log2 value == value

def allocContiguousAligned (frames page align : Nat) :
    Except FramePanic (Option AddrRange × FrameAllocator) :=
  if frames = 0 then .ok (none, a)
  else if align < page ∨ isPowerOfTwo align = false then .ok (none, a)
  else a.searchRun frames page align (a.freeFrames + 1) a.head .start

/-! ### Frees -/

/-- Find the last free frame in front of an address and the one behind it. -/
def seek (start : Nat) : Nat → Option Nat → Option Nat → Except FramePanic (Option Nat × Option Nat)
  | 0, _, _ => .error .diverges
  | _ + 1, prev, none => .ok (prev, none)
  | fuel + 1, prev, some frame =>
    if start ≤ frame then .ok (prev, some frame)
    else seek start fuel (some frame) (a.nextFreeFrame frame)

/-- Link the frames of a range, the last one first. -/
def linkDown (page : Nat) : Nat → Nat → Nat → (Nat → Nat) → Nat → Nat
  | 0, _, _, links => links
  | count + 1, frame, next, links =>
    linkDown page count (frame - page) (frame - page) (update links (frame - page) next)

/-- Make a frame follow the given one, or the first of the list. -/
def spliced (links : Nat → Nat) (start : Nat) : Option Nat → FrameAllocator
  | some before => { a with links := update links before start }
  | none => { a with links, head := some start }

def assert (condition : Prop) [Decidable condition] : Except FramePanic Unit :=
  if condition then .ok () else .error .assertion

def freeContiguous (range : AddrRange) (page : Nat) : Except FramePanic FrameAllocator :=
  if range.stop ≤ range.start then .ok a
  else do
    assert (range.start % page = 0)
    assert (range.stop % page = 0)
    let frameCount := (range.stop - range.start) / page
    assert (0 < frameCount)
    let (prev, current) ← a.seek range.start (a.freeFrames + 1) none a.head
    assert (∀ frame ∈ prev, frame < range.start)
    assert (∀ frame ∈ current, range.stop ≤ frame)
    let links := linkDown page (rounds range.start range.stop page) range.stop
      (raw freeListEnd current) a.links
    .ok { a.spliced links range.start prev with freeFrames := a.freeFrames + frameCount }

def freeFrame (frame : Nat) : Except FramePanic FrameAllocator := do
  assert (a.pageBytes ≠ 0)
  match checkedAdd frame a.pageBytes with
  | some stop => a.freeContiguous ⟨frame, stop⟩ a.pageBytes
  | none => .error .overflow

end FrameAllocator

/-! ### The checks of the memory map -/

def isValidUsableFrame (usableRanges : List AddrRange) (framePa : Nat) : Bool :=
  if framePa &&& (pageSize - 1) ≠ 0 then false
  else usableRanges.any fun range => range.start ≤ framePa && framePa < range.stop

def isValidUsableFrameRange (usableRanges : List AddrRange) (range : AddrRange) : Bool :=
  if range.stop ≤ range.start then false
  else if range.start &&& (pageSize - 1) ≠ 0 ∨ range.stop &&& (pageSize - 1) ≠ 0 then false
  else usableRanges.any fun usable => usable.start ≤ range.start && range.stop ≤ usable.stop

end Genrt
