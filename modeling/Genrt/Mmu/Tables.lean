import Genrt.Foundation.Fallible
import Genrt.Foundation.TableTree
import Genrt.Memory.FrameAllocator
import Genrt.Mmu.Descriptor

/-!
# Translation tables

Tables live in page frames and are read and written a word at a time. Their frames come
from the frame allocator, which hands out the free frame with the lowest address and keeps
its list in the free frames: the first word of each is the link to the next. A table that
is given back is therefore overwritten, and one that is taken has to be cleared.
-/

namespace Genrt.Mmu

open Fallible TableTree Function

/-- The errors of `hva.rs`. -/
inductive VmError where
  | notInitialized
  | invalidRange
  | notAligned
  | notKernelVa
  | alreadyMapped
  | missingMapping
  | outOfFrames
  | unsupported
deriving DecidableEq, Repr

abbrev Index := Fin tableEntries

/-- An entry of a table. -/
def slot (index : Nat) : Index := ⟨index % tableEntries, Nat.mod_lt _ (by decide)⟩

/-- The words of the page frames, the free frames in the order of their addresses, and the
two roots that the hardware uses. -/
structure State where
  memory : Nat → Index → Nat
  free : List Nat
  ttbr0 : Nat
  ttbr1 : Nat
  runtimeTablesActive : Bool

abbrev Vm := EStateM VmError State

/-- The link that a free frame holds. -/
def linkOf (free : List Nat) (frame : Nat) : Nat :=
  ((free.dropWhile (· != frame))[1]?).getD freeListEnd

namespace State

variable (s : State)

def write (table index value : Nat) : State :=
  let entries := update (s.memory table) (slot index) value
  { s with memory := update s.memory table entries }

def clear (table : Nat) : State :=
  { s with memory := update s.memory table fun _ => 0 }

def installTable (table index pa : Nat) : State := s.write table index (tableDesc pa)

/-- `free_frame`, with the links of the sorted list. -/
def freeFrame (frame : Nat) : State :=
  let free := s.free.orderedInsert (· ≤ ·) frame
  { s with
    free := free
    memory := fun table index =>
      if index = slot 0 ∧ table ∈ free then linkOf free table else s.memory table index }

def read (table index : Nat) : Nat := s.memory table (slot index)

end State

def requireRuntimeTables : Vm Unit := do
  failIf ((← get).runtimeTablesActive = false) .notInitialized

def allocTableFrame : Vm Nat := fun s =>
  match s.free with
  | [] => .error .outOfFrames s
  | frame :: rest => .ok frame { s with free := rest }

/-- The table behind an entry, which is made if the entry is not valid. -/
def ensureTable (table index : Nat) : Vm Nat := do
  let entry := (← get).read table index
  if isTableDesc entry then pure (descPa entry)
  else if isValid entry = false then do
    let pa ← allocTableFrame
    modify (·.clear pa)
    modify (·.installTable table index pa)
    pure pa
  else throw .unsupported

/-! ### User address spaces -/

def createUserAddressSpace : Vm Nat := do
  requireRuntimeTables
  let root ← allocTableFrame
  modify (·.clear root)
  pure root

/-- Free the tables that the entries of a table lead to, down to a depth. -/
def freeTables : Nat → Nat → State → State
  | 0, _, s => s
  | depth + 1, table, s =>
    (List.finRange tableEntries).foldl
      (fun s index =>
        match tableOf (s.memory table index) with
        | none => s
        | some next => (freeTables depth next s).freeFrame next) s

def destroyUserAddressSpace (root : Nat) : Vm Unit := do
  requireRuntimeTables
  failIf (root = 0) .invalidRange
  failIf ((← get).ttbr0 = root) .invalidRange
  modify fun s => (freeTables 3 root s).freeFrame root

def ensureUserL3Table (root va : Nat) : Vm Nat := do
  failIf (root = 0) .notInitialized
  let l1 ← ensureTable root (l0Index va)
  let l2 ← ensureTable l1 (l1Index va)
  ensureTable l2 (l2Index va)

def validateUserPage (va pa : Nat) : Vm Unit := do
  failIf (isUserVa va = false) .invalidRange
  failIf (va % pageSize ≠ 0 ∨ pa % pageSize ≠ 0) .notAligned

def mapUserPage (root va pa : Nat) (flags : UserMapFlags) : Vm Unit := do
  requireRuntimeTables
  validateUserPage va pa
  let l3 ← ensureUserL3Table root va
  failIf (isValid ((← get).read l3 (l3Index va)) = true) .alreadyMapped
  modify (·.write l3 (l3Index va) (userPageDesc pa flags))

def lookupUserPageDesc (s : State) (root va : Nat) : Option Nat :=
  if root = 0 ∨ isUserVa va = false then none
  else do
    let l1 ← tableOf (s.read root (l0Index va))
    let l2 ← tableOf (s.read l1 (l1Index va))
    let l3 ← tableOf (s.read l2 (l2Index va))
    let entry := s.read l3 (l3Index va)
    if isPageDesc entry then some entry else none

def queryUserMapping (s : State) (root va : Nat) : Option UserMappingInfo :=
  (lookupUserPageDesc s root va).map fun desc => userMappingInfoFromDesc desc va

/-! ### Reads after writes -/

theorem slot_eq (number : Nat) (entry : Index) : slot number = entry ↔ number % 512 = entry.val :=
  Fin.ext_iff

theorem slot_eq_iff (first second : Nat) :
    slot first = slot second ↔ first % 512 = second % 512 := Fin.ext_iff

section Words

variable {s : State} {table other index value : Nat} {entry : Index}

theorem write_here : (s.write table index value).memory table (slot index) = value := by
  simp only [State.write, update_self]

theorem write_elsewhere (apart : other ≠ table ∨ entry ≠ slot index) :
    (s.write table index value).memory other entry = s.memory other entry := by
  by_cases same : other = table
  · subst same
    have different := apart.resolve_left fun h => h rfl
    simp only [State.write, update_self, update_of_ne different]
  · simp only [State.write, update_of_ne same]

theorem clear_here : (s.clear table).memory table entry = 0 := by
  simp only [State.clear, update_self]

theorem clear_elsewhere (apart : other ≠ table) :
    (s.clear table).memory other = s.memory other := by
  simp only [State.clear, update_of_ne apart]

theorem freeFrame_free (frame : Nat) : (s.freeFrame frame).free.Perm (frame :: s.free) :=
  List.perm_orderedInsert _ _ _

theorem wp_requireRuntimeTables {Q : Unit → State → Prop} {R : VmError → State → Prop} :
    WP requireRuntimeTables Q R s ↔ (s.runtimeTablesActive = false → R .notInitialized s) ∧
        (¬ s.runtimeTablesActive = false → Q () s) := by
  rw [requireRuntimeTables, wp_bind, wp_get, wp_failIf]

theorem wp_allocTableFrame {Q : Nat → State → Prop} {R : VmError → State → Prop} :
    WP allocTableFrame Q R s ↔
      (s.free = [] → R .outOfFrames s) ∧
        ∀ frame rest, s.free = frame :: rest → Q frame { s with free := rest } := by
  unfold WP allocTableFrame
  cases free : s.free with
  | nil => simp
  | cons frame rest => simp

end Words

/-! ### New and freed tables -/

/-- Frames that the allocator hands out. -/
def TableFrame (frame : Nat) : Prop := frame ≠ 0 ∧ Addressable frame

/-- A cleared frame behind an entry that was not valid. -/
def State.grown (s : State) (rest : List Nat) (table index pa : Nat) : State :=
  ({ s with free := rest }.clear pa).installTable table index pa

section Growth

variable {s : State} {table index pa : Nat} {rest : List Nat}

theorem grown_elsewhere {frame : Nat} (first : frame ≠ pa) (second : frame ≠ table) :
    (s.grown rest table index pa).memory frame = s.memory frame := by
  funext entry
  rw [State.grown, State.installTable, write_elsewhere (.inl second), clear_elsewhere first]

theorem installed_grown (frame : Addressable pa) (different : table ≠ pa) :
    Installed tableOf s.memory (s.grown rest table index pa).memory table (slot index) pa := by
  refine ⟨?_, fun entry => ?_, fun found entry fresh apart => ?_⟩
  · rw [State.grown, State.installTable, write_here]
    exact tableOf_tableDesc frame
  · rw [State.grown, State.installTable, write_elsewhere (.inl different.symm), clear_here]
    exact tableOf_zero
  · rw [State.grown, State.installTable, write_elsewhere apart, clear_elsewhere fresh]

end Growth

/-- Frames were given back, and only free frames were written. -/
structure Freed (s t : State) (frames : List Nat) : Prop where
  free : t.free.Perm (frames ++ s.free)
  memory : ∀ frame, frame ∉ t.free → t.memory frame = s.memory frame
  root : t.ttbr1 = s.ttbr1

section Freed

variable {s t u : State}

theorem Freed.refl (s : State) : Freed s s [] := ⟨.refl _, fun _ _ => rfl, rfl⟩

theorem Freed.trans {first second : List Nat} (before : Freed s t first)
    (after : Freed t u second) : Freed s u (first ++ second) := by
  refine ⟨?_, fun frame kept => ?_, after.root.trans before.root⟩
  · refine after.free.trans ((before.free.append_left second).trans ?_)
    rw [← List.append_assoc]
    exact List.perm_append_comm.append_right s.free
  · have still : frame ∉ t.free := fun member =>
      kept (after.free.symm.subset (List.mem_append_right _ member))
    rw [after.memory frame kept, before.memory frame still]

theorem freed_freeFrame (s : State) (frame : Nat) : Freed s (s.freeFrame frame) [frame] :=
  ⟨freeFrame_free frame, fun _ kept => funext fun _ => if_neg fun linked => kept linked.2, rfl⟩

theorem freed_foldl (frames : List Nat) (s : State) :
    Freed s (frames.foldl State.freeFrame s) frames := by
  induction frames generalizing s with
  | nil => exact .refl s
  | cons frame rest ih => exact (freed_freeFrame s frame).trans (ih (s.freeFrame frame))

theorem Freed.notMem {frames : List Nat} (freed : Freed s t frames) {frame : Nat}
    (mine : frame ∉ frames) (kept : frame ∉ s.free) : frame ∉ t.free := fun member =>
  (List.mem_append.mp (freed.free.subset member)).elim mine kept

end Freed

end Genrt.Mmu
