import Genrt.Mmu.KernelMappings

/-!
# Runs of the kernel region calls

The operations on regions follow each other in any order, while the rest of the kernel
takes and returns other frames. An operation on a region that fits changes exactly the
translations it is asked to, and one that fails changes nothing.

The checks do not refuse a region that does not fit. A region whose physical addresses are
beyond the width of a descriptor is mapped, to other addresses. So a call does what it should
exactly if its region fits, or if a check or the allocator refuses it for another reason.
-/

namespace Genrt.Mmu

open Fallible TableTree

variable {s t u : State} {va va' pa size : Nat} {owned owned' : List Nat}
  {attr : VmMemoryAttr} {flags : VmFlags}

/-! ### Translations -/

/-- The address in a block that a word describes. -/
def blockTranslation (word va : Nat) : Option Nat :=
  if isBlockDesc word then some (descPa word + va % blockSize) else none

theorem translate_eq (tables : KernelTables s owned) (va : Nat) :
    translateKernelVa s va =
      if isKernelVa va = false then none else blockTranslation (s.word va) va := by
  rw [translateKernelVa]
  refine if_congr Iff.rfl rfl ?_
  rw [if_neg tables.root_ne]
  have found := existingL2Table_eq tables va
  rw [existingL2Table, if_neg tables.root_ne] at found
  cases lowest : s.tableAt (kernelPath va) with
  | none =>
    rw [lowest] at found
    rw [word_eq_zero_of_none lowest]
    refine Eq.trans ?_ (show none = blockTranslation 0 va from rfl)
    cases first : tableOf (s.read s.ttbr1 (l0Index va)) with
    | none => rfl
    | some l1 =>
      rw [first] at found
      have second : tableOf (s.read l1 (l1Index va)) = none := found
      exact congrArg (Option.bind · _) second
  | some l2 =>
    rw [lowest] at found
    rw [State.word, leafWord_of_walk lowest]
    cases first : tableOf (s.read s.ttbr1 (l0Index va)) with
    | none =>
      rw [first] at found
      cases found
    | some l1 =>
      rw [first] at found
      have second : tableOf (s.read l1 (l1Index va)) = some l2 := found
      exact congrArg (Option.bind · _) second

theorem translate_same (tables : KernelTables s owned) (tables' : KernelTables t owned')
    (word : t.word va = s.word va) : translateKernelVa t va = translateKernelVa s va := by
  rw [translate_eq tables, translate_eq tables', word]

/-- A table on the way to an address. -/
def Serves (s : State) (frame va : Nat) : Prop :=
  s.tableAt [slot (l0Index va)] = some frame ∨ s.tableAt (kernelPath va) = some frame

theorem count_of_whole (whole : size % blockSize = 0) : size = size / blockSize * blockSize :=
  (Nat.div_mul_cancel (Nat.dvd_of_mod_eq_zero whole)).symm

/-- What `mapKernelRegion` checks before its first write. -/
def mapChecks (va pa size : Nat) : Vm Unit := do
  requireRuntimeTables
  validateKernelRegion va pa size
  forEach (regionBlocks va size) ensureKernelBlockUnmapped

/-- What `unmapKernelRegion` and `protectKernelRegion` check before their first write. -/
def existingChecks (va size : Nat) : Vm Unit := do
  requireRuntimeTables
  validateKernelVaSize va size
  validateExistingKernelBlocks va size

theorem mapKernelRegion_eq : mapKernelRegion va pa size attr flags =
    mapChecks va pa size >>= fun _ =>
      forEach (blockOffsets size) (mapKernelBlock va pa attr flags) := by
  simp only [mapKernelRegion, mapChecks, bind_assoc]

theorem unmapKernelRegion_eq : unmapKernelRegion va size = existingChecks va size >>= fun _ =>
    modify fun s => reclaimRegion va size (rewriteRegion (fun _ => 0) va size s) := by
  simp only [unmapKernelRegion, existingChecks, bind_assoc]
  rfl

theorem protectKernelRegion_eq : protectKernelRegion va size flags =
    existingChecks va size >>= fun _ => modify (rewriteRegion (protectedDesc flags) va size) := by
  simp only [protectKernelRegion, existingChecks, bind_assoc]

/-- What checks have found, and that they change nothing. -/
def Checks (m : Vm Unit) (P : Prop) (s : State) : Prop :=
  WP m (fun _ t => t = s ∧ P) (fun error t => t = s ∧ m s = .error error s) s

theorem Checks.of_wp {m : Vm Unit} {P : Prop}
    (h : WP m (fun _ t => t = s ∧ P) (fun _ t => t = s) s) : Checks m P s := by
  refine wp_iff.mpr ⟨fun _ _ => h.of_ok, fun error t failed => ?_⟩
  obtain rfl := h.of_error failed
  exact ⟨rfl, failed⟩

section

variable (tables : KernelTables s owned)

include tables

theorem checks_map (va pa size : Nat) :
    Checks (mapChecks va pa size) (isKernelVa va = true ∧ va % blockSize = 0 ∧
      size % blockSize = 0 ∧ pa % blockSize = 0 ∧ ∀ block ∈ regionBlocks va size, s.word block = 0)
      s := by
  refine .of_wp ?_
  rw [mapChecks, wp_bind, wp_requireRuntimeTables]
  refine ⟨fun _ => rfl, fun _ => ?_⟩
  rw [wp_bind]
  refine (wp_validateKernelRegion s va pa size).mono ?_ fun _ _ same => same
  rintro _ t ⟨rfl, kernel, aligned, whole, physical⟩
  refine (wp_forEach_check (wp_ensureKernelBlockUnmapped tables) _).mono ?_ fun _ _ same => same
  exact fun _ _ checked => ⟨checked.1, kernel, aligned, whole, physical, checked.2⟩

theorem checks_existing (va size : Nat) :
    Checks (existingChecks va size) (isKernelVa va = true ∧ va % blockSize = 0 ∧
      size % blockSize = 0 ∧ ∀ block ∈ regionBlocks va size, isBlockDesc (s.word block) = true)
      s := by
  refine .of_wp ?_
  rw [existingChecks, wp_bind, wp_requireRuntimeTables]
  refine ⟨fun _ => rfl, fun _ => ?_⟩
  rw [wp_bind]
  refine (wp_validateKernelVaSize s va size).mono ?_ fun _ _ same => same
  rintro _ t ⟨rfl, kernel, aligned, whole⟩
  refine (wp_validateExistingKernelBlocks tables va size).mono ?_ fun _ _ same => same
  exact fun _ _ checked => ⟨checked.1, kernel, aligned, whole, checked.2⟩

/-- What a successful mapping has checked and done. -/
structure MappedRegion (s t : State) (owned : List Nat) (va pa size : Nat) (attr : VmMemoryAttr)
    (flags : VmFlags) : Prop where
  kernel : isKernelVa va = true
  aligned : va % blockSize = 0
  whole : size % blockSize = 0
  physical : pa % blockSize = 0
  clear : ∀ block ∈ regionBlocks va size, s.word block = 0
  progress : MapProgress s t owned va (regionDesc pa attr flags) (size / blockSize)

theorem wp_mapKernelRegion (used : s.UsedExcept fun _ => False) :
    WP (mapKernelRegion va pa size attr flags)
      (fun _ t => MappedRegion s t owned va pa size attr flags)
      (fun error t => Restored s t ∧
        (mapChecks va pa size s = .error error s ∨ error = .outOfFrames)) s := by
  rw [mapKernelRegion_eq, wp_bind]
  have unchanged := restored_refl tables used
  refine (checks_map tables va pa size).mono ?_ fun _ t refused =>
    ⟨refused.1 ▸ unchanged, .inl refused.2⟩
  rintro _ t ⟨rfl, kernel, aligned, whole, physical, clear⟩
  have count := count_of_whole whole
  have unmapped : ∀ number, number < size / blockSize → t.word (regionBlock va number) = 0 := by
    intro number below
    rw [count] at clear
    exact clear _ (mem_regionBlocks.mpr ⟨number, below, rfl⟩)
  have loop : WP (forEach (blockOffsets (size / blockSize * blockSize))
      (mapKernelBlock va pa attr flags)) _ _ t := wp_mapKernelBlocks tables used unmapped
  rw [← count] at loop
  exact loop.mono (fun _ u progress => ⟨kernel, aligned, whole, physical, clear, progress⟩)
    fun _ u failed => ⟨failed.2, .inr failed.1⟩

theorem wp_unmapKernelRegion (used : s.UsedExcept fun _ => False) :
    WP (unmapKernelRegion va size)
      (fun _ t => isKernelVa va = true ∧ va % blockSize = 0 ∧ size % blockSize = 0 ∧
        ∃ owned', Cleared s t owned owned' (regionBlocks va size))
      (fun error t => t = s ∧ existingChecks va size s = .error error s) s := by
  rw [unmapKernelRegion_eq, wp_bind]
  refine (checks_existing tables va size).mono ?_ fun _ _ refused => refused
  rintro _ t ⟨rfl, kernel, aligned, whole, mapped⟩
  exact ⟨kernel, aligned, whole, cleared_blocks tables used mapped⟩

end

theorem rewriteRegion_free (value : Nat → Nat) (va size : Nat) (s : State) :
    (rewriteRegion value va size s).free = s.free := by
  rw [rewriteRegion]
  induction regionBlocks va size generalizing s with
  | nil => rfl
  | cons block rest ih =>
    rw [List.foldl_cons, ih, rewriteBlock]
    split <;> rfl

/-- A new descriptor for a block has its address. -/
theorem protectedDesc_same (flags : VmFlags) (word : Nat) :
    isBlockDesc (protectedDesc flags word) = true ∧
      descPa (protectedDesc flags word) = descPa word := by
  have small : word >>> 2 &&& 0b111 < 8 :=
    Nat.lt_of_le_of_lt Nat.and_le_right (by decide)
  refine ⟨isBlockDesc_blockDesc small, (descPa_blockDesc small).trans ?_⟩
  rw [descPa, Nat.and_assoc, Nat.and_self]

/-- Protecting twice is protecting once. -/
theorem protectedDesc_again (flags : VmFlags) (word : Nat) :
    protectedDesc flags (protectedDesc flags word) = protectedDesc flags word := by
  have small : word >>> 2 &&& 0b111 < 8 :=
    Nat.lt_of_le_of_lt Nat.and_le_right (by decide)
  rw [protectedDesc, (protectedDesc_same flags word).2, protectedDesc, attrIndex_blockDesc small]

theorem wp_protectKernelRegion (tables : KernelTables s owned) :
    WP (protectKernelRegion va size flags)
      (fun _ t => (∃ word, Rewritten s t owned word) ∧ t.free = s.free ∧
        (s.UsedExcept (fun _ => False) → t.UsedExcept fun _ => False) ∧
        ∀ va', blockTranslation (t.word va') va' = blockTranslation (s.word va') va')
      (fun error t => t = s ∧ existingChecks va size s = .error error s) s := by
  rw [protectKernelRegion_eq, wp_bind]
  refine (checks_existing tables va size).mono ?_ fun _ _ refused => refused
  rintro _ u ⟨rfl, kernel, aligned, whole, mapped⟩
  rw [wp_modify]
  obtain ⟨rewritten, exceptions⟩ := rewritten_all
    (fun word => .inr (protectedDesc_same flags word).1) (protectedDesc_again flags)
    (regionBlocks va size) tables (tableAt_of_mapped mapped)
  refine ⟨⟨_, rewritten⟩, rewriteRegion_free _ _ _ _, fun used => ?_, fun va' => ?_⟩
  · -- the tables of the region hold its blocks
    intro path table nonempty short found
    rcases exceptions _ used path table nonempty short found with
      (none | ⟨block, member, here⟩) | word
    · exact none.elim
    · subst here
      refine .inr ⟨slot (l2Index block), fun zero => ?_⟩
      have word : (rewriteRegion (protectedDesc flags) va size u).word block = _ :=
        rewritten.words block
      rw [if_pos ⟨block, member, rfl⟩, State.word, leafWord_of_walk found, zero] at word
      exact isBlockDesc_ne (protectedDesc_same flags _).1 word.symm
    · exact .inr word
  · rw [show (rewriteRegion (protectedDesc flags) va size u).word va' = _ from rewritten.words va']
    split
    · next inside =>
      obtain ⟨block, member, same⟩ := inside
      have old := mapped block member
      rw [← word_sameBlock same] at old
      obtain ⟨block', address⟩ := protectedDesc_same flags (u.word va')
      rw [blockTranslation, blockTranslation, if_pos block', if_pos old, address]
    · rfl

/-! ### Runs -/

/-- The tables that the hardware uses are well formed and none is empty. -/
def RuntimeTables (s : State) : Prop :=
  ∃ owned, KernelTables s owned ∧ s.UsedExcept fun _ => False

inductive RegionCall where
  | map (va pa size : Nat) (attr : VmMemoryAttr) (flags : VmFlags)
  | unmap (va size : Nat)
  | protect (va size : Nat) (flags : VmFlags)
  /-- The rest of the kernel. -/
  | elsewhere

/-- What the rest of the kernel leaves alone: the frames of the kernel tables. -/
structure LeavesKernelTables (s t : State) : Prop where
  root : t.ttbr1 = s.ttbr1
  owned : ∀ owned, KernelTables s owned →
    (∀ frame ∈ owned, t.memory frame = s.memory frame) ∧ (owned ++ t.free).Nodup ∧
      ∀ frame ∈ t.free, TableFrame frame

/-- A call returns or fails. -/
inductive RegionCall.Runs : State → RegionCall → State → Prop where
  | map {s t : State} {va pa size : Nat} {attr : VmMemoryAttr} {flags : VmFlags}
      (run : mapKernelRegion va pa size attr flags s = .ok () t ∨
        ∃ error, mapKernelRegion va pa size attr flags s = .error error t) :
      Runs s (.map va pa size attr flags) t
  | unmap {s t : State} {va size : Nat}
      (run : unmapKernelRegion va size s = .ok () t ∨
        ∃ error, unmapKernelRegion va size s = .error error t) : Runs s (.unmap va size) t
  | protect {s t : State} {va size : Nat} {flags : VmFlags}
      (run : protectKernelRegion va size flags s = .ok () t ∨
        ∃ error, protectKernelRegion va size flags s = .error error t) :
      Runs s (.protect va size flags) t
  | elsewhere {s t : State} (leaves : LeavesKernelTables s t) : Runs s .elsewhere t

def kernelRegions : Machine State RegionCall where
  initial := RuntimeTables
  step := RegionCall.Runs

theorem runtimeTables_step {call : RegionCall} (held : RuntimeTables s)
    (step : kernelRegions.step s call t) : RuntimeTables t := by
  obtain ⟨owned, tables, used⟩ := held
  cases step with
  | map run =>
    rcases run with run | ⟨error, run⟩
    · have mapped := (wp_mapKernelRegion tables used).of_ok run
      obtain ⟨owned', kept⟩ := mapped.progress.kept
      exact ⟨owned', kept.tables, mapped.progress.used⟩
    · exact ((wp_mapKernelRegion tables used).of_error run).1.again
  | unmap run =>
    rcases run with run | ⟨error, run⟩
    · obtain ⟨-, -, -, owned', cleared⟩ := (wp_unmapKernelRegion tables used).of_ok run
      exact ⟨owned', cleared.kept.tables, cleared.used⟩
    · rw [((wp_unmapKernelRegion tables used).of_error run).1]
      exact ⟨owned, tables, used⟩
  | protect run =>
    rcases run with run | ⟨error, run⟩
    · obtain ⟨⟨word, rewritten⟩, -, still, -⟩ := (wp_protectKernelRegion tables).of_ok run
      exact ⟨owned, rewritten.kept.tables, still used⟩
    · rw [((wp_protectKernelRegion tables).of_error run).1]
      exact ⟨owned, tables, used⟩
  | elsewhere leaves =>
    obtain ⟨memory, distinct, frames⟩ := leaves.owned owned tables
    have shape : Shape t.memory t.ttbr1 owned := by
      rw [leaves.root]
      exact tables.shape.congr memory
    refine ⟨owned, ⟨shape, distinct, fun frame member => ?_⟩, ?_⟩
    · exact (List.mem_append.mp member).elim
        (fun mine => tables.frames frame (List.mem_append_left _ mine)) (frames frame)
    · rw [State.UsedExcept, leaves.root]
      exact tables.shape.used_same memory used

theorem runtimeTables_of_reachable (reached : kernelRegions.Reachable s) : RuntimeTables s :=
  reached.invariant (fun _ start => start) fun _ _ _ _ held step => runtimeTables_step held step

/-- The region ends in the address range, and its physical end is within the width of a
descriptor. -/
def RegionCall.Fits : RegionCall → Prop
  | .map va pa size _ _ => va + size ≤ usizeLimit ∧ pa + size ≤ 2 ^ 48
  | .unmap va size | .protect va size _ => va + size ≤ usizeLimit
  | .elsewhere => True

section

variable (tables : KernelTables s owned)

include tables

variable (used : s.UsedExcept fun _ => False)

include used

end

/-- A cleared root and two free frames. -/
def clearedRoot : State := ⟨fun _ _ => 0, [0x2000, 0x3000], 0, 0x1000, true⟩

theorem runtimeTables_clearedRoot : kernelRegions.initial clearedRoot := by
  have none : ∀ path table, path ≠ [] →
      ¬ walk tableOf clearedRoot.memory clearedRoot.ttbr1 path = some table := by
    intro path table start found
    cases path with
    | nil => exact start rfl
    | cons index path =>
      have clear : tableOf (clearedRoot.memory clearedRoot.ttbr1 index) = .none := tableOf_zero
      rw [walk, clear] at found
      cases found
  have shape : Shape clearedRoot.memory clearedRoot.ttbr1 [0x1000] :=
    ⟨.new fun _ => tableOf_zero, fun _ _ _ _ _ => .inl rfl, fun _ _ _ _ _ => .inl rfl⟩
  have frames : ∀ frame ∈ [0x1000, 0x2000, 0x3000], frame ≠ 0 ∧ Addressable frame := by decide
  exact ⟨[0x1000], ⟨shape, by decide, frames⟩,
    fun path table start _ found => absurd found (none path table start)⟩

/-- The call that maps one block. -/
def oneBlock (va pa : Nat) : RegionCall :=
  .map va pa blockSize .normalWriteBack ⟨true, false, false, true⟩

/-- Unmapping a region right after it was mapped undoes the mapping: every address translates
as before, and the frames that the mapping took for its tables are free again. -/
theorem unmap_undoes_map (reached : kernelRegions.Reachable s)
    (map : mapKernelRegion va pa size attr flags s = .ok () t)
    (unmap : unmapKernelRegion va size t = .ok () u) :
    (∀ va', translateKernelVa u va' = translateKernelVa s va') ∧ u.free.Perm s.free := by
  obtain ⟨owned, tables, used⟩ := runtimeTables_of_reachable reached
  have mapped := (wp_mapKernelRegion tables used).of_ok map
  obtain ⟨owned', kept⟩ := mapped.progress.kept
  obtain ⟨-, -, -, owned'', cleared⟩ :=
    (wp_unmapKernelRegion kept.tables mapped.progress.used).of_ok unmap
  have whole := kept.trans cleared.kept
  have same : ∀ va', u.word va' = s.word va' := by
    intro va'
    refine (cleared.words va').trans ?_
    split
    · next inside =>
      obtain ⟨block, member, same⟩ := inside
      rw [word_sameBlock same, mapped.clear block member]
    · next outside =>
      refine mapped.progress.others va' fun number inside same => outside ⟨_, ?_, same⟩
      rw [count_of_whole mapped.whole]
      exact mem_regionBlocks.mpr ⟨number, inside, rfl⟩
  refine ⟨fun va' => translate_same tables whole.tables (same va'),
    whole.free_perm tables fun path bounded => ?_⟩
  -- The tables of both states are tables of the mapped state, and the same ones are in use.
  exact tableAt_eq tables whole.tables used cleared.used same whole.root mapped.progress.walks
    cleared.walks bounded

/-- A second block is mapped in the tables of a first one, and unmapped again. -/
theorem unmap_undoes_map_second : ∃ s t u, kernelRegions.Reachable s ∧
    translateKernelVa s 0xffff800000000000 = some 0x40000000 ∧
    mapKernelRegion 0xffff800000200000 0 blockSize .deviceNgRnE ⟨true, false, false, true⟩ s =
      .ok () t ∧
    unmapKernelRegion 0xffff800000200000 blockSize t = .ok () u ∧ u.free.Perm s.free := by
  obtain ⟨s, t, u, first, found, map, unmap⟩ : ∃ s t u,
      mapKernelRegion 0xffff800000000000 0x40000000 blockSize .normalWriteBack
        ⟨true, false, false, true⟩ clearedRoot = .ok () s ∧
      translateKernelVa s 0xffff800000000000 = some 0x40000000 ∧
      mapKernelRegion 0xffff800000200000 0 blockSize .deviceNgRnE ⟨true, false, false, true⟩ s =
        .ok () t ∧
      unmapKernelRegion 0xffff800000200000 blockSize t = .ok () u :=
    ⟨_, _, _, rfl, by decide, rfl, rfl⟩
  have step : kernelRegions.step clearedRoot (oneBlock 0xffff800000000000 0x40000000) s :=
    .map (.inl first)
  have reached := (Machine.Reachable.initial runtimeTables_clearedRoot).step step
  exact ⟨s, t, u, reached, found, map, unmap, (unmap_undoes_map reached map unmap).2⟩

end Genrt.Mmu
