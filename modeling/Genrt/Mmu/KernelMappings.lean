import Genrt.Foundation.Machine
import Genrt.Mmu.KernelSteps

/-!
# Kernel regions, exactly

An operation on a region that fits into the upper half of the address range, and whose
physical end a descriptor can hold, changes the translations of the region and no others.
A mapping that fails half way gives back every table it has made.
-/

namespace Genrt.Mmu

open Fallible TableTree

variable {s t u : State} {va va' pa size : Nat} {owned owned' : List Nat}

/-! ### Regions -/

theorem blockOffsets_eq (count : Nat) :
    blockOffsets (count * blockSize) = (List.range count).map (· * blockSize) := by
  have rounds : (count * blockSize + (blockSize - 1)) / blockSize = count := by
    simp only [blockSize]
    omega
  rw [blockOffsets, rounds]

/-- The blocks of a region, by their number. -/
def regionBlock (va number : Nat) : Nat := wrappingAdd va (number * blockSize)

theorem regionBlocks_eq (va count : Nat) :
    regionBlocks va (count * blockSize) = (List.range count).map (regionBlock va) := by
  rw [regionBlocks, blockOffsets_eq, List.map_map]
  rfl

theorem mem_regionBlocks {count block : Nat} :
    block ∈ regionBlocks va (count * blockSize) ↔
      ∃ number, number < count ∧ regionBlock va number = block := by
  rw [regionBlocks_eq, List.mem_map]
  exact exists_congr fun _ => and_congr_left fun _ => List.mem_range

section Region

variable {count : Nat} (kernel : isKernelVa va = true) (aligned : va % blockSize = 0)
  (fits : va + count * blockSize ≤ usizeLimit)

include fits

variable {number : Nat}

include kernel aligned

end Region

/-! ### Checks -/

theorem wp_validateKernelVaSize (s : State) (va size : Nat) : WP (validateKernelVaSize va size)
      (fun _ t => t = s ∧ isKernelVa va = true ∧ va % blockSize = 0 ∧ size % blockSize = 0)
      (fun _ t => t = s) s := by
  rw [validateKernelVaSize, wp_bind, wp_failIf]
  refine ⟨fun _ => rfl, fun _ => ?_⟩
  rw [wp_bind, wp_failIf]
  refine ⟨fun _ => rfl, fun kernel => wp_failIf.mpr ⟨fun _ => rfl, fun aligned => ?_⟩⟩
  rw [not_or, not_not, not_not] at aligned
  exact ⟨rfl, Bool.eq_true_of_not_eq_false kernel, aligned⟩

theorem wp_validateKernelRegion (s : State) (va pa size : Nat) :
    WP (validateKernelRegion va pa size)
      (fun _ t => t = s ∧ isKernelVa va = true ∧ va % blockSize = 0 ∧ size % blockSize = 0 ∧
        pa % blockSize = 0) (fun _ t => t = s) s := by
  rw [validateKernelRegion, wp_bind]
  refine (wp_validateKernelVaSize s va size).mono ?_ fun _ _ same => same
  rintro _ t ⟨rfl, kernel, aligned, whole⟩
  refine wp_failIf.mpr ⟨fun _ => rfl, fun physical => ?_⟩
  exact ⟨rfl, kernel, aligned, whole, not_not.mp physical⟩

theorem word_eq_zero_of_none (none : s.tableAt (kernelPath va) = none) : s.word va = 0 := by
  rw [State.tableAt] at none
  rw [State.word, leafWord, none]

theorem wp_ensureKernelBlockUnmapped (tables : KernelTables s owned) (va : Nat) :
    WP (ensureKernelBlockUnmapped va) (fun _ t => t = s ∧ s.word va = 0) (fun _ t => t = s) s := by
  have start : s.tableAt [] = some s.ttbr1 := rfl
  have upper : s.tableAt [slot (l0Index va)] = tableOf (s.read s.ttbr1 (l0Index va)) :=
    walk_of_concat start
  have lower : s.tableAt (kernelPath va) =
      (s.tableAt [slot (l0Index va)]).bind fun l1 => tableOf (s.read l1 (l1Index va)) :=
    walk_concat [slot (l0Index va)] (slot (l1Index va))
  rw [ensureKernelBlockUnmapped, wp_bind, wp_get, wp_bind, wp_failIf]
  refine ⟨fun _ => rfl, fun _ => wp_ite.mpr ⟨fun invalid => ⟨rfl, ?_⟩, fun _ => ?_⟩⟩
  · rw [tableOf_of_invalid (Bool.not_eq_true _ ▸ invalid)] at upper
    exact word_eq_zero_of_none (by rw [lower, upper]; rfl)
  rw [wp_bind, wp_failIf]
  refine ⟨fun _ => rfl, fun table => ?_⟩
  have first := Bool.eq_true_of_not_eq_false table
  rw [tableOf, if_pos first] at upper
  rw [upper, Option.bind_some] at lower
  refine wp_ite.mpr ⟨fun invalid => ⟨rfl, ?_⟩, fun _ => ?_⟩
  · rw [tableOf_of_invalid (Bool.not_eq_true _ ▸ invalid)] at lower
    exact word_eq_zero_of_none lower
  rw [wp_bind, wp_failIf]
  refine ⟨fun _ => rfl, fun table' => wp_failIf.mpr ⟨fun _ => rfl, fun invalid => ⟨rfl, ?_⟩⟩⟩
  rw [tableOf, if_pos (Bool.eq_true_of_not_eq_false table')] at lower
  rw [State.word, leafWord_of_walk lower]
  refine (tables.shape.leaf (kernelPath va) _ (slot (l2Index va)) rfl lower).resolve_right ?_
  exact fun block => invalid (isBlockDesc_valid block)

theorem wp_validateExistingKernelBlocks (tables : KernelTables s owned) (va size : Nat) :
    WP (validateExistingKernelBlocks va size)
      (fun _ t => t = s ∧ ∀ block ∈ regionBlocks va size, isBlockDesc (s.word block) = true)
      (fun _ t => t = s) s := by
  refine wp_forEach_check (fun block => ?_) (regionBlocks va size)
  rw [wp_bind, wp_get, wp_failIf]
  refine ⟨fun _ => rfl, fun found => ⟨rfl, ?_⟩⟩
  have found := Bool.eq_true_of_not_eq_false found
  rw [existingL2Table_eq tables] at found
  cases lowest : s.tableAt (kernelPath block) with
  | none =>
    rw [lowest] at found
    cases found
  | some l2 =>
    rw [lowest] at found
    rw [State.word, leafWord_of_walk lowest]
    exact found

/-! ### Clearing blocks -/

/-- Blocks were cleared and the tables that became empty were given back. -/
structure Cleared (s t : State) (owned owned' blocks : List Nat) : Prop where
  kept : Kept s t owned owned'
  walks : Extends t s
  used : t.UsedExcept fun _ => False
  words : ∀ va, t.word va =
    if ∃ block ∈ blocks, blockNumber va = blockNumber block then 0 else s.word va

variable {blocks : List Nat}

theorem tableAt_of_mapped (mapped : ∀ block ∈ blocks, isBlockDesc (s.word block) = true) :
    ∀ block ∈ blocks, ∃ l2, s.tableAt (kernelPath block) = some l2 := by
  intro block member
  obtain ⟨l2, found, -⟩ := tableAt_of_word (isBlockDesc_ne (mapped block member))
  exact ⟨l2, found⟩

theorem cleared_blocks (tables : KernelTables s owned) (used : s.UsedExcept fun _ => False)
    (mapped : ∀ block ∈ blocks, isBlockDesc (s.word block) = true) :
    ∃ owned', Cleared s (blocks.foldl reclaimDetachedTablesForVa
      (blocks.foldl (rewriteBlock fun _ => 0) s)) owned owned' blocks := by
  obtain ⟨rewritten, exceptions⟩ := rewritten_all (fun _ => .inl rfl) (fun _ => rfl) blocks tables
    (tableAt_of_mapped mapped)
  obtain ⟨owned', reclaimed, still⟩ := reclaimed_all blocks rewritten.kept.tables
  refine ⟨owned', rewritten.kept.trans reclaimed.kept, fun path table short found => ?_, ?_,
    fun va => ?_⟩
  · rw [← rewritten.walks path short]
    exact reclaimed.walks path table short found
  · refine UsedExcept.mono (still _ (exceptions _ used)) fun path _ held => ?_
    obtain ⟨none | ⟨block, member, here⟩, outside⟩ := held
    · exact none
    · exact outside block member (.inr here)
  · rw [reclaimed.words va, rewritten.words va]

/-! ### Mapping block by block -/

/-- The first blocks of a region are mapped. A block that the region meets again has the
last descriptor. -/
structure MapProgress (s t : State) (owned : List Nat) (va : Nat) (desc : Nat → Nat)
    (count : Nat) : Prop where
  kept : ∃ owned', Kept s t owned owned'
  walks : Extends s t
  used : t.UsedExcept fun _ => False
  blocks : ∀ number, number < count → isBlockDesc (t.word (regionBlock va number)) = true
  done : ∀ number, number < count → (∀ later, number < later → later < count →
    blockNumber (regionBlock va later) ≠ blockNumber (regionBlock va number)) →
    t.word (regionBlock va number) = desc number
  others : ∀ va', (∀ number, number < count →
    blockNumber va' ≠ blockNumber (regionBlock va number)) → t.word va' = s.word va'

/-- All is as before a mapping that failed. -/
structure Restored (s t : State) : Prop where
  words : ∀ va, t.word va = s.word va
  free : t.free.Perm s.free
  root : t.ttbr1 = s.ttbr1
  again : ∃ owned, KernelTables t owned ∧ t.UsedExcept fun _ => False

theorem restored_refl (tables : KernelTables s owned) (used : s.UsedExcept fun _ => False) :
    Restored s s := ⟨fun _ => rfl, .refl _, rfl, owned, tables, used⟩

variable {desc : Nat → Nat} {middle : List Nat} {done : Nat}

/-- Clearing the blocks that were mapped, after tables were found as before. -/
theorem restored_rollback (tables : KernelTables s owned) (used : s.UsedExcept fun _ => False)
    (unmapped : ∀ number, number < done → s.word (regionBlock va number) = 0)
    (progress : MapProgress s t owned va desc done) (first : Kept s t owned middle)
    (failed : Unmade t u middle) : Restored s (rollbackKernelMap va (done * blockSize) u) := by
  obtain ⟨⟨owned', kept⟩, words, usedAfter, walks⟩ := failed
  have mapped : ∀ block ∈ regionBlocks va (done * blockSize),
      isBlockDesc (u.word block) = true := by
    intro block member
    obtain ⟨number, inside, rfl⟩ := mem_regionBlocks.mp member
    rw [words]
    exact progress.blocks number inside
  obtain ⟨final, cleared⟩ := cleared_blocks kept.tables usedAfter mapped
  have whole := (first.trans kept).trans cleared.kept
  have same : ∀ va', (rollbackKernelMap va (done * blockSize) u).word va' = s.word va' := by
    intro va'
    refine (cleared.words va').trans ?_
    split
    · next inside =>
      obtain ⟨block, member, same⟩ := inside
      obtain ⟨number, inside, rfl⟩ := mem_regionBlocks.mp member
      rw [word_sameBlock same, unmapped number inside]
    · next outside =>
      rw [words]
      exact progress.others va' fun number inside same =>
        outside ⟨_, mem_regionBlocks.mpr ⟨number, inside, rfl⟩, same⟩
  have larger : Extends s u := fun path table bounded found =>
    (walks path bounded).trans (progress.walks path table bounded found)
  refine ⟨same, whole.free_perm tables fun path bounded => ?_, whole.root, final, whole.tables,
    cleared.used⟩
  exact tableAt_eq tables whole.tables used cleared.used same whole.root larger cleared.walks
    bounded

/-- The descriptor of a block of a region. -/
def regionDesc (pa : Nat) (attr : VmMemoryAttr) (flags : VmFlags) (number : Nat) : Nat :=
  blockDesc (wrappingAdd pa (number * blockSize)) (attrToIndex attr) flags

theorem isBlockDesc_regionDesc (pa : Nat) (attr : VmMemoryAttr) (flags : VmFlags) (number : Nat) :
    isBlockDesc (regionDesc pa attr flags number) = true :=
  isBlockDesc_blockDesc (attrToIndex_lt attr)

/-- A block that is written after its tables were found. -/
theorem MapProgress.write {l2 : Nat} (block : isBlockDesc (desc done) = true)
    (progress : MapProgress s t owned va desc done) (first : Kept s t owned middle)
    (grew : Grew t u middle owned') (found : u.tableAt (kernelPath (regionBlock va done)) = some l2)
    (onPath : u.UsedExcept (OnPath (regionBlock va done))) :
    MapProgress s (u.write l2 (l2Index (regionBlock va done)) (desc done)) owned va desc
      (done + 1) := by
  have written := rewritten_write grew.kept.tables found (.inr block)
  have exceptions := @Shape.used_write _ _ (desc done) _ _ _ _ grew.kept.tables.shape found onPath
  refine ⟨⟨owned', (first.trans grew.kept).trans written.kept⟩, fun path table bounded before => ?_,
    ?_, fun number inside => ?_, fun number inside last => ?_, fun va' outside => ?_⟩
  · rw [written.walks path bounded]
    exact grew.walks path table bounded (progress.walks path table bounded before)
  · have lowest := (written.walks _ (kernelPath_short _)).trans found
    refine used_of_word lowest ?_ (UsedExcept.mono exceptions fun path _ held => ?_)
    · rw [write_here]
      exact isBlockDesc_ne block
    · exact .inr (held.elim id .inr)
  · rw [written.words]
    split
    · exact block
    · next apart =>
      have earlier : number < done := Nat.lt_of_le_of_ne (Nat.le_of_lt_succ inside) (by
        rintro rfl
        exact apart rfl)
      rw [grew.words]
      exact progress.blocks number earlier
  · rw [written.words]
    rcases Nat.lt_succ_iff_lt_or_eq.mp inside with earlier | rfl
    · rw [if_neg fun same => last done earlier (Nat.lt_succ_self done) same.symm, grew.words]
      exact progress.done number earlier fun later after below =>
        last later after (Nat.lt_succ_of_lt below)
    · exact if_pos rfl
  · rw [written.words, if_neg (outside done (Nat.lt_succ_self done)), grew.words,
      progress.others va' fun number inside => outside number (Nat.lt_succ_of_lt inside)]

section MappingLoop

variable {count : Nat} {attr : VmMemoryAttr} {flags : VmFlags} (tables : KernelTables s owned)
  (used : s.UsedExcept fun _ => False)
  (unmapped : ∀ number, number < count → s.word (regionBlock va number) = 0)

include tables used unmapped

theorem wp_mapKernelBlock (below : done < count)
    (progress : MapProgress s t owned va (regionDesc pa attr flags) done) :
    WP (mapKernelBlock va pa attr flags (done * blockSize))
      (fun _ u => MapProgress s u owned va (regionDesc pa attr flags) (done + 1))
      (fun error u => error = .outOfFrames ∧ Restored s u) t := by
  obtain ⟨middle, first⟩ := progress.kept
  rw [mapKernelBlock, show wrappingAdd va (done * blockSize) = regionBlock va done from rfl,
    wp_bind, wp_tryCatch]
  refine (wp_ensureL2Table first.tables progress.used (regionBlock va done)).mono ?_ ?_
  · rintro l2 u ⟨owned', grew, found, onPath⟩
    rw [wp_modify]
    exact progress.write (isBlockDesc_regionDesc pa attr flags done) first grew found onPath
  · rintro error u ⟨full, failed⟩
    rw [wp_bind, wp_modify, wp_throw]
    exact ⟨full, restored_rollback tables used (fun number inside =>
      unmapped number (inside.trans below)) progress first failed⟩

theorem wp_mapKernelBlocks :
    WP (forEach (blockOffsets (count * blockSize)) (mapKernelBlock va pa attr flags))
      (fun _ u => MapProgress s u owned va (regionDesc pa attr flags) count)
      (fun error u => error = .outOfFrames ∧ Restored s u) s := by
  -- the offsets that are left, from the number of blocks that are done
  let inv (rest : List Nat) (u : State) : Prop :=
    ∃ done, done ≤ count ∧ rest = (List.range' done (count - done)).map (· * blockSize) ∧
      MapProgress s u owned va (regionDesc pa attr flags) done
  have step : ∀ offset rest u, inv (offset :: rest) u →
      WP (mapKernelBlock va pa attr flags offset) (fun _ v => inv rest v)
        (fun error v => error = .outOfFrames ∧ Restored s v) u := by
    rintro offset rest u ⟨done, le, list, progress⟩
    have below : done < count := by
      refine Nat.lt_of_le_of_ne le fun whole => ?_
      rw [whole, Nat.sub_self] at list
      cases list
    obtain ⟨left, eq⟩ : ∃ left, count - done = left + 1 := ⟨count - done - 1, by omega⟩
    rw [eq, List.range'_succ, List.map_cons, List.cons.injEq] at list
    obtain ⟨rfl, rfl⟩ := list
    refine (wp_mapKernelBlock tables used unmapped below progress).mono
      (fun _ v next => ⟨done + 1, below, ?_, next⟩) fun _ _ restored => restored
    rw [show count - (done + 1) = left by omega]
  have start : inv (blockOffsets (count * blockSize)) s := by
    refine ⟨0, Nat.zero_le _, ?_, ⟨⟨owned, .refl tables⟩, .refl s, used, fun _ none => ?_,
      fun _ none => ?_, fun _ _ => rfl⟩⟩
    · rw [blockOffsets_eq, List.range_eq_range', Nat.sub_zero]
    · exact absurd none (Nat.not_lt_zero _)
    · exact absurd none (Nat.not_lt_zero _)
  refine (wp_forEach step _ s start).mono (fun _ v held => ?_) fun _ _ restored => restored
  obtain ⟨done, le, list, progress⟩ := held
  have whole : count - done = 0 := by
    have length := congrArg List.length list
    rw [List.length_map, List.length_range'] at length
    exact length.symm
  rw [show count = done by omega]
  exact progress

end MappingLoop

end Genrt.Mmu
