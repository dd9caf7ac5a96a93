import Genrt.Mmu.KernelTables

/-!
# Steps of the kernel table operations

The frames of the kernel tables and the free frames are the same before and after each
step, taken together. The steps of the operations are the removal of the empty tables for
an address, the change of one word and the search for a table that is made if it is
missing. Walks tell which frames are tables, and where no table is empty the words tell
which walks there are.
-/

namespace Genrt.Mmu

open Fallible TableTree

/-- The kernel tables, in frames of their own. -/
structure KernelTables (s : State) (owned : List Nat) : Prop where
  shape : Shape s.memory s.ttbr1 owned
  distinct : (owned ++ s.free).Nodup
  frames : ∀ frame ∈ owned ++ s.free, TableFrame frame

/-- No frame is lost, and frames of others are left alone. -/
structure Kept (s t : State) (owned owned' : List Nat) : Prop where
  tables : KernelTables t owned'
  frames : (owned' ++ t.free).Perm (owned ++ s.free)
  outside : ∀ frame, frame ∉ owned ++ s.free → t.memory frame = s.memory frame
  root : t.ttbr1 = s.ttbr1

/-- The word for the block of an address. -/
def State.word (s : State) (va : Nat) : Nat := leafWord s.memory s.ttbr1 va

/-- The table that a path leads to. -/
def State.tableAt (s : State) (path : List Index) : Option Nat :=
  walk tableOf s.memory s.ttbr1 path

/-- No table but the root is empty, with exceptions. -/
def State.UsedExcept (s : State) (exception : List Index → Prop) : Prop :=
  Mmu.UsedExcept s.memory s.ttbr1 exception

/-- The tables of one state are found in the other. -/
def Extends (s t : State) : Prop :=
  ∀ path table, path.length ≤ 2 → s.tableAt path = some table → t.tableAt path = some table

variable {s t u : State} {va va' value table : Nat} {owned owned' owned'' : List Nat}
  {exception : List Index → Prop} {path : List Index}

theorem Extends.refl (s : State) : Extends s s := fun _ _ _ found => found

theorem Extends.trans (first : Extends s t) (second : Extends t u) : Extends s u :=
  fun path table short found => second path table short (first path table short found)

theorem KernelTables.root_ne (tables : KernelTables s owned) : s.ttbr1 ≠ 0 :=
  (tables.frames s.ttbr1 (List.mem_append_left _ tables.shape.tree.root_mem)).1

theorem Kept.refl (tables : KernelTables s owned) : Kept s s owned owned :=
  ⟨tables, .refl _, fun _ _ => rfl, rfl⟩

theorem Kept.trans (first : Kept s t owned owned') (second : Kept t u owned' owned'') :
    Kept s u owned owned'' := by
  refine ⟨second.tables, second.frames.trans first.frames, fun frame outside => ?_,
    second.root.trans first.root⟩
  rw [second.outside frame fun member => outside (first.frames.subset member),
    first.outside frame outside]

/-- The frames stay what they are when they change hands. -/
theorem KernelTables.kept (tables : KernelTables s owned) (shape : Shape t.memory t.ttbr1 owned')
    (frames : (owned' ++ t.free).Perm (owned ++ s.free))
    (outside : ∀ frame, frame ∉ owned ++ s.free → t.memory frame = s.memory frame)
    (root : t.ttbr1 = s.ttbr1) : Kept s t owned owned' :=
  ⟨⟨shape, frames.nodup_iff.mpr tables.distinct,
    fun frame member => tables.frames frame (frames.subset member)⟩, frames, outside, root⟩

/-! ### Empty tables -/

/-- What giving back empty tables leaves. -/
structure Reclaimed (s t : State) (owned owned' : List Nat) : Prop where
  kept : Kept s t owned owned'
  words : ∀ va, t.word va = s.word va
  walks : Extends t s

theorem Reclaimed.trans (first : Reclaimed s t owned owned')
    (second : Reclaimed t u owned' owned'') : Reclaimed s u owned owned'' :=
  ⟨first.kept.trans second.kept, fun va => (second.words va).trans (first.words va),
    second.walks.trans first.walks⟩

section

variable (tables : KernelTables s owned)

include tables

theorem reclaimed_of_shrinks {gone : List Nat} (shrinks : Shrinks s t owned gone owned')
    (freed : Freed t u gone) :
    Reclaimed s u owned owned' ∧ ∀ exception, t.UsedExcept exception → u.UsedExcept exception := by
  obtain ⟨once, -, apart⟩ := List.nodup_append'.mp tables.distinct
  have distinct := shrinks.frames.nodup_iff.mp once
  have same : ∀ frame ∈ owned', u.memory frame = t.memory frame := by
    intro frame mine
    refine freed.memory frame (freed.notMem
      (fun left => (List.nodup_append'.mp distinct).2.2 left mine) ?_)
    rw [shrinks.free]
    exact apart (shrinks.frames.symm.subset (List.mem_append_right _ mine))
  have frames : (owned' ++ u.free).Perm (owned ++ s.free) := by
    refine (freed.free.append_left owned').trans ?_
    rw [shrinks.free, ← List.append_assoc]
    exact (List.perm_append_comm.trans shrinks.frames.symm).append_right s.free
  have shape : Shape u.memory u.ttbr1 owned' := by
    rw [freed.root]
    exact shrinks.shape.congr same
  refine ⟨⟨tables.kept shape frames (fun frame outside => ?_) (freed.root.trans shrinks.root),
    fun va => ?_, fun path table short found => ?_⟩, fun exception used => ?_⟩
  · rw [freed.memory frame fun member => outside (frames.subset (List.mem_append_right _ member)),
      shrinks.outside frame fun mine => outside (List.mem_append_left _ mine)]
  · rw [State.word, State.word, freed.root, shrinks.shape.leafWord_same same, shrinks.leaf]
  · refine shrinks.walks path table short ?_
    rw [State.tableAt, freed.root, (shrinks.shape.agrees same).walk short] at found
    exact found
  · rw [State.UsedExcept, freed.root]
    exact shrinks.shape.used_same same used

/-- The paths to the tables for an address. -/
def OnPath (va : Nat) (path : List Index) : Prop :=
  path = [slot (l0Index va)] ∨ path = kernelPath va

theorem reclaimed_refl : Reclaimed s s owned owned :=
  ⟨.refl tables, fun _ => rfl, .refl s⟩

theorem shrinks_detachEmptyTables (va : Nat) :
    ∃ owned', Shrinks s (detachEmptyTablesForVa s va).2 owned (detachEmptyTablesForVa s va).1
        owned' ∧ ∀ exception, s.UsedExcept exception →
        (detachEmptyTablesForVa s va).2.UsedExcept fun path =>
          exception path ∧ ¬ OnPath va path := by
  unfold detachEmptyTablesForVa
  rw [if_neg tables.root_ne]
  have start : walk tableOf s.memory s.ttbr1 [] = some s.ttbr1 := rfl
  have upperPath : walk tableOf s.memory s.ttbr1 [slot (l0Index va)] =
      tableOf (s.read s.ttbr1 (l0Index va)) := walk_of_concat start
  split
  · next none =>
    -- there is no table for the address
    rw [none] at upperPath
    have lowerPath : walk tableOf s.memory s.ttbr1 (kernelPath va) = .none := by
      rw [show kernelPath va = [slot (l0Index va)] ++ [slot (l1Index va)] from rfl, walk_append,
        upperPath]
      rfl
    refine ⟨owned, .refl tables.shape, fun exception used => ?_⟩
    have upper := UsedExcept.drop used [slot (l0Index va)] fun table found =>
      absurd (upperPath.symm.trans found) (by simp)
    have lower := upper.drop (kernelPath va) fun table found =>
      absurd (lowerPath.symm.trans found) (by simp)
    exact lower.mono fun path _ held => ⟨held.1.1, fun on => on.elim held.1.2 held.2⟩
  · next l1 entry =>
    rw [entry] at upperPath
    obtain ⟨middle, lower, lowerUsed⟩ := @shrinks_detachIfEmpty l1 (l1Index va) owned
      [slot (l0Index va)] s tables.shape (by simp) upperPath
    obtain ⟨owned', upper, upperUsed⟩ := @shrinks_detachIfEmpty
      (detachIfEmpty s l1 (l1Index va)).2.ttbr1 (l0Index va) middle []
      (detachIfEmpty s l1 (l1Index va)).2 lower.shape (by simp) rfl
    refine ⟨owned', lower.trans upper, fun exception used => ?_⟩
    refine (upperUsed _ (lowerUsed exception used)).mono fun path nonempty held => ?_
    rcases held with ⟨⟨held, notLower⟩ | here, notUpper⟩ | root
    · exact ⟨held, fun on => on.elim notUpper notLower⟩
    · exact absurd here notUpper
    · exact absurd root nonempty

theorem reclaimed_tables (va : Nat) :
    ∃ owned', Reclaimed s (reclaimDetachedTablesForVa s va) owned owned' ∧
      ∀ exception, s.UsedExcept exception → (reclaimDetachedTablesForVa s va).UsedExcept fun path =>
          exception path ∧ ¬ OnPath va path := by
  obtain ⟨owned', shrinks, used⟩ := shrinks_detachEmptyTables tables va
  obtain ⟨reclaimed, still⟩ := reclaimed_of_shrinks tables shrinks (freed_foldl _ _)
  exact ⟨owned', reclaimed, fun exception before => still _ (used exception before)⟩

end

/-- After a loop of removals no table for one of the addresses is empty. -/
theorem reclaimed_all (vas : List Nat) : ∀ {s : State} {owned : List Nat}, KernelTables s owned →
      ∃ owned', Reclaimed s (vas.foldl reclaimDetachedTablesForVa s) owned owned' ∧
        ∀ exception, s.UsedExcept exception →
          (vas.foldl reclaimDetachedTablesForVa s).UsedExcept fun path =>
            exception path ∧ ∀ va ∈ vas, ¬ OnPath va path := by
  induction vas with
  | nil =>
    intro s owned tables
    refine ⟨owned, reclaimed_refl tables, fun exception used => ?_⟩
    exact UsedExcept.mono used fun path _ held =>
      ⟨held, fun _ member => absurd member List.not_mem_nil⟩
  | cons va rest ih =>
    intro s owned tables
    obtain ⟨middle, first, firstUsed⟩ := reclaimed_tables tables va
    obtain ⟨owned', second, secondUsed⟩ := ih first.kept.tables
    refine ⟨owned', first.trans second, fun exception used => ?_⟩
    refine (secondUsed _ (firstUsed exception used)).mono fun path _ held => ?_
    exact ⟨held.1.1, List.forall_mem_cons.mpr ⟨held.1.2, held.2⟩⟩

/-! ### Words -/

theorem existingL2Table_eq (tables : KernelTables s owned) (va : Nat) :
    existingL2Table s va = s.tableAt (kernelPath va) := by
  rw [existingL2Table, if_neg tables.root_ne, State.tableAt, kernelPath, walk]
  refine congrArg (Option.bind _) (funext fun l1 => ?_)
  rw [walk, State.read]
  cases tableOf (s.memory l1 (slot (l1Index va))) <;> rfl

/-- What changing words leaves. -/
structure Rewritten (s t : State) (owned : List Nat) (word : Nat → Nat) : Prop where
  kept : Kept s t owned owned
  words : ∀ va, t.word va = word va
  walks : ∀ path, path.length ≤ 2 → t.tableAt path = s.tableAt path

theorem rewritten_write (tables : KernelTables s owned) {l2 : Nat}
    (found : s.tableAt (kernelPath va) = some l2) (allowed : value = 0 ∨ isBlockDesc value = true) :
    Rewritten s (s.write l2 (l2Index va) value) owned fun va' =>
      if blockNumber va' = blockNumber va then value else s.word va' := by
  refine ⟨tables.kept (tables.shape.write found allowed) (.refl _) (fun frame outside => ?_) rfl,
    tables.shape.leafWord_write found,
    fun path short => (tables.shape.agrees_write found).walk short⟩
  funext entry
  exact write_elsewhere (.inl fun same => outside (List.mem_append_left _
    (same ▸ tables.shape.tree.mem_of_walk found (kernelPath_short va))))

theorem Rewritten.trans {word word' : Nat → Nat} (first : Rewritten s t owned word)
    (second : Rewritten t u owned word') : Rewritten s u owned word' :=
  ⟨first.kept.trans second.kept, second.words,
    fun path short => (second.walks path short).trans (first.walks path short)⟩

theorem word_sameBlock (same : blockNumber va' = blockNumber va) : s.word va' = s.word va := by
  obtain ⟨path, entry⟩ := sameBlock_iff.mp same
  rw [State.word, State.word, leafWord, leafWord, path, entry]

/-- A block that is mapped has a table. -/
theorem tableAt_of_word (mapped : s.word va ≠ 0) :
    ∃ l2, s.tableAt (kernelPath va) = some l2 ∧ s.read l2 (l2Index va) = s.word va := by
  cases found : s.tableAt (kernelPath va) with
  | none =>
    refine absurd ?_ mapped
    rw [State.tableAt] at found
    rw [State.word, leafWord, found]
  | some l2 => exact ⟨l2, rfl, (leafWord_of_walk found).symm⟩

theorem isBlockDesc_ne {desc : Nat} (block : isBlockDesc desc = true) : desc ≠ 0 := by
  rintro rfl
  revert block
  decide

theorem rewritten_block {value : Nat → Nat} (tables : KernelTables s owned)
    (stable : ∀ word, value word = 0 ∨ isBlockDesc (value word) = true) {l2 : Nat}
    (found : s.tableAt (kernelPath va) = some l2) :
    Rewritten s (rewriteBlock value s va) owned (fun va' =>
        if blockNumber va' = blockNumber va then value (s.word va') else s.word va') ∧
      ∀ exception, s.UsedExcept exception →
        (rewriteBlock value s va).UsedExcept fun path => exception path ∨ path = kernelPath va := by
  have run : rewriteBlock value s va = s.write l2 (l2Index va) (value (s.word va)) := by
    rw [rewriteBlock, existingL2Table_eq tables, found, State.word, leafWord_of_walk found]
    rfl
  rw [run]
  have written := rewritten_write tables found (stable (s.word va))
  refine ⟨⟨written.kept, fun va' => ?_, written.walks⟩,
    fun exception used => tables.shape.used_write found used⟩
  rw [written.words va']
  split
  · next same => rw [word_sameBlock same]
  · rfl

/-- A loop over blocks whose tables exist changes their words and no others, also if it
meets a block again. -/
theorem rewritten_all {value : Nat → Nat}
    (stable : ∀ word, value word = 0 ∨ isBlockDesc (value word) = true)
    (again : ∀ word, value (value word) = value word) (vas : List Nat) :
    ∀ {s : State}, KernelTables s owned →
      (∀ va ∈ vas, ∃ l2, s.tableAt (kernelPath va) = some l2) →
      Rewritten s (vas.foldl (rewriteBlock value) s) owned (fun va' =>
          if ∃ va ∈ vas, blockNumber va' = blockNumber va then value (s.word va')
          else s.word va') ∧
        ∀ exception, s.UsedExcept exception →
          (vas.foldl (rewriteBlock value) s).UsedExcept fun path =>
            exception path ∨ ∃ va ∈ vas, path = kernelPath va := by
  induction vas with
  | nil =>
    intro s tables _
    refine ⟨⟨.refl tables, fun va' => ?_, fun _ _ => rfl⟩, fun exception used => ?_⟩
    · rw [if_neg (by simp)]
      rfl
    · exact UsedExcept.mono used fun _ _ => .inl
  | cons va rest ih =>
    intro s tables present
    obtain ⟨l2, found⟩ := present va (.head _)
    obtain ⟨first, firstUsed⟩ := rewritten_block tables stable found
    obtain ⟨second, secondUsed⟩ := ih first.kept.tables fun other member => by
      rw [first.walks _ (kernelPath_short other)]
      exact present other (.tail _ member)
    refine ⟨⟨(first.trans second).kept, fun va' => ?_, (first.trans second).walks⟩,
      fun exception used => ?_⟩
    · rw [List.foldl_cons, second.words va', first.words va']
      by_cases here : blockNumber va' = blockNumber va
      · rw [if_pos here, again, ite_self]
        exact (if_pos ⟨va, .head _, here⟩).symm
      · rw [if_neg here]
        refine if_congr ?_ rfl rfl
        rw [List.exists_mem_cons_iff, or_iff_right here]
    · refine (secondUsed _ (firstUsed exception used)).mono fun path _ held => ?_
      rw [List.exists_mem_cons_iff]
      exact or_assoc.mp held

/-! ### Walks and words -/

/-- An address with given indices. -/
def addressOf (first second third : Index) : Nat :=
  kernelHvaOffset + first.val * 2 ^ 39 + second.val * 2 ^ 30 + third.val * 2 ^ 21

theorem indices_addressOf (first second third : Index) :
    kernelPath (addressOf first second third) = [first, second] ∧
      slot (l2Index (addressOf first second third)) = third := by
  have one : first.val < 512 := first.isLt
  have two : second.val < 512 := second.isLt
  have three : third.val < 512 := third.isLt
  simp only [kernelPath, List.cons.injEq, and_true, slot_eq, l0Index, l1Index, l2Index, addressOf,
    kernelHvaOffset]
  omega

/-- Where no table is empty, a table has a word below it. -/
theorem exists_word (tables : KernelTables s owned) (used : s.UsedExcept fun _ => False)
    (nonempty : path ≠ []) (short : path.length ≤ 2) (found : s.tableAt path = some table) :
    ∃ va, isKernelVa va = true ∧ va < usizeLimit ∧ path <+: kernelPath va ∧ s.word va ≠ 0 := by
  have lowest : ∀ first second l2, s.tableAt [first, second] = some l2 →
      ∃ va, isKernelVa va = true ∧ va < usizeLimit ∧ kernelPath va = [first, second] ∧
        s.word va ≠ 0 := by
    intro first second l2 found
    obtain held | ⟨third, word⟩ := used [first, second] l2 (by simp) (by simp) found
    · exact held.elim
    · obtain ⟨indices, entry⟩ := indices_addressOf first second third
      have one : first.val < 512 := first.isLt
      have two : second.val < 512 := second.isLt
      have three : third.val < 512 := third.isLt
      refine ⟨addressOf first second third, decide_eq_true ?_, ?_, indices, ?_⟩
      · simp only [addressOf]
        omega
      · simp only [addressOf, kernelHvaOffset, usizeLimit]
        omega
      · rw [State.word, leafWord_of_walk (indices.symm ▸ found), entry]
        exact word
  match path, nonempty, short with
  | [first], _, _ =>
    obtain held | ⟨second, word⟩ := used [first] table (by simp) (by simp) found
    · exact held.elim
    · obtain zero | ⟨l2, next⟩ := tables.shape.inner [first] table second (by simp) found
      · exact absurd zero word
      · have reached : s.tableAt [first, second] = some l2 :=
          (walk_of_concat
            (show walk tableOf s.memory s.ttbr1 [first] = some table from found)).trans next
        obtain ⟨va, kernel, bound, indices, word⟩ := lowest first second l2 reached
        exact ⟨va, kernel, bound, by rw [indices]; simp, word⟩
  | [first, second], _, _ =>
    obtain ⟨va, kernel, bound, indices, word⟩ := lowest first second table found
    exact ⟨va, kernel, bound, ⟨[], by rw [indices, List.append_nil]⟩, word⟩

/-- A word has all its tables. -/
theorem tableAt_isSome (mapped : s.word va ≠ 0) (above : path <+: kernelPath va) :
    ∃ table, s.tableAt path = some table := by
  obtain ⟨l2, found, -⟩ := tableAt_of_word mapped
  obtain ⟨rest, whole⟩ := above
  rw [State.tableAt, ← whole, walk_append] at found
  obtain ⟨middle, found, -⟩ := Option.bind_eq_some_iff.mp found
  exact ⟨middle, found⟩

/-- Where no table is empty, the words tell which tables there are. -/
theorem tableAt_eq (tables : KernelTables s owned) (tables' : KernelTables t owned')
    (used : s.UsedExcept fun _ => False) (used' : t.UsedExcept fun _ => False)
    (words : ∀ va, t.word va = s.word va) (root : t.ttbr1 = s.ttbr1) (larger : Extends s u)
    (larger' : Extends t u) (short : path.length ≤ 2) : t.tableAt path = s.tableAt path := by
  by_cases start : path = []
  · subst start
    exact congrArg some root
  · cases found : s.tableAt path with
    | some table =>
      obtain ⟨va, -, -, above, word⟩ := exists_word tables used start short found
      rw [← words va] at word
      obtain ⟨table', found'⟩ := tableAt_isSome word above
      rw [found', ← larger' path table' short found']
      exact larger path table short found
    | none =>
      cases found' : t.tableAt path with
      | none => rfl
      | some table =>
        obtain ⟨va, -, -, above, word⟩ := exists_word tables' used' start short found'
        rw [words va] at word
        obtain ⟨table', before⟩ := tableAt_isSome word above
        rw [found] at before
        cases before

/-- The same walks leave the same frames free. -/
theorem Kept.free_perm (kept : Kept s t owned owned') (tables : KernelTables s owned)
    (walks : ∀ path, path.length ≤ 2 → t.tableAt path = s.tableAt path) : t.free.Perm s.free := by
  have same : owned'.Perm owned := by
    refine (List.perm_ext_iff_of_nodup kept.tables.shape.tree.nodup
      tables.shape.tree.nodup).mpr fun frame => ?_
    rw [kept.tables.shape.tree.mem, tables.shape.tree.mem]
    refine exists_congr fun path => and_congr_right fun short => ?_
    rw [show walk tableOf t.memory t.ttbr1 path = walk tableOf s.memory s.ttbr1 path from
      walks path short]
  exact (List.perm_append_left_iff owned).mp
    ((same.symm.append_right t.free).trans kept.frames)

/-! ### New tables -/

/-- What making tables leaves. -/
structure Grew (s t : State) (owned owned' : List Nat) : Prop where
  kept : Kept s t owned owned'
  words : ∀ va, t.word va = s.word va
  walks : Extends s t

theorem Grew.refl (tables : KernelTables s owned) : Grew s s owned owned :=
  ⟨.refl tables, fun _ => rfl, .refl s⟩

theorem Grew.trans (first : Grew s t owned owned') (second : Grew t u owned' owned'') :
    Grew s u owned owned'' :=
  ⟨first.kept.trans second.kept, fun va => (second.words va).trans (first.words va),
    first.walks.trans second.walks⟩

/-- A vacant entry is clear. -/
theorem KernelTables.vacant (tables : KernelTables s owned) {index : Nat} (short : path.length < 2)
    (found : s.tableAt path = some table) (absent : ¬ isTableDesc (s.read table index) = true) :
    s.memory table (slot index) = 0 := by
  obtain zero | ⟨next, entry⟩ := tables.shape.inner path table (slot index) short found
  · exact zero
  · rw [show s.memory table (slot index) = s.read table index from rfl, tableOf, if_neg absent]
      at entry
    cases entry

theorem grew_grown (tables : KernelTables s owned) {index pa : Nat} {rest : List Nat}
    (short : path.length < 2) (found : s.tableAt path = some table)
    (vacant : s.memory table (slot index) = 0) (free : s.free = pa :: rest) :
    Grew s (s.grown rest table index pa) owned (pa :: owned) ∧
      (s.grown rest table index pa).tableAt (path ++ [slot index]) = some pa ∧
      ∀ exception, s.UsedExcept exception → (s.grown rest table index pa).UsedExcept fun other =>
          exception other ∨ other = path ++ [slot index] := by
  have mine : pa ∈ s.free := free ▸ .head _
  have fresh : pa ∉ owned := fun held => (List.nodup_append'.mp tables.distinct).2.2 held mine
  have physical := (tables.frames pa (List.mem_append_right _ mine)).2
  have parent := tables.shape.tree.mem_of_walk found (Nat.le_of_lt short)
  have walks : ∀ other : List Index, other.length ≤ 2 →
      (s.grown rest table index pa).tableAt other =
        if other = path ++ [slot index] then some pa else s.tableAt other :=
    fun other bounded => tables.shape.walk_grown short found vacant fresh physical bounded
  have frames : (pa :: owned ++ rest).Perm (owned ++ s.free) := by
    rw [free]
    exact List.perm_middle.symm
  refine ⟨⟨tables.kept (tables.shape.grown short found vacant fresh physical) frames ?_ rfl,
    tables.shape.leafWord_grown short found vacant fresh physical, ?_⟩, ?_,
    fun exception used => tables.shape.used_grown short found vacant fresh physical used⟩
  · intro frame outside
    refine grown_elsewhere (fun same => outside ?_) fun same => outside ?_
    · rw [same]
      exact List.mem_append_right _ mine
    · rw [same]
      exact List.mem_append_left _ parent
  · intro other before bounded reached
    rw [walks other bounded, if_neg]
    · exact reached
    · rintro rfl
      rw [State.tableAt, walk_of_concat found, vacant, tableOf_zero] at reached
      cases reached
  · rw [walks _ (by rw [List.length_append]; exact short), if_pos rfl]

theorem not_unsupported {desc : Nat} (zero : desc = 0) : isValid desc = false := by
  rw [zero]
  decide

theorem wp_ensureKernelTable (tables : KernelTables s owned) {index : Nat}
    (short : path.length < 2) (found : s.tableAt path = some table) : WP (ensureTable table index)
      (fun next t => ∃ owned', Grew s t owned owned' ∧
        t.tableAt (path ++ [slot index]) = some next ∧ ∀ exception, s.UsedExcept exception →
          t.UsedExcept fun other => exception other ∨ other = path ++ [slot index])
      (fun error t => error = .outOfFrames ∧ t = s) s := by
  rw [ensureTable, wp_bind, wp_get]
  refine wp_ite.mpr ⟨fun present => ?_, fun absent => ?_⟩
  · refine ⟨owned, .refl tables, ?_, fun exception used => UsedExcept.mono used fun _ _ => .inl⟩
    rw [State.tableAt, walk_of_concat found]
    exact if_pos present
  · have vacant := tables.vacant short found absent
    refine wp_ite.mpr ⟨fun _ => ?_, fun valid => absurd (not_unsupported vacant) valid⟩
    rw [wp_bind, wp_allocTableFrame]
    exact ⟨fun _ => ⟨rfl, rfl⟩,
      fun pa rest free => ⟨pa :: owned, grew_grown tables short found vacant free⟩⟩

/-- The same tables hold the same words. -/
structure Unmade (s t : State) (owned : List Nat) : Prop where
  kept : ∃ owned', Kept s t owned owned'
  words : ∀ va, t.word va = s.word va
  used : t.UsedExcept fun _ => False
  walks : ∀ path : List Index, path.length ≤ 2 → t.tableAt path = s.tableAt path

/-- The tables for a block are there, or everything is as before. -/
theorem wp_ensureL2Table (tables : KernelTables s owned) (used : s.UsedExcept fun _ => False)
    (va : Nat) : WP (ensureL2Table va)
      (fun l2 t => ∃ owned', Grew s t owned owned' ∧ t.tableAt (kernelPath va) = some l2 ∧
        t.UsedExcept (OnPath va))
      (fun error t => error = .outOfFrames ∧ Unmade s t owned) s := by
  have unchanged : Unmade s s owned := ⟨⟨owned, .refl tables⟩, fun _ => rfl, used, fun _ _ => rfl⟩
  have start : s.tableAt [] = some s.ttbr1 := rfl
  rw [ensureL2Table, wp_bind, wp_get, wp_bind, wp_failIf]
  refine ⟨fun zero => absurd zero tables.root_ne, fun _ => ?_⟩
  rw [wp_bind]
  refine (wp_ensureKernelTable tables (by simp) start).mono ?_
    fun _ t failed => ⟨failed.1, failed.2 ▸ unchanged⟩
  rintro l1 t ⟨middle, grew, found, exceptions⟩
  have usedUpper := exceptions _ used
  rw [wp_bind, wp_get]
  refine wp_ite.mpr ⟨fun present => ?_, fun absent => ?_⟩
  · refine ⟨middle, grew, ?_, UsedExcept.mono usedUpper fun path _ held =>
      .inl (held.resolve_left id)⟩
    exact (walk_of_concat found).trans (if_pos present)
  · have vacant := grew.kept.tables.vacant (by simp) found absent
    refine wp_ite.mpr ⟨fun _ => ?_, fun valid => absurd (not_unsupported vacant) valid⟩
    rw [wp_bind, wp_tryCatch, wp_allocTableFrame]
    refine ⟨fun _ => ?_, fun pa rest free => ?_⟩
    · rw [wp_bind, wp_modify, wp_throw]
      obtain ⟨owned', reclaimed, still⟩ := reclaimed_tables grew.kept.tables va
      have usedAfter := UsedExcept.mono (still _ usedUpper) fun path _ held =>
        held.2 (.inl (held.1.resolve_left id))
      have kept := grew.kept.trans reclaimed.kept
      have words := fun va => (reclaimed.words va).trans (grew.words va)
      exact ⟨rfl, ⟨owned', kept⟩, words, usedAfter, fun path short => tableAt_eq tables kept.tables
        used usedAfter words kept.root grew.walks reclaimed.walks short⟩
    · obtain ⟨grew', lowest, exceptions'⟩ := grew_grown grew.kept.tables (by simp) found vacant free
      refine ⟨pa :: middle, grew.trans grew', lowest, ?_⟩
      refine UsedExcept.mono (exceptions' _ usedUpper) fun path _ held => ?_
      exact held.imp_left fun upper => upper.resolve_left id

end Genrt.Mmu
