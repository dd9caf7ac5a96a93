import Genrt.Mmu.KernelRegions

/-!
# The shape of the kernel tables

The kernel tables form a tree of depth two. An upper entry is clear or leads to a table,
an entry of a lowest table is clear or a block. What the tables translate is read off the
words of the lowest tables, one for each block; everything else follows from which of the
tables hold a word at all.

The changes that the operations are made of are a new table, a write to a lowest table and
the removal of an empty table. Each is described by its effect on the words, on the walks
and on which tables may be empty.
-/

namespace Genrt.Mmu

open TableTree

/-- The indices that lead to the lowest table for a kernel address. -/
def kernelPath (va : Nat) : List Index := [slot (l0Index va), slot (l1Index va)]

/-- The block of an address among those that three indices can tell apart. -/
def blockNumber (va : Nat) : Nat := va / 2 ^ 21 % 2 ^ 27

abbrev Words := Nat → Index → Nat

/-- The word for the block of an address. -/
def leafWord (memory : Words) (root va : Nat) : Nat :=
  match walk tableOf memory root (kernelPath va) with
  | none => 0
  | some l2 => memory l2 (slot (l2Index va))

/-- Tables of depth two that hold nothing but tables and blocks. -/
structure Shape (memory : Words) (root : Nat) (owned : List Nat) : Prop where
  tree : Tree tableOf memory 2 root owned
  inner : ∀ path table index, path.length < 2 → walk tableOf memory root path = some table →
    memory table index = 0 ∨ ∃ next, tableOf (memory table index) = some next
  leaf : ∀ path table index, path.length = 2 → walk tableOf memory root path = some table →
    memory table index = 0 ∨ isBlockDesc (memory table index) = true

/-- No table but the root is empty, with exceptions. -/
def UsedExcept (memory : Words) (root : Nat) (exception : List Index → Prop) : Prop :=
  ∀ path table, path ≠ [] → path.length ≤ 2 → walk tableOf memory root path = some table →
    exception path ∨ ∃ index, memory table index ≠ 0

variable {memory memory' : Words} {root table index pa va va' value : Nat} {owned : List Nat}
  {path : List Index} {exception exception' : List Index → Prop} {s t : State}

/-! ### Blocks -/

theorem kernelPath_short (va : Nat) : (kernelPath va).length ≤ 2 := Nat.le_refl 2

theorem sameBlock_iff : blockNumber va' = blockNumber va ↔
    kernelPath va' = kernelPath va ∧ slot (l2Index va') = slot (l2Index va) := by
  simp only [blockNumber, kernelPath, l0Index, l1Index, l2Index, List.cons.injEq, slot_eq_iff,
    and_true]
  omega

theorem leafWord_of_walk {l2 : Nat} (reached : walk tableOf memory root (kernelPath va) = some l2) :
    leafWord memory root va = memory l2 (slot (l2Index va)) := by
  rw [leafWord, reached]

/-- Memory with the same walks and the same words in the lowest tables. -/
theorem leafWord_congr
    (walks : walk tableOf memory' root (kernelPath va) = walk tableOf memory root (kernelPath va))
    (words : ∀ l2, walk tableOf memory root (kernelPath va) = some l2 →
      memory' l2 (slot (l2Index va)) = memory l2 (slot (l2Index va))) :
    leafWord memory' root va = leafWord memory root va := by
  rw [leafWord, leafWord, walks]
  cases reached : walk tableOf memory root (kernelPath va) with
  | none => rfl
  | some l2 => exact words l2 reached

theorem UsedExcept.mono (used : UsedExcept memory root exception)
    (weaker : ∀ path, path ≠ [] → exception path → exception' path) :
    UsedExcept memory root exception' := fun path table nonempty short reached =>
  (used path table nonempty short reached).imp_left (weaker path nonempty)

/-- A table that is in use is no exception. -/
theorem UsedExcept.drop (used : UsedExcept memory root exception) (path : List Index)
    (inUse : ∀ table, walk tableOf memory root path = some table →
      ∃ index, memory table index ≠ 0) :
    UsedExcept memory root fun other => exception other ∧ other ≠ path := by
  intro other table nonempty short reached
  by_cases here : other = path
  · subst here
    exact .inr (inUse table reached)
  · exact (used other table nonempty short reached).imp_left fun held => ⟨held, here⟩

namespace Shape

section

variable (shape : Shape memory root owned) (same : ∀ frame ∈ owned, memory' frame = memory frame)

include shape same

theorem agrees : Agrees tableOf memory memory' 2 root :=
  shape.tree.agrees fun frame held index => congrFun (same frame held) index

theorem congr : Shape memory' root owned := by
  have agrees := shape.agrees same
  refine ⟨shape.tree.congr agrees, fun path table index short reached => ?_,
    fun path table index short reached => ?_⟩
  · rw [agrees.walk (Nat.le_of_lt short)] at reached
    rw [same table (shape.tree.mem_of_walk reached (Nat.le_of_lt short))]
    exact shape.inner path table index short reached
  · rw [agrees.walk (Nat.le_of_eq short)] at reached
    rw [same table (shape.tree.mem_of_walk reached (Nat.le_of_eq short))]
    exact shape.leaf path table index short reached

theorem leafWord_same (va : Nat) : leafWord memory' root va = leafWord memory root va :=
  leafWord_congr ((shape.agrees same).walk (kernelPath_short va)) fun l2 reached => by
    rw [same l2 (shape.tree.mem_of_walk reached (kernelPath_short va))]

theorem used_same (used : UsedExcept memory root exception) :
    UsedExcept memory' root exception := by
  intro path table nonempty short reached
  rw [(shape.agrees same).walk short] at reached
  rw [same table (shape.tree.mem_of_walk reached short)]
  exact used path table nonempty short reached

end

/-- A lowest table is none of the upper ones. -/
theorem lowest_ne (shape : Shape memory root owned) {l2 : Nat} (short : path.length < 2)
    (reached : walk tableOf memory root path = some table)
    (lowest : walk tableOf memory root (kernelPath va) = some l2) : l2 ≠ table := by
  rintro rfl
  have same := shape.tree.unique path (kernelPath va) l2 (Nat.le_of_lt short)
    (kernelPath_short va) reached lowest
  rw [same] at short
  exact Nat.lt_irrefl 2 short

end Shape

/-! ### A new table -/

section Growth

variable {rest : List Nat} {entry : Index} {frame : Nat}

theorem grown_here : (s.grown rest table index pa).memory table (slot index) = tableDesc pa := by
  rw [State.grown, State.installTable, write_here]

theorem grown_fresh (different : table ≠ pa) :
    (s.grown rest table index pa).memory pa entry = 0 := by
  rw [State.grown, State.installTable, write_elsewhere (.inl different.symm), clear_here]

theorem grown_other (fresh : frame ≠ pa) (apart : frame ≠ table ∨ entry ≠ slot index) :
    (s.grown rest table index pa).memory frame entry = s.memory frame entry := by
  rw [State.grown, State.installTable, write_elsewhere apart, clear_elsewhere fresh]

variable (shape : Shape s.memory root owned) (short : path.length < 2)
  (reached : walk tableOf s.memory root path = some table)
  (vacant : s.memory table (slot index) = 0) (fresh : pa ∉ owned) (physical : Addressable pa)

include shape short reached fresh

theorem Shape.parent_ne : table ≠ pa := fun same =>
  fresh (same ▸ shape.tree.mem_of_walk reached (Nat.le_of_lt short))

include vacant physical

theorem Shape.walk_grown {other : List Index} (bounded : other.length ≤ 2) :
    walk tableOf (s.grown rest table index pa).memory root other =
      if other = path ++ [slot index] then some pa else walk tableOf s.memory root other := by
  have none : tableOf (s.memory table (slot index)) = none := by rw [vacant]; exact tableOf_zero
  exact shape.tree.walk_install short reached none fresh
    (installed_grown physical (shape.parent_ne short reached fresh)) bounded

/-- A table that is found after growth is the fresh one or an old one. -/
theorem Shape.found_grown {other : List Index} {found : Nat} (bounded : other.length ≤ 2)
    (leads : walk tableOf (s.grown rest table index pa).memory root other = some found) :
    (other = path ++ [slot index] ∧ found = pa) ∨ (other ≠ path ++ [slot index] ∧ found ≠ pa ∧
        walk tableOf s.memory root other = some found) := by
  rw [shape.walk_grown short reached vacant fresh physical bounded] at leads
  split at leads
  · next here => exact .inl ⟨here, (Option.some.inj leads).symm⟩
  · next elsewhere =>
    exact .inr ⟨elsewhere, fun same => fresh (same ▸ shape.tree.mem_of_walk leads bounded), leads⟩

theorem Shape.grown : Shape (s.grown rest table index pa).memory root (pa :: owned) := by
  have parent := shape.parent_ne short reached fresh
  have none : tableOf (s.memory table (slot index)) = none := by rw [vacant]; exact tableOf_zero
  refine ⟨shape.tree.install short reached none fresh (installed_grown physical parent),
    fun other found entry bounded leads => ?_, fun other found entry bounded leads => ?_⟩
  · rcases shape.found_grown short reached vacant fresh physical (Nat.le_of_lt bounded) leads with
      ⟨-, rfl⟩ | ⟨-, old, before⟩
    · exact .inl (grown_fresh parent)
    · by_cases here : found = table ∧ entry = slot index
      · obtain ⟨rfl, rfl⟩ := here
        rw [grown_here]
        exact .inr ⟨pa, tableOf_tableDesc physical⟩
      · rw [grown_other old (not_and_or.mp here)]
        exact shape.inner other found entry bounded before
  · rcases shape.found_grown short reached vacant fresh physical (Nat.le_of_eq bounded) leads with
      ⟨-, rfl⟩ | ⟨-, old, before⟩
    · exact .inl (grown_fresh parent)
    · have different : found ≠ table := by
        rintro rfl
        have same := shape.tree.unique path other found (Nat.le_of_lt short)
          (Nat.le_of_eq bounded) reached before
        rw [same, bounded] at short
        exact Nat.lt_irrefl 2 short
      rw [grown_other old (.inl different)]
      exact shape.leaf other found entry bounded before

theorem Shape.leafWord_grown (va : Nat) :
    leafWord (s.grown rest table index pa).memory root va = leafWord s.memory root va := by
  have parent := shape.parent_ne short reached fresh
  have walks := @Shape.walk_grown root table index pa owned path s rest shape short reached vacant
    fresh physical _ (kernelPath_short va)
  by_cases here : kernelPath va = path ++ [slot index]
  · rw [if_pos here] at walks
    have before : walk tableOf s.memory root (kernelPath va) = none := by
      rw [here, walk_of_concat reached, vacant]
      exact tableOf_zero
    rw [leafWord_of_walk walks, grown_fresh parent, leafWord, before]
  · rw [if_neg here] at walks
    refine leafWord_congr walks fun l2 lowest => ?_
    exact grown_other
      (fun same => fresh (same ▸ shape.tree.mem_of_walk lowest (kernelPath_short va)))
      (.inl (shape.lowest_ne short reached lowest))

theorem Shape.used_grown (used : UsedExcept s.memory root exception) :
    UsedExcept (s.grown rest table index pa).memory root fun other =>
      exception other ∨ other = path ++ [slot index] := by
  intro other found nonempty bounded leads
  rcases shape.found_grown short reached vacant fresh physical bounded leads with
    ⟨here, -⟩ | ⟨-, old, before⟩
  · exact .inl (.inr here)
  · rcases used other found nonempty bounded before with held | ⟨entry, word⟩
    · exact .inl (.inl held)
    · refine .inr ⟨entry, ?_⟩
      rw [grown_other old]
      · exact word
      · refine not_and_or.mp ?_
        rintro ⟨rfl, rfl⟩
        exact word vacant

end Growth

/-! ### A word of a lowest table -/

section Leaf

variable {l2 : Nat} (shape : Shape s.memory root owned)
  (reached : walk tableOf s.memory root (kernelPath va) = some l2)

include shape reached

theorem Shape.agrees_write :
    Agrees tableOf s.memory (s.write l2 (l2Index va) value).memory 2 root := by
  intro path entry found short leads
  rw [write_elsewhere (.inl (shape.lowest_ne short leads reached).symm)]

theorem Shape.write (allowed : value = 0 ∨ isBlockDesc value = true) :
    Shape (s.write l2 (l2Index va) value).memory root owned := by
  have agrees := @Shape.agrees_write root va value owned s l2 shape reached
  refine ⟨shape.tree.congr agrees, fun path table entry short leads => ?_,
    fun path table entry short leads => ?_⟩
  · rw [agrees.walk (Nat.le_of_lt short)] at leads
    rw [write_elsewhere (.inl (shape.lowest_ne short leads reached).symm)]
    exact shape.inner path table entry short leads
  · rw [agrees.walk (Nat.le_of_eq short)] at leads
    by_cases here : table = l2 ∧ entry = slot (l2Index va)
    · obtain ⟨rfl, rfl⟩ := here
      rw [write_here]
      exact allowed
    · rw [write_elsewhere (not_and_or.mp here)]
      exact shape.leaf path table entry short leads

theorem Shape.leafWord_write (va' : Nat) :
    leafWord (s.write l2 (l2Index va) value).memory root va' =
      if blockNumber va' = blockNumber va then value else leafWord s.memory root va' := by
  have agrees := @Shape.agrees_write root va value owned s l2 shape reached
  have walks := agrees.walk (kernelPath_short va')
  split
  · next same =>
    obtain ⟨path, entry⟩ := sameBlock_iff.mp same
    rw [path, reached, ← path] at walks
    rw [leafWord_of_walk walks, entry, write_here]
  · next different =>
    refine leafWord_congr walks fun found leads => write_elsewhere (not_and_or.mp ?_)
    rintro ⟨rfl, entry⟩
    have path := shape.tree.unique (kernelPath va') (kernelPath va) found (kernelPath_short va')
      (kernelPath_short va) leads reached
    exact different (sameBlock_iff.mpr ⟨path, entry⟩)

theorem Shape.used_write (used : UsedExcept s.memory root exception) :
    UsedExcept (s.write l2 (l2Index va) value).memory root fun other =>
      exception other ∨ other = kernelPath va := by
  have agrees := @Shape.agrees_write root va value owned s l2 shape reached
  intro other table nonempty short leads
  rw [agrees.walk short] at leads
  by_cases here : table = l2
  · subst here
    exact .inl (.inr (shape.tree.unique other _ table short (kernelPath_short va) leads reached))
  · rcases used other table nonempty short leads with held | ⟨entry, word⟩
    · exact .inl (.inl held)
    · exact .inr ⟨entry, by rwa [write_elsewhere (.inl here)]⟩

omit shape in
/-- A table above a word is in use. -/
theorem used_of_word (word : s.memory l2 (slot (l2Index va)) ≠ 0)
    (used : UsedExcept s.memory root fun other =>
      exception other ∨ other = [slot (l0Index va)] ∨ other = kernelPath va) :
    UsedExcept s.memory root exception := by
  have lower := used.drop (kernelPath va) fun table leads => by
    rw [reached] at leads
    cases leads
    exact ⟨_, word⟩
  have upper := lower.drop [slot (l0Index va)] fun table leads => by
    refine ⟨slot (l1Index va), fun zero => ?_⟩
    have none : walk tableOf s.memory root (kernelPath va) = none := by
      rw [show kernelPath va = [slot (l0Index va)] ++ [slot (l1Index va)] from rfl,
        walk_of_concat leads, zero]
      exact tableOf_zero
    rw [none] at reached
    cases reached
  refine upper.mono fun other _ held => ?_
  obtain ⟨⟨held | held | held, notLower⟩, notUpper⟩ := held
  · exact held
  · exact absurd held notUpper
  · exact absurd held notLower

end Leaf

/-! ### Empty tables -/

theorem isEmpty_iff : s.isEmpty table = true ↔ ∀ entry, s.memory table entry = 0 := by
  rw [State.isEmpty, List.all_eq_true]
  exact ⟨fun all entry => eq_of_beq (all entry (List.mem_finRange entry)),
    fun all entry _ => beq_iff_eq.mpr (all entry)⟩

section Removal

variable {gone : Nat} (shape : Shape s.memory root owned) (short : path.length < 2)
  (reached : walk tableOf s.memory root path = some table)
  (entry : tableOf (s.memory table (slot index)) = some gone)
  (empty : ∀ other, s.memory gone other = 0)

include entry empty in
theorem detached_write :
    Detached tableOf s.memory (s.write table index 0).memory table (slot index) gone := by
  refine ⟨entry, fun other => ?_, ?_, fun found other apart => ?_⟩
  · rw [empty other]
    exact tableOf_zero
  · rw [write_here]
    exact tableOf_zero
  · rw [write_elsewhere apart]

include shape short reached entry empty

theorem Shape.walk_detached {other : List Index} {found : Nat} (bounded : other.length ≤ 2) :
    walk tableOf (s.write table index 0).memory root other = some found ↔
      other ≠ path ++ [slot index] ∧ walk tableOf s.memory root other = some found := by
  rw [shape.tree.walk_detach short reached (detached_write entry empty) bounded]
  split
  · next here => exact ⟨(by cases ·), fun both => absurd here both.1⟩
  · next here => exact ⟨fun leads => ⟨here, leads⟩, fun both => both.2⟩

theorem Shape.detached : Shape (s.write table index 0).memory root (owned.erase gone) := by
  refine ⟨shape.tree.detach short reached (detached_write entry empty),
    fun other found word bounded leads => ?_, fun other found word bounded leads => ?_⟩
  · have before := ((shape.walk_detached short reached entry empty
      (Nat.le_of_lt bounded)).mp leads).2
    by_cases here : found = table ∧ word = slot index
    · obtain ⟨rfl, rfl⟩ := here
      exact .inl write_here
    · rw [write_elsewhere (not_and_or.mp here)]
      exact shape.inner other found word bounded before
  · have before := ((shape.walk_detached short reached entry empty
      (Nat.le_of_eq bounded)).mp leads).2
    have different : found ≠ table := by
      rintro rfl
      have same := shape.tree.unique path other found (Nat.le_of_lt short)
        (Nat.le_of_eq bounded) reached before
      rw [same, bounded] at short
      exact Nat.lt_irrefl 2 short
    rw [write_elsewhere (.inl different)]
    exact shape.leaf other found word bounded before

theorem Shape.leafWord_detached (va : Nat) :
    leafWord (s.write table index 0).memory root va = leafWord s.memory root va := by
  have walks := shape.tree.walk_detach short reached (detached_write entry empty)
    (kernelPath_short va)
  by_cases here : kernelPath va = path ++ [slot index]
  · rw [if_pos here] at walks
    have before : walk tableOf s.memory root (kernelPath va) = some gone := by
      rw [here, walk_of_concat reached, entry]
    rw [leafWord_of_walk before, empty, leafWord, walks]
  · rw [if_neg here] at walks
    exact leafWord_congr walks fun l2 lowest =>
      write_elsewhere (.inl (shape.lowest_ne short reached lowest))

theorem Shape.used_detached (used : UsedExcept s.memory root exception) :
    UsedExcept (s.write table index 0).memory root fun other =>
      (exception other ∧ other ≠ path ++ [slot index]) ∨ other = path := by
  intro other found nonempty bounded leads
  obtain ⟨elsewhere, before⟩ := (shape.walk_detached short reached entry empty bounded).mp leads
  rcases used other found nonempty bounded before with held | ⟨word, nonzero⟩
  · exact .inl (.inl ⟨held, elsewhere⟩)
  · by_cases here : found = table
    · subst here
      exact .inl (.inr (shape.tree.unique other path found bounded (Nat.le_of_lt short) before
        reached))
    · exact .inr ⟨word, by rwa [write_elsewhere (.inl here)]⟩

end Removal

/-- Empty tables left the tree; the words stay as they are. -/
structure Shrinks (s t : State) (owned gone owned' : List Nat) : Prop where
  shape : Shape t.memory t.ttbr1 owned'
  frames : owned.Perm (gone ++ owned')
  leaf : ∀ va, leafWord t.memory t.ttbr1 va = leafWord s.memory s.ttbr1 va
  walks : ∀ path table, path.length ≤ 2 → walk tableOf t.memory t.ttbr1 path = some table →
    walk tableOf s.memory s.ttbr1 path = some table
  outside : ∀ frame, frame ∉ owned → t.memory frame = s.memory frame
  free : t.free = s.free
  root : t.ttbr1 = s.ttbr1

theorem Shrinks.refl (shape : Shape s.memory s.ttbr1 owned) : Shrinks s s owned [] owned :=
  ⟨shape, .refl _, fun _ => rfl, fun _ _ _ reached => reached, fun _ _ => rfl, rfl, rfl⟩

theorem Shrinks.trans {u : State} {owned' owned'' gone gone' : List Nat}
    (first : Shrinks s t owned gone owned') (second : Shrinks t u owned' gone' owned'') :
    Shrinks s u owned (gone ++ gone') owned'' := by
  refine ⟨second.shape, ?_, fun va => (second.leaf va).trans (first.leaf va),
    fun path table short reached => first.walks path table short
      (second.walks path table short reached), fun frame outside => ?_,
    second.free.trans first.free, second.root.trans first.root⟩
  · rw [List.append_assoc]
    exact first.frames.trans (second.frames.append_left gone)
  · have still : frame ∉ owned' := fun member =>
      outside (first.frames.symm.subset (List.mem_append_right _ member))
    rw [second.outside frame still, first.outside frame outside]

/-- The entry leads to no empty table afterwards; the table that holds it may be empty. -/
theorem shrinks_detachIfEmpty (shape : Shape s.memory s.ttbr1 owned) (short : path.length < 2)
    (reached : walk tableOf s.memory s.ttbr1 path = some table) :
    ∃ owned', Shrinks s (detachIfEmpty s table index).2 owned (detachIfEmpty s table index).1
        owned' ∧ ∀ exception, UsedExcept s.memory s.ttbr1 exception →
        UsedExcept (detachIfEmpty s table index).2.memory
          (detachIfEmpty s table index).2.ttbr1 fun other =>
            (exception other ∧ other ≠ path ++ [slot index]) ∨ other = path := by
  unfold detachIfEmpty
  split
  · next none =>
    refine ⟨owned, .refl shape, fun exception used => ?_⟩
    refine (used.drop (path ++ [slot index]) fun found leads => ?_).mono fun _ _ => .inl
    rw [walk_of_concat reached] at leads
    exact absurd (none.symm.trans leads) (by simp)
  · next gone entry =>
    split
    · next empty =>
      have clear := isEmpty_iff.mp empty
      have mine : gone ∈ owned := shape.tree.mem_of_walk
        ((walk_of_concat reached).trans entry) (by rw [List.length_append]; exact short)
      have parent := shape.tree.mem_of_walk reached (Nat.le_of_lt short)
      refine ⟨owned.erase gone, ⟨shape.detached short reached entry clear,
        List.perm_cons_erase mine, shape.leafWord_detached short reached entry clear,
        fun other found bounded leads => ((shape.walk_detached short reached entry clear
          bounded).mp leads).2, fun frame outside => ?_, rfl, rfl⟩,
        fun exception used => shape.used_detached short reached entry clear used⟩
      funext word
      exact write_elsewhere (.inl fun same => outside (same ▸ parent))
    · next filled =>
      refine ⟨owned, .refl shape, fun exception used => ?_⟩
      refine (used.drop (path ++ [slot index]) fun found leads => ?_).mono fun _ _ => .inl
      rw [walk_of_concat reached] at leads
      cases (show some gone = some found from entry.symm.trans leads)
      by_contra none
      refine filled (isEmpty_iff.mpr fun word => ?_)
      by_contra nonzero
      exact none ⟨word, nonzero⟩

end Genrt.Mmu
