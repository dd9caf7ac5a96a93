import Mathlib

/-!
# Trees of tables in memory

A table is a block of entries, and an entry may name another table. Walking a path of
indices from a root leads from table to table. A tree of a given depth is a root whose
paths, up to that length, all lead to different tables; these are the tables it owns.
Entries of the tables at full depth are not looked at.

A tree does not depend on the entries of tables it does not own. It grows by an entry for
a fresh table without entries, and shrinks by clearing the entry of such a table.
-/

namespace TableTree

variable {ι α ω : Type} (child : ω → Option α)

/-- The table that a path leads to. -/
def walk (memory : α → ι → ω) : α → List ι → Option α
  | table, [] => some table
  | table, index :: path => (child (memory table index)).bind fun next => walk memory next path

/-- Different paths from a table lead to different tables. -/
def Unique (memory : α → ι → ω) (depth : Nat) (root : α) : Prop :=
  ∀ first second table, first.length ≤ depth → second.length ≤ depth →
    walk child memory root first = some table → walk child memory root second = some table →
    first = second

/-- The tables that paths up to the depth lead to, each of them once. -/
structure Tree (memory : α → ι → ω) (depth : Nat) (root : α) (owned : List α) : Prop where
  unique : Unique child memory depth root
  mem : ∀ table, table ∈ owned ↔
    ∃ path, path.length ≤ depth ∧ walk child memory root path = some table
  nodup : owned.Nodup

variable {child} {memory memory' : α → ι → ω} {depth : Nat} {root table next : α}
  {path : List ι} {owned : List α} {index : ι}

theorem walk_append (front back : List ι) : walk child memory root (front ++ back) =
      (walk child memory root front).bind fun table => walk child memory table back := by
  induction front generalizing root with
  | nil => rfl
  | cons index front ih =>
    rw [List.cons_append, walk, walk]
    cases child (memory root index) with
    | none => rfl
    | some next => exact ih

theorem walk_concat (path : List ι) (index : ι) : walk child memory root (path ++ [index]) =
      (walk child memory root path).bind fun table => child (memory table index) := by
  rw [walk_append]
  congr 1
  funext table
  rw [walk]
  cases child (memory table index) <;> rfl

theorem walk_of_concat (reached : walk child memory root path = some table) :
    walk child memory root (path ++ [index]) = child (memory table index) := by
  rw [walk_concat, reached]
  rfl

theorem Tree.root_mem (tree : Tree child memory depth root owned) : root ∈ owned :=
  (tree.mem root).mpr ⟨[], Nat.zero_le _, rfl⟩

theorem Tree.mem_of_walk (tree : Tree child memory depth root owned)
    (reached : walk child memory root path = some table) (short : path.length ≤ depth) :
    table ∈ owned := (tree.mem table).mpr ⟨path, short, reached⟩

/-! ### Changes elsewhere -/

/-- Walks read the entries of tables before the last. -/
theorem walk_congr (same : ∀ front index table, front.length < path.length →
      walk child memory root front = some table →
      child (memory' table index) = child (memory table index)) :
    walk child memory' root path = walk child memory root path := by
  induction path using List.reverseRecOn with
  | nil => rfl
  | append_singleton path index ih =>
    have front := ih fun before index table shorter =>
      same before index table (by rw [List.length_append]; omega)
    rw [walk_concat, walk_concat, front]
    cases reached : walk child memory root path with
    | none => rfl
    | some table =>
      exact same path index table (by rw [List.length_append]; exact Nat.lt_succ_self _) reached

/-- Memory that agrees on the entries that lead to tables has the same walks. -/
def Agrees (child : ω → Option α) (memory memory' : α → ι → ω) (depth : Nat) (root : α) : Prop :=
  ∀ path index table, path.length < depth → walk child memory root path = some table →
    child (memory' table index) = child (memory table index)

theorem Agrees.walk (agrees : Agrees child memory memory' depth root)
    (short : path.length ≤ depth) :
    walk child memory' root path = TableTree.walk child memory root path :=
  walk_congr fun front index table shorter reached =>
    agrees front index table (Nat.lt_of_lt_of_le shorter short) reached

theorem Tree.congr (tree : Tree child memory depth root owned)
    (agrees : Agrees child memory memory' depth root) : Tree child memory' depth root owned := by
  refine ⟨fun first second table one two reached other => ?_, fun table => ?_, tree.nodup⟩
  · rw [agrees.walk one] at reached
    rw [agrees.walk two] at other
    exact tree.unique first second table one two reached other
  · rw [tree.mem table]
    refine exists_congr fun path => and_congr_right fun short => ?_
    rw [agrees.walk short]

/-- Changes of tables that a tree does not own. -/
theorem Tree.agrees (tree : Tree child memory depth root owned)
    (same : ∀ table ∈ owned, ∀ index, memory' table index = memory table index) :
    Agrees child memory memory' depth root := fun _ index table short reached => by
  rw [same table (tree.mem_of_walk reached (Nat.le_of_lt short)) index]

/-! ### Growth -/

/-- A table without entries is a tree. -/
theorem Tree.new (empty : ∀ index, child (memory root index) = none) :
    Tree child memory depth root [root] := by
  have only : ∀ path table, walk child memory root path = some table →
      path = [] ∧ table = root := by
    intro path table reached
    cases path with
    | nil => exact ⟨rfl, (Option.some.inj reached).symm⟩
    | cons index path =>
      rw [walk, empty index] at reached
      cases reached
  refine ⟨fun first second table _ _ one two => ?_, fun table => ?_, List.nodup_singleton root⟩
  · rw [(only first table one).1, (only second table two).1]
  · rw [List.mem_singleton]
    exact ⟨fun same => ⟨[], Nat.zero_le _, congrArg some same.symm⟩,
      fun ⟨path, _, reached⟩ => (only path table reached).2⟩

/-- An entry of a table of the tree is rewritten. Nothing lies below it, before or after. -/
theorem Tree.walk_rewrite [DecidableEq ι] (tree : Tree child memory depth root owned)
    (short : path.length < depth) (reached : walk child memory root path = some table)
    (below : ∀ last, (child (memory' table index)).bind (fun below => child (memory' below last)) =
      (child (memory table index)).bind fun below => child (memory below last))
    (others : ∀ found ∈ owned, ∀ other, (found ≠ table ∨ other ≠ index) →
      child (memory' found other) = child (memory found other)) {other : List ι}
    (bounded : other.length ≤ depth) : walk child memory' root other =
      if other = path ++ [index] then child (memory' table index)
      else walk child memory root other := by
  induction other using List.reverseRecOn with
  | nil => rw [if_neg (by simp)]; rfl
  | append_singleton front last ih =>
    have shorter : front.length < depth := by
      rw [List.length_append] at bounded
      exact Nat.lt_of_succ_le bounded
    rw [walk_concat, ih (Nat.le_of_lt shorter), walk_concat]
    by_cases behind : front = path ++ [index]
    · subst behind
      rw [if_pos rfl, if_neg (by simp), walk_of_concat reached]
      exact below last
    · rw [if_neg behind]
      cases found : walk child memory root front with
      | none =>
        rw [if_neg]
        · rfl
        · intro same
          obtain ⟨rfl, -⟩ := List.append_inj' same rfl
          cases found.symm.trans reached
      | some parent =>
        by_cases here : parent = table ∧ last = index
        · obtain ⟨rfl, rfl⟩ := here
          rw [tree.unique front path parent (Nat.le_of_lt shorter) (Nat.le_of_lt short) found
            reached, if_pos rfl]
          rfl
        · rw [if_neg]
          · exact others parent (tree.mem_of_walk found (Nat.le_of_lt shorter)) last
              (not_and_or.mp here)
          · intro same
            obtain ⟨rfl, rest⟩ := List.append_inj' same rfl
            rw [found] at reached
            exact here ⟨Option.some.inj reached, List.singleton_inj.mp rest⟩

/-- An entry for a fresh table without entries is written to a table of the tree. -/
structure Installed (child : ω → Option α) (memory memory' : α → ι → ω) (table : α) (index : ι)
    (fresh : α) : Prop where
  entry : child (memory' table index) = some fresh
  empty : ∀ other, child (memory' fresh other) = none
  others : ∀ found other, found ≠ fresh → (found ≠ table ∨ other ≠ index) →
    child (memory' found other) = child (memory found other)

section

variable (tree : Tree child memory depth root owned) (short : path.length < depth)
variable (reached : walk child memory root path = some table)
variable (free : child (memory table index) = none)

include tree short reached free

theorem Tree.walk_install [DecidableEq ι] (fresh : next ∉ owned)
    (installed : Installed child memory memory' table index next) {other : List ι}
    (bounded : other.length ≤ depth) :
    walk child memory' root other =
      if other = path ++ [index] then some next else walk child memory root other := by
  rw [← installed.entry]
  refine tree.walk_rewrite short reached (fun last => ?_) (fun found member other => ?_) bounded
  · rw [installed.entry, free]
    exact installed.empty last
  · exact installed.others found other fun same => fresh (same ▸ member)

theorem Tree.install [DecidableEq ι] (fresh : next ∉ owned)
    (installed : Installed child memory memory' table index next) :
    Tree child memory' depth root (next :: owned) := by
  have longer : (path ++ [index]).length ≤ depth := by
    rw [List.length_append]
    exact short
  have walks (other : List ι) (bounded : other.length ≤ depth) :=
    tree.walk_install short reached free fresh installed bounded
  refine ⟨fun first second found one two leads leads' => ?_, fun found => ?_,
    List.nodup_cons.mpr ⟨fresh, tree.nodup⟩⟩
  · rw [walks first one] at leads
    rw [walks second two] at leads'
    split at leads
    · next here =>
      cases leads
      split at leads'
      · next there => rw [here, there]
      · exact (fresh (tree.mem_of_walk leads' two)).elim
    · split at leads'
      · cases leads'
        exact (fresh (tree.mem_of_walk leads one)).elim
      · exact tree.unique first second found one two leads leads'
  · rw [List.mem_cons, tree.mem found]
    constructor
    · rintro (rfl | ⟨other, bounded, leads⟩)
      · exact ⟨path ++ [index], longer, by rw [walks _ longer, if_pos rfl]⟩
      · refine ⟨other, bounded, ?_⟩
        rw [walks other bounded, if_neg]
        · exact leads
        · rintro rfl
          rw [walk_of_concat reached, free] at leads
          cases leads
    · rintro ⟨other, bounded, leads⟩
      rw [walks other bounded] at leads
      split at leads
      · cases leads
        exact .inl rfl
      · exact .inr ⟨other, bounded, leads⟩

end

/-! ### Removal -/

/-- The entry of a table without entries is cleared. -/
structure Detached (child : ω → Option α) (memory memory' : α → ι → ω) (table : α) (index : ι)
    (gone : α) : Prop where
  entry : child (memory table index) = some gone
  empty : ∀ other, child (memory gone other) = none
  cleared : child (memory' table index) = none
  others : ∀ found other, (found ≠ table ∨ other ≠ index) →
    child (memory' found other) = child (memory found other)

section

variable (tree : Tree child memory depth root owned) (short : path.length < depth)
variable (reached : walk child memory root path = some table)
variable (detached : Detached child memory memory' table index next)

include tree short reached detached

theorem Tree.walk_detach [DecidableEq ι] {other : List ι} (bounded : other.length ≤ depth) :
    walk child memory' root other =
      if other = path ++ [index] then none else walk child memory root other := by
  rw [← detached.cleared]
  refine tree.walk_rewrite short reached (fun last => ?_) (fun found _ => detached.others found)
    bounded
  rw [detached.cleared, detached.entry]
  exact (detached.empty last).symm

theorem Tree.detach [DecidableEq ι] [DecidableEq α] :
    Tree child memory' depth root (owned.erase next) := by
  have longer : (path ++ [index]).length ≤ depth := by
    rw [List.length_append]
    exact short
  have led : walk child memory root (path ++ [index]) = some next :=
    (walk_of_concat reached).trans detached.entry
  have walks : ∀ other found, other.length ≤ depth →
      (walk child memory' root other = some found ↔
        other ≠ path ++ [index] ∧ walk child memory root other = some found) := by
    intro other found bounded
    rw [tree.walk_detach short reached detached bounded]
    split
    · next here => exact ⟨(by cases ·), fun both => absurd here both.1⟩
    · next here => exact ⟨fun leads => ⟨here, leads⟩, fun both => both.2⟩
  refine ⟨fun first second found one two leads leads' => ?_, fun found => ?_,
    tree.nodup.erase next⟩
  · exact tree.unique first second found one two ((walks first found one).mp leads).2
      ((walks second found two).mp leads').2
  · rw [tree.nodup.mem_erase_iff, tree.mem found]
    constructor
    · rintro ⟨different, other, bounded, leads⟩
      refine ⟨other, bounded, (walks other found bounded).mpr ⟨?_, leads⟩⟩
      rintro rfl
      rw [led] at leads
      exact different (Option.some.inj leads).symm
    · rintro ⟨other, bounded, leads⟩
      obtain ⟨here, leads⟩ := (walks other found bounded).mp leads
      refine ⟨?_, other, bounded, leads⟩
      rintro rfl
      exact here (tree.unique other _ found bounded longer leads led)

end

/-! ### All tables -/

section Below

variable (child) (indices : List ι)

/-- The tables below a table, each after the ones below it. -/
def below (memory : α → ι → ω) : Nat → α → List α
  | 0, _ => []
  | depth + 1, table => indices.flatMap fun index =>
    match child (memory table index) with
    | none => []
    | some next => below memory depth next ++ [next]

/-- The tables that an entry leads to. -/
def behind (memory : α → ι → ω) (depth : Nat) (table : α) (index : ι) : List α :=
  match child (memory table index) with
  | none => []
  | some next => below child indices memory depth next ++ [next]

theorem below_succ (memory : α → ι → ω) (depth : Nat) (table : α) :
    below child indices memory (depth + 1) table =
      indices.flatMap (behind child indices memory depth table) := rfl

end Below

section Enumeration

variable {indices : List ι}

theorem mem_below (all : ∀ index, index ∈ indices) : table ∈ below child indices memory depth root ↔
      ∃ path, path ≠ [] ∧ path.length ≤ depth ∧ walk child memory root path = some table := by
  induction depth generalizing root with
  | zero =>
    refine ⟨fun found => absurd found List.not_mem_nil, ?_⟩
    rintro ⟨path, nonempty, short, -⟩
    exact absurd (List.length_eq_zero_iff.mp (Nat.le_zero.mp short)) nonempty
  | succ depth ih =>
    rw [below, List.mem_flatMap]
    constructor
    · rintro ⟨index, -, found⟩
      split at found
      · cases found
      · next next entry =>
        rcases List.mem_append.mp found with under | here
        · obtain ⟨path, -, short, reached⟩ := ih.mp under
          refine ⟨index :: path, List.cons_ne_nil _ _, Nat.succ_le_succ short, ?_⟩
          rw [walk, entry]
          exact reached
        · refine ⟨[index], List.cons_ne_nil _ _, Nat.succ_le_succ (Nat.zero_le _), ?_⟩
          rw [walk, entry, List.mem_singleton.mp here]
          rfl
    · rintro ⟨path, nonempty, short, reached⟩
      cases path with
      | nil => exact absurd rfl nonempty
      | cons index path =>
        obtain ⟨next, entry, rest⟩ := Option.bind_eq_some_iff.mp reached
        refine ⟨index, all index, ?_⟩
        rw [entry]
        refine List.mem_append.mpr ?_
        cases path with
        | nil => exact .inr (List.mem_singleton.mpr (Option.some.inj rest).symm)
        | cons other path =>
          exact .inl (ih.mpr ⟨other :: path, List.cons_ne_nil _ _,
            Nat.le_of_succ_le_succ short, rest⟩)

/-- Only the entries of the table and of the tables below it matter. -/
theorem below_congr
    (same : ∀ found ∈ root :: below child indices memory depth root, memory' found = memory found) :
    below child indices memory' depth root = below child indices memory depth root := by
  induction depth generalizing root with
  | zero => rfl
  | succ depth ih =>
    rw [below, below, same root List.mem_cons_self]
    refine List.flatMap_congr fun index member => ?_
    cases entry : child (memory root index) with
    | none => rfl
    | some next =>
      have under : ∀ found ∈ next :: below child indices memory depth next,
          memory' found = memory found := by
        intro found member'
        refine same found (List.mem_cons_of_mem _ ?_)
        rw [below, List.mem_flatMap]
        refine ⟨index, member, ?_⟩
        rw [entry]
        exact List.mem_append.mpr ((List.mem_cons.mp member').symm.imp_right
          List.mem_singleton.mpr)
      exact congrArg (· ++ [next]) (ih under)

theorem Unique.under (unique : Unique child memory (depth + 1) root)
    (entry : child (memory root index) = some next) : Unique child memory depth next := by
  have longer : ∀ path table, walk child memory next path = some table →
      walk child memory root (index :: path) = some table := fun path table reached => by
    rw [walk, entry]
    exact reached
  intro first second table one two leads leads'
  exact (List.cons.inj (unique _ _ table (Nat.succ_le_succ one) (Nat.succ_le_succ two)
    (longer first table leads) (longer second table leads'))).2

theorem Unique.root_notMem (unique : Unique child memory depth root)
    (all : ∀ index, index ∈ indices) : root ∉ below child indices memory depth root := by
  rw [mem_below all]
  rintro ⟨path, nonempty, short, reached⟩
  exact nonempty (unique path [] root short (Nat.zero_le _) reached rfl)

theorem Unique.nodup_below (unique : Unique child memory depth root)
    (all : ∀ index, index ∈ indices) (once : indices.Nodup) :
    (below child indices memory depth root).Nodup := by
  induction depth generalizing root with
  | zero => exact List.nodup_nil
  | succ depth ih =>
    rw [below, List.nodup_flatMap]
    refine ⟨fun index _ => ?_, once.pairwise_of_forall_ne fun first _ second _ different => ?_⟩
    · split
      · exact List.nodup_nil
      · next next entry =>
        have sub := unique.under entry
        exact List.nodup_append'.mpr ⟨ih sub, List.nodup_singleton _,
          fun _ found here => sub.root_notMem all (List.mem_singleton.mp here ▸ found)⟩
    · -- a table found under both indices would have two paths
      have path : ∀ index table, table ∈ behind child indices memory depth root index →
          ∃ rest, rest.length ≤ depth ∧ walk child memory root (index :: rest) = some table := by
        intro index table found
        unfold behind at found
        split at found
        · cases found
        · next next entry =>
          rcases List.mem_append.mp found with under | here
          · obtain ⟨rest, -, short, reached⟩ := (mem_below all).mp under
            exact ⟨rest, short, by rw [walk, entry]; exact reached⟩
          · refine ⟨[], Nat.zero_le _, ?_⟩
            rw [walk, entry, List.mem_singleton.mp here]
            rfl
      intro table one two
      obtain ⟨rest, short, leads⟩ := path first table one
      obtain ⟨rest', short', leads'⟩ := path second table two
      exact different (List.cons.inj (unique _ _ table (Nat.succ_le_succ short)
        (Nat.succ_le_succ short') leads leads')).1

/-- The tables below the root and the root are the tables of the tree, each once. -/
theorem Tree.perm_below (tree : Tree child memory depth root owned)
    (all : ∀ index, index ∈ indices) (once : indices.Nodup) :
    (root :: below child indices memory depth root).Nodup ∧
      (root :: below child indices memory depth root).Perm owned := by
  have distinct := List.nodup_cons.mpr
    ⟨tree.unique.root_notMem all, tree.unique.nodup_below all once⟩
  refine ⟨distinct, (List.perm_ext_iff_of_nodup distinct tree.nodup).mpr fun table => ?_⟩
  rw [List.mem_cons, mem_below all, tree.mem table]
  constructor
  · rintro (rfl | ⟨path, -, short, reached⟩)
    · exact ⟨[], Nat.zero_le _, rfl⟩
    · exact ⟨path, short, reached⟩
  · rintro ⟨path, short, reached⟩
    by_cases start : path = []
    · subst start
      exact .inl (Option.some.inj reached).symm
    · exact .inr ⟨path, start, short, reached⟩

end Enumeration

end TableTree
