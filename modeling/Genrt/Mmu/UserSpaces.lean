import Genrt.Mmu.Tables

/-!
# User address spaces as partial maps

A user address space is for its callers a partial map from page numbers to pages. The
tables realise it: they form a tree of depth three whose frames nobody else holds, and the
walk for an address ends at the descriptor of its page.

Mapping a page first makes the missing tables, one at a time, and then writes one entry.
Making a table changes no translation, so a call that runs out of frames half way leaves
tables behind and nothing else.
-/

namespace Genrt.Mmu

open Fallible TableTree Function

/-- An address space: the frames of its tables and the pages it maps. -/
structure Space where
  owned : List Nat
  pages : Nat → Option UserPage

/-- The indices that lead to the lowest table for an address. -/
def pathOf (va : Nat) : List Index := [slot (l0Index va), slot (l1Index va), slot (l2Index va)]

def leafDesc (memory : Nat → Index → Nat) (table : Nat) (entry : Index) : Option Nat :=
  if isPageDesc (memory table entry) then some (memory table entry) else none

/-- The tables below a root realise an address space. -/
structure Backed (s : State) (root : Nat) (space : Space) : Prop where
  tree : Tree tableOf s.memory 3 root space.owned
  frames : ∀ frame ∈ space.owned, TableFrame frame ∧ frame ∉ s.free
  pages : ∀ va, lookupUserPageDesc s root va =
    (space.pages (va / pageSize)).map fun page => userPageDesc page.frame page.flags
  addressable : ∀ number page, space.pages number = some page → Addressable page.frame

/-- The tables of all address spaces and the free frames are apart from each other. -/
structure Separated (s : State) (spaces : Nat → Option Space) : Prop where
  nodup : s.free.Nodup
  frames : ∀ frame ∈ s.free, TableFrame frame
  backed : ∀ root space, spaces root = some space → Backed s root space
  apart : ∀ root root' space space', root ≠ root' → spaces root = some space →
    spaces root' = some space' → space.owned.Disjoint space'.owned

variable {s t : State} {root table index va va' : Nat} {space : Space}
  {spaces : Nat → Option Space}

/-! ### Walks of the lookup -/

theorem pathOf_short (va : Nat) : (pathOf va).length ≤ 3 := Nat.le_refl 3

theorem lookup_eq (nonzero : root ≠ 0) (user : isUserVa va = true) : lookupUserPageDesc s root va =
      (walk tableOf s.memory root (pathOf va)).bind fun l3 =>
        leafDesc s.memory l3 (slot (l3Index va)) := by
  rw [lookupUserPageDesc, if_neg (by simp [nonzero, user])]
  simp only [pathOf, walk, State.read, leafDesc, bind, Option.bind_assoc, Option.bind_some]
  rfl

theorem lookup_of_kernel (kernel : ¬ isUserVa va = true) : lookupUserPageDesc s root va = none :=
  if_pos (.inr (Bool.eq_false_of_not_eq_true kernel))

theorem Backed.root_ne (backed : Backed s root space) : root ≠ 0 :=
  (backed.frames root backed.tree.root_mem).1.1

/-- Lookups that find the same lowest entry have the same result. -/
theorem lookup_congr (nonzero : root ≠ 0) (same : isUserVa va = true →
      ((walk tableOf t.memory root (pathOf va)).bind fun l3 =>
          leafDesc t.memory l3 (slot (l3Index va))) =
        (walk tableOf s.memory root (pathOf va)).bind fun l3 =>
          leafDesc s.memory l3 (slot (l3Index va))) :
    lookupUserPageDesc t root va = lookupUserPageDesc s root va := by
  by_cases user : isUserVa va = true
  · rw [lookup_eq nonzero user, lookup_eq nonzero user, same user]
  · rw [lookup_of_kernel user, lookup_of_kernel user]

/-- An address space does not depend on frames that it does not own. -/
theorem Backed.keep (backed : Backed s root space)
    (memory : ∀ frame ∈ space.owned, t.memory frame = s.memory frame)
    (free : ∀ frame ∈ space.owned, frame ∉ t.free) : Backed t root space := by
  have agrees := backed.tree.agrees fun table owned index =>
    congrFun (memory table owned) index
  refine ⟨backed.tree.congr agrees,
    fun frame owned => ⟨(backed.frames frame owned).1, free frame owned⟩, fun va => ?_,
    backed.addressable⟩
  rw [← backed.pages va]
  refine lookup_congr backed.root_ne fun _ => ?_
  have short := pathOf_short va
  rw [agrees.walk short]
  cases reached : walk tableOf s.memory root (pathOf va) with
  | none => rfl
  | some l3 =>
    rw [Option.bind_some, Option.bind_some, leafDesc, leafDesc,
      memory l3 (backed.tree.mem_of_walk reached short)]

theorem Separated.root_ne (held : Separated s spaces) (live : spaces root = some space) :
    root ≠ 0 := (held.backed root space live).root_ne

/-- A change of one address space that takes frames from the free list only. -/
theorem Separated.change (held : Separated s spaces) {space' : Space}
    (backed : Backed t root space') (owned : ∀ frame ∈ space'.owned,
      (∃ space, spaces root = some space ∧ frame ∈ space.owned) ∨ frame ∈ s.free)
    (free : t.free.Sublist s.free)
    (memory : ∀ frame, frame ∉ space'.owned → t.memory frame = s.memory frame) :
    Separated t (update spaces root (some space')) := by
  have distinct : ∀ other space'', other ≠ root → spaces other = some space'' →
      space'.owned.Disjoint space''.owned := by
    intro other space'' different found frame mine theirs
    rcases owned frame mine with ⟨space, live, before⟩ | before
    · exact held.apart root other space space'' different.symm live found before theirs
    · exact ((held.backed other space'' found).frames frame theirs).2 before
  refine ⟨held.nodup.sublist free, fun frame member => held.frames frame (free.subset member),
    fun other space'' found => ?_, fun one two space₁ space₂ different first second => ?_⟩
  · by_cases here : other = root
    · subst here
      rw [update_self] at found
      cases found
      exact backed
    · rw [update_of_ne here] at found
      have kept := held.backed other space'' found
      refine kept.keep (fun frame theirs => memory frame fun mine =>
        distinct other space'' here found mine theirs) fun frame theirs member => ?_
      exact (kept.frames frame theirs).2 (free.subset member)
  · by_cases here : one = root
    · subst here
      rw [update_self] at first
      rw [update_of_ne different.symm] at second
      cases first
      exact distinct two space₂ different.symm second
    · rw [update_of_ne here] at first
      by_cases there : two = root
      · subst there
        rw [update_self] at second
        cases second
        exact (distinct one space₁ here first).symm
      · rw [update_of_ne there] at second
        exact held.apart one two space₁ space₂ different first second

/-! ### New tables -/

section Growth

variable {pa : Nat} {rest : List Nat} {path : List Index}

/-- The fresh table has no pages, and the entry that leads to it led to none. -/
theorem Backed.grow (backed : Backed s root space) (short : path.length < 3)
    (reached : walk tableOf s.memory root path = some table)
    (vacant : tableOf (s.memory table (slot index)) = none) (free : s.free = pa :: rest)
    (fresh : pa ∉ rest) (frame : TableFrame pa) :
    Backed (s.grown rest table index pa) root { space with owned := pa :: space.owned } := by
  have foreign : pa ∉ space.owned := fun owned =>
    (backed.frames pa owned).2 (free ▸ .head _)
  have parent := backed.tree.mem_of_walk reached (Nat.le_of_lt short)
  have different : table ≠ pa := fun same => foreign (same ▸ parent)
  have installed := @installed_grown s table index pa rest frame.2 different
  refine ⟨backed.tree.install short reached vacant foreign installed, ?_, fun va => ?_,
    backed.addressable⟩
  · intro found owned
    rcases List.mem_cons.mp owned with rfl | before
    · exact ⟨frame, fresh⟩
    · have held := backed.frames found before
      exact ⟨held.1, fun member => held.2 (free ▸ .tail _ member)⟩
  · rw [← backed.pages va]
    refine lookup_congr backed.root_ne fun _ => ?_
    have full := pathOf_short va
    rw [backed.tree.walk_install short reached vacant foreign installed full]
    split
    · next here =>
      rw [here, walk_of_concat reached, vacant, Option.bind_some, leafDesc, State.grown,
        State.installTable, write_elsewhere (.inl different.symm), clear_here]
      rfl
    · cases leads : walk tableOf s.memory root (pathOf va) with
      | none => rfl
      | some l3 =>
        have first : l3 ≠ pa := fun same =>
          foreign (same ▸ backed.tree.mem_of_walk leads full)
        have second : l3 ≠ table := by
          rintro rfl
          have same := backed.tree.unique path (pathOf va) l3 (Nat.le_of_lt short) full
            reached leads
          rw [same] at short
          exact Nat.lt_irrefl 3 short
        rw [Option.bind_some, Option.bind_some, leafDesc, leafDesc,
          grown_elsewhere first second]

end Growth

/-- What a call that makes tables has done: it took frames from the free list for them. -/
structure Grown (s t : State) (spaces : Nat → Option Space) (root : Nat) (space : Space)
    (taken : List Nat) : Prop where
  free : s.free = taken.reverse ++ t.free
  held : Separated t
    (update spaces root (some { space with owned := taken ++ space.owned }))

theorem Grown.refl (held : Separated s spaces) (live : spaces root = some space) :
    Grown s s spaces root space [] := by
  refine ⟨rfl, ?_⟩
  rw [List.nil_append, ← live, update_eq_self]
  exact held

theorem Grown.trans {u : State} {first second : List Nat}
    (before : Grown s t spaces root space first) (after : Grown t u
      (update spaces root (some { space with owned := first ++ space.owned })) root
      { space with owned := first ++ space.owned } second) :
    Grown s u spaces root space (second ++ first) := by
  refine ⟨?_, ?_⟩
  · rw [before.free, after.free, List.reverse_append, List.append_assoc]
  · have held := after.held
    rw [update_idem, ← List.append_assoc] at held
    exact held

theorem wp_ensureTable {path : List Index} (held : Separated s spaces)
    (live : spaces root = some space) (short : path.length < 3)
    (reached : walk tableOf s.memory root path = some table) : WP (ensureTable table index)
      (fun next t => ∃ taken, Grown s t spaces root space taken ∧
        walk tableOf t.memory root (path ++ [slot index]) = some next) (fun _ t => t = s) s := by
  have backed := held.backed root space live
  rw [ensureTable, wp_bind, wp_get]
  refine wp_ite.mpr ⟨fun present => ?_, fun absent => wp_ite.mpr ⟨fun invalid => ?_, fun _ => rfl⟩⟩
  · refine ⟨[], .refl held live, ?_⟩
    rw [walk_of_concat reached]
    exact if_pos present
  · rw [wp_bind, wp_allocTableFrame]
    refine ⟨fun _ => rfl, fun pa rest free => ?_⟩
    have once : pa ∉ rest ∧ rest.Nodup := List.nodup_cons.mp (free ▸ held.nodup)
    have frame := held.frames pa (free ▸ .head _)
    have vacant : tableOf (s.memory table (slot index)) = none := if_neg absent
    have grown := backed.grow short reached vacant free once.1 frame
    have parent := backed.tree.mem_of_walk reached (Nat.le_of_lt short)
    have foreign : pa ∉ space.owned := fun owned =>
      (backed.frames pa owned).2 (free ▸ .head _)
    change ∃ taken, Grown s (s.grown rest table index pa) spaces root space taken ∧
      walk tableOf (s.grown rest table index pa).memory root (path ++ [slot index]) = some pa
    refine ⟨[pa], ⟨free, held.change grown ?_ ?_ ?_⟩, ?_⟩
    · intro found owned
      rcases List.mem_cons.mp owned with rfl | before
      · exact .inr (free ▸ .head _)
      · exact .inl ⟨space, live, before⟩
    · rw [free]
      exact List.sublist_cons_self pa rest
    · intro found outside
      exact grown_elsewhere (fun same => outside (same ▸ .head _))
        fun same => outside (same ▸ .tail _ parent)
    · have installed := @installed_grown s table index pa rest frame.2
        fun same => foreign (same ▸ parent)
      rw [backed.tree.walk_install short reached vacant foreign installed, if_pos rfl]
      rw [List.length_append]
      exact short

theorem wp_ensureUserL3Table (held : Separated s spaces) (live : spaces root = some space) :
    WP (ensureUserL3Table root va) (fun l3 t => ∃ taken, Grown s t spaces root space taken ∧
        walk tableOf t.memory root (pathOf va) = some l3)
      (fun _ t => ∃ taken, Grown s t spaces root space taken) s := by
  rw [ensureUserL3Table, wp_bind, wp_failIf]
  refine ⟨fun zero => absurd zero (held.root_ne live), fun _ => ?_⟩
  have start : walk tableOf s.memory root [] = some root := rfl
  rw [wp_bind]
  refine (wp_ensureTable held live (by decide) start).mono ?_ fun _ t same =>
    ⟨[], by rw [same]; exact .refl held live⟩
  rintro l1 t ⟨first, grown, l1Reached⟩
  rw [wp_bind]
  have live' := update_self root
    (some { space with owned := first ++ space.owned }) spaces
  refine (wp_ensureTable grown.held live' (by simp) l1Reached).mono ?_ fun _ u same =>
    ⟨first, same ▸ grown⟩
  rintro l2 u ⟨second, grown', l2Reached⟩
  have both := grown.trans grown'
  have live'' := update_self root
    (some { space with owned := (second ++ first) ++ space.owned }) spaces
  refine (wp_ensureTable both.held live'' (by simp) l2Reached).mono ?_ fun _ v same =>
    ⟨second ++ first, same ▸ both⟩
  rintro l3 v ⟨third, grown'', l3Reached⟩
  exact ⟨third ++ (second ++ first), both.trans grown'', l3Reached⟩

/-! ### Mapping a page -/

/-- The indices of an address are those of its page. -/
theorem samePage_iff (user : isUserVa va = true) (user' : isUserVa va' = true) :
    va' / pageSize = va / pageSize ↔
      pathOf va' = pathOf va ∧ slot (l3Index va') = slot (l3Index va) := by
  have low : va < 2 ^ 48 := of_decide_eq_true user
  have low' : va' < 2 ^ 48 := of_decide_eq_true user'
  simp only [pathOf, l0Index, l1Index, l2Index, l3Index, pageSize, List.cons.injEq, slot_eq_iff,
    and_true]
  omega

theorem user_of_samePage (user : isUserVa va = true) (same : va' / pageSize = va / pageSize) :
    isUserVa va' = true := by
  have low : va < 2 ^ 48 := of_decide_eq_true user
  refine decide_eq_true (show va' < 2 ^ 48 from ?_)
  simp only [pageSize] at same
  omega

/-- Writing an entry of a lowest table leads to no other tables. -/
theorem Backed.agrees_leaf (backed : Backed s root space) {l3 value : Nat}
    (reached : walk tableOf s.memory root (pathOf va) = some l3) :
    Agrees tableOf s.memory (s.write l3 index value).memory 3 root := by
  intro path entry found short leads
  have different : found ≠ l3 := by
    rintro rfl
    have same := backed.tree.unique path (pathOf va) found (Nat.le_of_lt short)
      (Nat.le_refl 3) leads reached
    rw [same] at short
    exact Nat.lt_irrefl 3 short
  rw [write_elsewhere (.inl different)]

variable {l3 pa : Nat} {flags : UserMapFlags}

theorem Backed.map (backed : Backed s root space) (user : isUserVa va = true)
    (physical : Addressable pa) (reached : walk tableOf s.memory root (pathOf va) = some l3) :
    Backed (s.write l3 (l3Index va) (userPageDesc pa flags)) root
      { space with pages := update space.pages (va / pageSize) (some ⟨pa, flags⟩) } := by
  have agrees := @Backed.agrees_leaf s root (l3Index va) va space backed l3
    (userPageDesc pa flags) reached
  refine ⟨backed.tree.congr agrees, backed.frames, fun va' => ?_, fun number page found => ?_⟩
  · dsimp only
    by_cases same : va' / pageSize = va / pageSize
    · have user' := user_of_samePage user same
      obtain ⟨path, entry⟩ := (samePage_iff user user').mp same
      rw [same, update_self, lookup_eq backed.root_ne user', path, entry,
        agrees.walk (pathOf_short va), reached, Option.bind_some, leafDesc, write_here,
        if_pos (isPageDesc_userPageDesc pa flags)]
      rfl
    · rw [update_of_ne same, ← backed.pages va']
      refine lookup_congr backed.root_ne fun user' => ?_
      rw [agrees.walk (pathOf_short va')]
      cases leads : walk tableOf s.memory root (pathOf va') with
      | none => rfl
      | some found =>
        have apart : found ≠ l3 ∨ slot (l3Index va') ≠ slot (l3Index va) := by
          by_contra both
          rw [not_or, not_not, not_not] at both
          obtain ⟨rfl, entry⟩ := both
          have path := backed.tree.unique (pathOf va') (pathOf va) found (Nat.le_refl 3)
            (Nat.le_refl 3) leads reached
          exact same ((samePage_iff user user').mpr ⟨path, entry⟩)
        rw [Option.bind_some, Option.bind_some, leafDesc, leafDesc, write_elsewhere apart]
  · dsimp only at found
    by_cases same : number = va / pageSize
    · subst same
      rw [update_self] at found
      cases found
      exact physical
    · rw [update_of_ne same] at found
      exact backed.addressable number page found

/-- A page whose entry is not valid is not mapped. -/
theorem Backed.unmapped (backed : Backed s root space) (user : isUserVa va = true)
    (reached : walk tableOf s.memory root (pathOf va) = some l3)
    (invalid : ¬ isValid (s.read l3 (l3Index va)) = true) : space.pages (va / pageSize) = none := by
  have none := backed.pages va
  have noPage : ¬ isPageDesc (s.memory l3 (slot (l3Index va))) = true :=
    fun page => invalid (isTableDesc_valid page)
  rw [lookup_eq backed.root_ne user, reached, Option.bind_some, leafDesc, if_neg noPage] at none
  exact Option.map_eq_none_iff.mp none.symm

/-- A call either maps one page that was not mapped, or maps none; the tables that it made
stay with the address space. -/
theorem wp_mapUserPage (held : Separated s spaces) (live : spaces root = some space)
    (bound : pa < 2 ^ 48) :
    WP (mapUserPage root va pa flags)
      (fun _ t => ∃ taken, s.free = taken.reverse ++ t.free ∧ space.pages (va / pageSize) = none ∧
        Separated t (update spaces root (some
          { owned := taken ++ space.owned
            pages := update space.pages (va / pageSize) (some ⟨pa, flags⟩) })))
      (fun _ t => ∃ taken, Grown s t spaces root space taken) s := by
  have unchanged : ∃ taken, Grown s s spaces root space taken := ⟨[], .refl held live⟩
  rw [mapUserPage, wp_bind, wp_requireRuntimeTables]
  refine ⟨fun _ => unchanged, fun _ => ?_⟩
  rw [wp_bind, validateUserPage, wp_bind, wp_failIf]
  refine ⟨fun _ => unchanged, fun user => wp_failIf.mpr ⟨fun _ => unchanged, fun aligned => ?_⟩⟩
  rw [Bool.not_eq_false] at user
  rw [not_or, not_not, not_not] at aligned
  rw [wp_bind]
  refine (wp_ensureUserL3Table held live).mono ?_ fun _ _ grown => grown
  rintro l3 t ⟨taken, grown, reached⟩
  rw [wp_bind, wp_get, wp_bind, wp_failIf]
  refine ⟨fun _ => ⟨taken, grown⟩, fun invalid => ?_⟩
  rw [wp_modify]
  have live' := update_self root
    (some { space with owned := taken ++ space.owned }) spaces
  have backed := grown.held.backed root _ live'
  refine ⟨taken, grown.free, backed.unmapped user reached invalid, ?_⟩
  have mapped := @Backed.map _ _ _ _ _ _ flags backed user ⟨aligned.2, bound⟩ reached
  have changed := grown.held.change mapped (fun _ owned => .inl ⟨_, live', owned⟩)
    (List.Sublist.refl t.free) fun frame outside => by
      funext entry
      exact write_elsewhere (.inl fun same => outside
        (same ▸ backed.tree.mem_of_walk reached (Nat.le_refl 3)))
  rw [update_idem] at changed
  exact changed

end Genrt.Mmu
