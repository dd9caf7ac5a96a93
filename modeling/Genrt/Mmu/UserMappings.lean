import Genrt.Foundation.Machine
import Genrt.Mmu.UserSpaces

/-!
# Runs of the user address space calls

Address spaces are created, extended page by page and destroyed in any order, while the
rest of the kernel takes and returns frames of its own. Beside the tables a run keeps for
every live root what the calls on it have come to: the frames that left the free list in
these calls, and the pages of the calls that succeeded.
-/

namespace Genrt.Mmu

open Fallible TableTree Function

/-! ### Destroying an address space -/

variable {s t u : State} {root va : Nat} {space : Space} {spaces : Nat → Option Space}

/-- The tables below a table of a state. -/
def tablesBelow (s : State) (depth table : Nat) : List Nat :=
  below tableOf (List.finRange tableEntries) s.memory depth table

/-- Freeing the tables below a table frees exactly these. -/
def FreesBelow (depth : Nat) : Prop :=
  ∀ table s, (table :: tablesBelow s depth table).Nodup →
    (∀ frame ∈ table :: tablesBelow s depth table, frame ∉ s.free) →
    Freed s (freeTables depth table s) (tablesBelow s depth table)

/-- Tables that are not free yet have the tables below them that they started with. -/
theorem freed_table {depth next : Nat} {gone : List Nat} (frees : FreesBelow depth)
    (freed : Freed s u gone) (once : (gone ++ (tablesBelow s depth next ++ [next])).Nodup)
    (kept : ∀ frame ∈ tablesBelow s depth next ++ [next], frame ∉ s.free) :
    Freed s ((freeTables depth next u).freeFrame next)
      (gone ++ (tablesBelow s depth next ++ [next])) := by
  obtain ⟨-, distinct, apart⟩ := List.nodup_append'.mp once
  have order := List.perm_append_singleton next (tablesBelow s depth next)
  have inside : ∀ frame ∈ next :: tablesBelow s depth next, frame ∉ u.free := by
    intro frame member
    have listed := order.symm.subset member
    exact freed.notMem (fun before => apart before listed) (kept frame listed)
  have same : tablesBelow u depth next = tablesBelow s depth next :=
    below_congr fun frame member => freed.memory frame (inside frame member)
  have under := frees next u (by rw [same]; exact order.nodup_iff.mp distinct)
    (by rw [same]; exact inside)
  rw [same] at under
  exact freed.trans (under.trans (freed_freeFrame _ next))

/-- The loop over the entries reads a table that it does not free. -/
theorem freed_entries {depth table : Nat} (frees : FreesBelow depth) (indices : List Index) :
    ∀ (gone : List Nat) (u : State), Freed s u gone →
      (table :: (gone ++ indices.flatMap
        (behind tableOf (List.finRange tableEntries) s.memory depth table))).Nodup →
      (∀ frame ∈ table :: (gone ++ indices.flatMap
        (behind tableOf (List.finRange tableEntries) s.memory depth table)), frame ∉ s.free) →
      Freed s
        (indices.foldl
          (fun s index =>
            match tableOf (s.memory table index) with
            | none => s
            | some next => (freeTables depth next s).freeFrame next) u)
        (gone ++ indices.flatMap
          (behind tableOf (List.finRange tableEntries) s.memory depth table)) := by
  induction indices with
  | nil =>
    intro gone u freed _ _
    rw [List.flatMap_nil, List.append_nil]
    exact freed
  | cons index rest ih =>
    intro gone u freed once kept
    rw [List.flatMap_cons, ← List.append_assoc] at once kept ⊢
    obtain ⟨outside, distinct⟩ := List.nodup_cons.mp once
    have here : u.memory table = s.memory table :=
      freed.memory table (freed.notMem
        (fun member => outside (List.mem_append_left _ (List.mem_append_left _ member)))
        (kept table (.head _)))
    rw [List.foldl_cons, here]
    refine ih _ _ ?_ once kept
    cases entry : tableOf (s.memory table index) with
    | none =>
      rw [behind, entry, List.append_nil]
      exact freed
    | some next =>
      rw [behind, entry] at distinct kept ⊢
      refine freed_table frees freed (List.nodup_append'.mp distinct).1 fun frame member => ?_
      exact kept frame (List.mem_cons_of_mem _
        (List.mem_append_left _ (List.mem_append_right _ member)))

theorem freesBelow (depth : Nat) : FreesBelow depth := by
  induction depth with
  | zero => exact fun _ s _ _ => .refl s
  | succ depth ih =>
    intro table s once kept
    rw [tablesBelow, below_succ] at once kept ⊢
    have loop := @freed_entries s depth table ih (List.finRange tableEntries) [] s (.refl s)
    rw [List.nil_append] at loop
    rw [freeTables]
    exact loop once kept

theorem Separated.destroyed (held : Separated s spaces) (live : spaces root = some space)
    {frames : List Nat} (freed : Freed s t frames) (all : frames.Perm space.owned) :
    Separated t (update spaces root none) := by
  have backed := held.backed root space live
  have free : t.free.Perm (space.owned ++ s.free) := freed.free.trans (all.append_right s.free)
  have others : ∀ other space', update spaces root none other = some space' →
      other ≠ root ∧ spaces other = some space' := by
    intro other space' found
    by_cases here : other = root
    · subst here
      rw [update_self] at found
      cases found
    · rw [update_of_ne here] at found
      exact ⟨here, found⟩
  refine ⟨free.nodup_iff.mpr (List.nodup_append'.mpr ⟨backed.tree.nodup, held.nodup,
      fun frame owned => (backed.frames frame owned).2⟩), fun frame member => ?_,
    fun other space' found => ?_, fun one two space₁ space₂ different first second => ?_⟩
  · rcases List.mem_append.mp (free.subset member) with owned | before
    · exact (backed.frames frame owned).1
    · exact held.frames frame before
  · obtain ⟨here, found⟩ := others other space' found
    have theirs := held.backed other space' found
    have kept : ∀ frame ∈ space'.owned, frame ∉ t.free := fun frame owned member =>
      (List.mem_append.mp (free.subset member)).elim
        (fun mine => held.apart other root space' space here found live owned mine)
        (theirs.frames frame owned).2
    exact theirs.keep (fun frame owned => freed.memory frame (kept frame owned)) kept
  · exact held.apart one two space₁ space₂ different (others one space₁ first).2
      (others two space₂ second).2

theorem wp_destroyUserAddressSpace (held : Separated s spaces) (live : spaces root = some space) :
    WP (destroyUserAddressSpace root) (fun _ t => t.free.Perm (space.owned ++ s.free) ∧
        Separated t (update spaces root none))
      (fun _ t => t = s ∧ (s.runtimeTablesActive = false ∨ s.ttbr0 = root)) s := by
  rw [destroyUserAddressSpace, wp_bind, wp_requireRuntimeTables]
  refine ⟨fun early => ⟨rfl, .inl early⟩, fun _ => ?_⟩
  rw [wp_bind, wp_failIf]
  refine ⟨fun zero => absurd zero (held.root_ne live), fun _ => ?_⟩
  rw [wp_bind, wp_get, wp_bind, wp_failIf]
  refine ⟨fun current => ⟨rfl, .inr current⟩, fun _ => ?_⟩
  rw [wp_modify]
  have backed := held.backed root space live
  obtain ⟨once, all⟩ := backed.tree.perm_below List.mem_finRange
    (List.nodup_finRange tableEntries)
  have below := freesBelow 3 root s once fun frame member =>
    (backed.frames frame (all.subset member)).2
  have freed := below.trans (freed_freeFrame _ root)
  have frames := (List.perm_append_singleton root _).trans all
  exact ⟨freed.free.trans (frames.append_right s.free), held.destroyed live freed frames⟩

/-! ### Creating an address space -/

/-- A cleared root maps nothing. -/
def Space.new (root : Nat) : Space := ⟨[root], fun _ => none⟩

theorem backed_new {rest : List Nat} (frame : TableFrame root) (fresh : root ∉ rest) :
    Backed ({ s with free := rest }.clear root) root (.new root) := by
  have empty : ∀ index, tableOf (({ s with free := rest }.clear root).memory root index) = none :=
    fun index => by rw [clear_here]; exact tableOf_zero
  refine ⟨.new empty, fun found owned => ?_, fun va => ?_, nofun⟩
  · rw [List.mem_singleton.mp owned]
    exact ⟨frame, fresh⟩
  · by_cases user : isUserVa va = true
    · rw [lookup_eq frame.1 user, pathOf, walk, empty]
      rfl
    · exact lookup_of_kernel user

theorem wp_createUserAddressSpace (held : Separated s spaces) : WP createUserAddressSpace
      (fun root t => s.free = root :: t.free ∧ spaces root = none ∧
        Separated t (update spaces root (some (.new root)))) (fun _ t => t = s) s := by
  rw [createUserAddressSpace, wp_bind, wp_requireRuntimeTables]
  refine ⟨fun _ => rfl, fun _ => ?_⟩
  rw [wp_bind, wp_allocTableFrame]
  refine ⟨fun _ => rfl, fun root rest free => ?_⟩
  rw [wp_bind, wp_modify, wp_pure]
  have mine : root ∈ s.free := free ▸ .head _
  have once := List.nodup_cons.mp (free ▸ held.nodup)
  refine ⟨free, ?_, held.change (backed_new (held.frames root mine) once.1) ?_ ?_ ?_⟩
  · cases live : spaces root with
    | none => rfl
    | some space =>
      have backed := held.backed root space live
      exact absurd mine (backed.frames root backed.tree.root_mem).2
  · exact fun frame owned => .inr (List.mem_singleton.mp owned ▸ mine)
  · rw [free]
    exact List.sublist_cons_self root rest
  · exact fun frame outside => clear_elsewhere fun same => outside (List.mem_singleton.mpr same)

/-! ### Runs -/

/-- The tables, and what the calls on the live roots have come to. -/
structure World where
  mmu : State
  spaces : Nat → Option Space

inductive Call where
  | create
  | map (root va pa : Nat) (flags : UserMapFlags)
  | destroy (root : Nat)
  /-- The rest of the kernel. -/
  | elsewhere

/-- The frames that left the free list, the last one first. -/
def allocated (s t : State) : List Nat := (s.free.filter fun frame => frame ∉ t.free).reverse

/-- What the rest of the kernel leaves alone: the tables of the live roots. -/
structure LeavesTables (w : World) (t : State) : Prop where
  nodup : t.free.Nodup
  frames : ∀ frame ∈ t.free, TableFrame frame
  owned : ∀ root space, w.spaces root = some space → ∀ frame ∈ space.owned,
    t.memory frame = w.mmu.memory frame ∧ frame ∉ t.free

/-- The steps of a run. Physical addresses to map are below the limit of a descriptor. -/
inductive Step : World → Call → World → Prop where
  | created {w : World} {root : Nat} {t : State}
      (run : createUserAddressSpace w.mmu = .ok root t) :
      Step w .create
        ⟨t, update w.spaces root (some ⟨allocated w.mmu t, fun _ => none⟩)⟩
  | createFailed {w : World} {error : VmError} {t : State}
      (run : createUserAddressSpace w.mmu = .error error t) : Step w .create ⟨t, w.spaces⟩
  | mapped {w : World} {root va pa : Nat} {flags : UserMapFlags} {space : Space} {t : State}
      (live : w.spaces root = some space) (bound : pa < 2 ^ 48)
      (run : mapUserPage root va pa flags w.mmu = .ok () t) :
      Step w (.map root va pa flags)
        ⟨t, update w.spaces root (some
          { owned := allocated w.mmu t ++ space.owned
            pages := update space.pages (va / pageSize) (some ⟨pa, flags⟩) })⟩
  | mapFailed {w : World} {root va pa : Nat} {flags : UserMapFlags} {space : Space}
      {error : VmError} {t : State} (live : w.spaces root = some space) (bound : pa < 2 ^ 48)
      (run : mapUserPage root va pa flags w.mmu = .error error t) :
      Step w (.map root va pa flags)
        ⟨t, update w.spaces root (some
          { space with owned := allocated w.mmu t ++ space.owned })⟩
  | destroyed {w : World} {root : Nat} {space : Space} {t : State}
      (live : w.spaces root = some space)
      (run : destroyUserAddressSpace root w.mmu = .ok () t) :
      Step w (.destroy root) ⟨t, update w.spaces root none⟩
  | destroyFailed {w : World} {root : Nat} {space : Space} {error : VmError} {t : State}
      (live : w.spaces root = some space)
      (run : destroyUserAddressSpace root w.mmu = .error error t) :
      Step w (.destroy root) ⟨t, w.spaces⟩
  | elsewhere {w : World} {t : State} (leaves : LeavesTables w t) :
      Step w .elsewhere ⟨t, w.spaces⟩

/-- No address space exists, and the allocator has any frames but the first one. -/
def userMappings : Machine World Call where
  initial w := (∀ root, w.spaces root = none) ∧ w.mmu.free.Nodup ∧
    ∀ frame ∈ w.mmu.free, TableFrame frame
  step := Step

theorem allocated_eq {taken : List Nat} (once : s.free.Nodup)
    (free : s.free = taken.reverse ++ t.free) : allocated s t = taken := by
  rw [free] at once
  have apart := (List.nodup_append'.mp once).2.2
  rw [allocated, free, List.filter_append]
  have first : (taken.reverse.filter fun frame => decide (frame ∉ t.free)) = taken.reverse :=
    List.filter_eq_self.mpr fun frame member => decide_eq_true fun kept => apart member kept
  have second : (t.free.filter fun frame => decide (frame ∉ t.free)) = [] :=
    List.filter_eq_nil_iff.mpr fun frame member gone => of_decide_eq_true gone member
  rw [first, second, List.append_nil, List.reverse_reverse]

variable {w : World} {space' : Space}

/-- Every step keeps the tables apart and in agreement with the pages. -/
theorem separated_step {w' : World} {call : Call} (held : Separated w.mmu w.spaces)
    (step : Step w call w') : Separated w'.mmu w'.spaces := by
  cases step with
  | created run =>
    obtain ⟨free, -, after⟩ := (wp_createUserAddressSpace held).of_ok run
    have taken := @allocated_eq _ _ [_] held.nodup free
    rw [taken]
    exact after
  | createFailed run =>
    rw [(wp_createUserAddressSpace held).of_error run]
    exact held
  | mapped live bound run =>
    obtain ⟨taken, free, -, after⟩ := (wp_mapUserPage held live bound).of_ok run
    rw [allocated_eq held.nodup free]
    exact after
  | mapFailed live bound run =>
    obtain ⟨taken, grown⟩ := (wp_mapUserPage held live bound).of_error run
    rw [allocated_eq held.nodup grown.free]
    exact grown.held
  | destroyed live run => exact ((wp_destroyUserAddressSpace held live).of_ok run).2
  | destroyFailed live run =>
    rw [((wp_destroyUserAddressSpace held live).of_error run).1]
    exact held
  | elsewhere leaves =>
    refine ⟨leaves.nodup, leaves.frames, fun root space live => ?_, held.apart⟩
    exact (held.backed root space live).keep
      (fun frame owned => (leaves.owned root space live frame owned).1)
      fun frame owned => (leaves.owned root space live frame owned).2

theorem separated_of_reachable (reached : userMappings.Reachable w) : Separated w.mmu w.spaces := by
  have start : ∀ w, userMappings.initial w → Separated w.mmu w.spaces := by
    rintro w ⟨none, once, frames⟩
    refine ⟨once, frames, fun root space live => ?_, fun root _ space _ _ live => ?_⟩
    · rw [none root] at live
      cases live
    · rw [none root] at live
      cases live
  have keep : ∀ w call w', userMappings.Reachable w → Separated w.mmu w.spaces →
      userMappings.step w call w' → Separated w'.mmu w'.spaces :=
    fun _ _ _ _ held step => separated_step held step
  exact reached.invariant start keep

/-! ### Translations -/

theorem Backed.query (backed : Backed s root space) (va : Nat) : queryUserMapping s root va =
      (space.pages (va / pageSize)).map fun page => pageInfo page va := by
  rw [queryUserMapping, backed.pages va, Option.map_map]
  refine Option.map_congr fun page found => ?_
  exact info_userPageDesc (backed.addressable _ page found) page.flags va

/-- An address space that is live before and after with the same pages. -/
theorem query_same {spaces' : Nat → Option Space} (held : Separated s spaces)
    (after : Separated t spaces') (live : spaces root = some space)
    (live' : spaces' root = some space') (pages : space'.pages = space.pages) (va : Nat) :
    queryUserMapping t root va = queryUserMapping s root va := by
  rw [(held.backed root space live).query, (after.backed root space' live').query, pages]

/-- The calls on the tables are those of partial maps. -/
structure RefinesPages (w : World) : Prop where
  /-- Queries find the pages of the successful calls and nothing else. -/
  query : ∀ root space va, w.spaces root = some space →
    queryUserMapping w.mmu root va =
      (space.pages (va / pageSize)).map fun page => pageInfo page va
  created : ∀ root t, createUserAddressSpace w.mmu = .ok root t →
    w.spaces root = none ∧ (∀ va, queryUserMapping t root va = none) ∧
      ∀ other space va, w.spaces other = some space →
        queryUserMapping t other va = queryUserMapping w.mmu other va
  createFailed : ∀ error t, createUserAddressSpace w.mmu = .error error t → t = w.mmu
  /-- One page of one root changes. -/
  mapped : ∀ root space va pa flags t, w.spaces root = some space → pa < 2 ^ 48 →
    mapUserPage root va pa flags w.mmu = .ok () t →
    queryUserMapping w.mmu root va = none ∧
      ∀ other space' va', w.spaces other = some space' →
        queryUserMapping t other va' =
          if other = root ∧ va' / pageSize = va / pageSize then some (pageInfo ⟨pa, flags⟩ va')
          else queryUserMapping w.mmu other va'
  mapFailed : ∀ root space va pa flags error t, w.spaces root = some space → pa < 2 ^ 48 →
    mapUserPage root va pa flags w.mmu = .error error t →
    ∀ other space' va', w.spaces other = some space' →
      queryUserMapping t other va' = queryUserMapping w.mmu other va'
  /-- The frames of the tables become free, each once, and no other frame does. -/
  destroyed : ∀ root space t, w.spaces root = some space →
    destroyUserAddressSpace root w.mmu = .ok () t →
    space.owned.Nodup ∧ t.free.Perm (space.owned ++ w.mmu.free) ∧
      (∀ number page, space.pages number = some page → page.frame ∉ space.owned →
        (page.frame ∈ t.free ↔ page.frame ∈ w.mmu.free)) ∧
      ∀ other space' va, other ≠ root → w.spaces other = some space' →
        queryUserMapping t other va = queryUserMapping w.mmu other va
  /-- Only a root that the processor translates with is kept. -/
  destroys : ∀ root space, w.spaces root = some space → w.mmu.runtimeTablesActive = true →
    w.mmu.ttbr0 ≠ root → ∃ t, destroyUserAddressSpace root w.mmu = .ok () t
  destroyFailed : ∀ root space error t, w.spaces root = some space →
    destroyUserAddressSpace root w.mmu = .error error t → t = w.mmu

/-- In every run the tables of the live roots are partial maps, and the calls act on them
as such. -/
theorem user_tables_refine_pages {w : World} (reached : userMappings.Reachable w) :
    RefinesPages w := by
  have held := separated_of_reachable reached
  refine ⟨fun root space va live => (held.backed root space live).query va, ?_,
    fun _ _ run => (wp_createUserAddressSpace held).of_error run, ?_, ?_, ?_, ?_,
    fun _ _ _ _ live run => ((wp_destroyUserAddressSpace held live).of_error run).1⟩
  · intro root t run
    obtain ⟨-, unused, after⟩ := (wp_createUserAddressSpace held).of_ok run
    refine ⟨unused, fun va => ?_, fun other space va found => ?_⟩
    · rw [(after.backed root _ (update_self ..)).query]
      rfl
    · have here : other ≠ root := by
        rintro rfl
        rw [unused] at found
        cases found
      exact query_same held after found ((update_of_ne here ..).trans found) rfl va
  · intro root space va pa flags t live bound run
    obtain ⟨taken, -, unmapped, after⟩ := (wp_mapUserPage held live bound).of_ok run
    refine ⟨?_, fun other space' va' found => ?_⟩
    · rw [(held.backed root space live).query, unmapped]
      rfl
    by_cases here : other = root
    · subst here
      rw [live] at found
      cases found
      rw [(after.backed other _ (update_self ..)).query, (held.backed other space live).query]
      dsimp only
      by_cases same : va' / pageSize = va / pageSize
      · rw [if_pos ⟨rfl, same⟩, same, update_self]
        rfl
      · rw [if_neg fun both => same both.2, update_of_ne same]
    · rw [if_neg fun both => here both.1]
      exact query_same held after found ((update_of_ne here ..).trans found) rfl va'
  · intro root space va pa flags error t live bound run other space' va' found
    obtain ⟨taken, grown⟩ := (wp_mapUserPage held live bound).of_error run
    by_cases here : other = root
    · subst here
      rw [live] at found
      cases found
      exact query_same held grown.held live (update_self ..) rfl va'
    · exact query_same held grown.held found ((update_of_ne here ..).trans found) rfl va'
  · intro root space t live run
    obtain ⟨free, after⟩ := (wp_destroyUserAddressSpace held live).of_ok run
    refine ⟨(held.backed root space live).tree.nodup, free, fun number page _ outside => ?_,
      fun other space' va here found => ?_⟩
    · rw [free.mem_iff, List.mem_append]
      exact or_iff_right outside
    · exact query_same held after found ((update_of_ne here ..).trans found) rfl va
  · intro root space live active elsewhere
    cases run : destroyUserAddressSpace root w.mmu with
    | ok _ t => exact ⟨t, rfl⟩
    | error error t =>
      obtain ⟨-, early | current⟩ := (wp_destroyUserAddressSpace held live).of_error run
      · cases active.symm.trans early
      · exact absurd current elsewhere

/-- Four free frames, a created root and one page. -/
def fourFrames : State := ⟨fun _ _ => 0, [0x1000, 0x2000, 0x3000, 0x4000], 0, 0, true⟩

def oneRoot : State := { fourFrames with free := [0x2000, 0x3000, 0x4000] }.clear 0x1000

def oneSpace : World :=
  ⟨oneRoot, update (fun _ => none) 0x1000
    (some ⟨allocated fourFrames oneRoot, fun _ => none⟩)⟩

theorem reachable_oneSpace : userMappings.Reachable oneSpace := by
  have start : userMappings.Reachable ⟨fourFrames, fun _ => none⟩ := by
    refine .initial ⟨fun _ => rfl, by decide, ?_⟩
    intro frame member
    have small : ∀ frame ∈ [0x1000, 0x2000, 0x3000, 0x4000], frame ≠ 0 ∧ Addressable frame := by
      decide
    exact small frame member
  have run : createUserAddressSpace fourFrames = .ok 0x1000 oneRoot := rfl
  have step : userMappings.step ⟨fourFrames, fun _ => none⟩ .create oneSpace := .created run
  exact start.step step

theorem user_tables_refine_pages_one : userMappings.Reachable oneSpace ∧
      (∃ t, mapUserPage 0x1000 0x4000000000 0x80000000 .writeOnly oneRoot = .ok () t) ∧
      ∃ t, destroyUserAddressSpace 0x1000 oneRoot = .ok () t ∧
        t.free.Perm (0x1000 :: oneRoot.free) := by
  have refines := user_tables_refine_pages reachable_oneSpace
  have live : oneSpace.spaces 0x1000 = some ⟨[0x1000], fun _ => none⟩ := rfl
  obtain ⟨t, run⟩ := refines.destroys 0x1000 _ live rfl (by decide)
  exact ⟨reachable_oneSpace, ⟨_, rfl⟩, t, run, (refines.destroyed 0x1000 _ t live run).2.1⟩

end Genrt.Mmu
