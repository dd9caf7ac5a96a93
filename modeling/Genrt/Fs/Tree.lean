import Genrt.Fs.Mount

/-!
# The lists of a mounted file system

Every node but the root goes to the list of its parent, under its base name. The loops that
do this append one entry after the other, so what they build can be written down, and
sorting the lists finds no name twice.
-/

namespace Genrt.Fs

open SlashPath Sorting Result MountedRamfs

/-- A directory and an entry of its list. -/
abbrev Listing := List UInt8 × RamDirEntry

def listing (path : List UInt8) (kind : DirEntryKind) (ino : Nat) : Listing :=
  (parentOf path, ⟨nameOf path, kind, ino⟩)

def fileListing (file : RamFile × Nat) : List Listing :=
  [listing file.1.path .file (fileIno file.2)]

def dirListing (dir : RamDir × Nat) : List Listing :=
  if dir.1.path = rootPath then [] else [listing dir.1.path .directory (dirIno dir.2)]

namespace MountedRamfs

/-- The place of every node but the root. -/
def nodes (fs : MountedRamfs) : List Listing :=
  fs.files.zipIdx.flatMap fileListing ++ fs.dirs.zipIdx.flatMap dirListing

/-- The lists of all directories. -/
def listings (fs : MountedRamfs) : List Listing :=
  fs.dirs.flatMap fun dir => dir.entries.map fun entry => (dir.path, entry)

end MountedRamfs

/-- A path that is not the root, with a directory above it. -/
def Placed (dirs : List (List UInt8)) (path : List UInt8) : Prop :=
  ∃ names name, ValidNames (names ++ [name]) ∧ path = render slash (names ++ [name]) ∧
    render slash names ∈ dirs

/-! ### Filling the lists -/

def fill (dirs : List RamDir) (items : List Listing) : List RamDir :=
  dirs.map fun dir =>
    { dir with entries := dir.entries ++ (items.filter (·.1 = dir.path)).map (·.2) }

theorem fill_nil (dirs : List RamDir) : fill dirs [] = dirs := by
  simp [fill]

theorem fill_append (dirs : List RamDir) (first second : List Listing) :
    fill (fill dirs first) second = fill dirs (first ++ second) := by
  simp [fill, Function.comp_def]

theorem paths_fill (dirs : List RamDir) (items : List Listing) :
    (fill dirs items).map (·.path) = dirs.map (·.path) := by
  simp [fill, Function.comp_def]

variable {fs : MountedRamfs} {path : List UInt8}

variable {α : Type} {index : Nat} {paths : List (List UInt8)}

variable {items : List α}

/-- The search for a path finds the place where it is. -/
theorem findIdx?_eq_some {key : α → List UInt8} (distinct : (items.map key).Nodup) :
    items.findIdx? (key · = path) = some index ↔ (items[index]?).map key = some path := by
  rw [List.findIdx?_eq_some_iff_getElem, Option.map_eq_some_iff]
  constructor
  · rintro ⟨inside, found, -⟩
    exact ⟨_, List.getElem?_eq_getElem inside, of_decide_eq_true found⟩
  · rintro ⟨item, present, rfl⟩
    obtain ⟨inside, rfl⟩ := List.getElem?_eq_some_iff.mp present
    refine ⟨inside, decide_eq_true rfl, fun other earlier same => ?_⟩
    have inside' : index < (items.map key).length := by rwa [List.length_map]
    have apart := List.pairwise_iff_getElem.mp distinct other index (earlier.trans inside') inside'
      earlier
    exact apart (by simpa using same)

section

variable (distinct : (fs.dirs.map (·.path)).Nodup)

include distinct

theorem lookupDir_eq_some : fs.lookupDir path = some index ↔ fs.dirPath index = some path :=
  findIdx?_eq_some distinct

theorem appendDirEntry_eq (found : fs.lookupDir path = some index) (entry : RamDirEntry) :
    fs.appendDirEntry index entry = { fs with dirs := fill fs.dirs [(path, entry)] } := by
  have here := (lookupDir_eq_some distinct).mp found
  rw [appendDirEntry, fill]
  congr 1
  apply List.ext_getElem?
  intro other
  rw [List.getElem?_modify, List.getElem?_map]
  cases present : fs.dirs[other]? with
  | none => simp
  | some dir =>
    by_cases same : index = other
    · subst same
      rw [dirPath, present] at here
      obtain rfl := Option.some.inj here
      simp
    · have apart : ¬ path = dir.path := by
        rintro rfl
        have there : fs.dirPath other = some dir.path := by rw [dirPath, present]; rfl
        exact same (Option.mem_unique found (((lookupDir_eq_some distinct).mpr there)))
      simp [same, apart]

theorem listNode_ok (placed : Placed (fs.dirs.map (·.path)) path) (kind : DirEntryKind)
    (ino : Nat) :
    fs.listNode path kind ino = .ok { fs with dirs := fill fs.dirs [listing path kind ino] } := by
  obtain ⟨names, name, valid, rfl, above⟩ := placed
  obtain ⟨dir, member, same⟩ := List.mem_map.mp above
  obtain ⟨index, present⟩ := List.mem_iff_getElem?.mp member
  have found : fs.lookupDir (render slash names) = some index :=
    (lookupDir_eq_some distinct).mpr (by rw [dirPath, present, ← same]; rfl)
  rw [listNode, parentPath_render valid, ok_bind, found]
  dsimp only
  rw [basename_render valid, ok_bind, appendDirEntry_eq distinct found, listing,
    parentOf_render valid, nameOf_render valid]
  rfl

end

/-- A loop whose rounds append to the lists. -/
theorem foldlM_fill {step : MountedRamfs → α → Except MountError MountedRamfs}
    {added : α → List Listing} (steps : ∀ fs, fs.dirs.map (·.path) = paths → ∀ a ∈ items,
      step fs a = .ok { fs with dirs := fill fs.dirs (added a) })
    (same : fs.dirs.map (·.path) = paths) :
    items.foldlM step fs = .ok { fs with dirs := fill fs.dirs (items.flatMap added) } := by
  induction items generalizing fs with
  | nil => exact congrArg Except.ok (by rw [List.flatMap_nil, fill_nil])
  | cons a rest ih =>
    rw [List.foldlM_cons, steps fs same a (.head _), ok_bind,
      ih (fun fs same a member => steps fs same a (.tail _ member))
        ((paths_fill ..).trans same), List.flatMap_cons]
    dsimp only
    rw [fill_append]

/-! ### The consistent tree -/

/-- One root, every other node below a directory, and no path twice. -/
structure MountedRamfs.Rooted (fs : MountedRamfs) : Prop where
  root : rootPath ∈ fs.dirs.map (·.path)
  files : ∀ file ∈ fs.files, Placed (fs.dirs.map (·.path)) file.path
  dirs : ∀ dir ∈ fs.dirs, dir.path = rootPath ∨ Placed (fs.dirs.map (·.path)) dir.path
  distinct : (fs.files.map (·.path) ++ fs.dirs.map (·.path)).Nodup

/-- Every node but the root is in the sorted list of its parent, and in no other. -/
structure MountedRamfs.Consistent (fs : MountedRamfs) : Prop extends fs.Rooted where
  sorted : ∀ dir ∈ fs.dirs, StrictlySorted (fun entry => bytesKey entry.name) dir.entries
  listed : fs.listings.Perm fs.nodes

/-- The path of the node that an entry stands for. -/
def nodePath (node : Listing) : List UInt8 :=
  render slash (components slash node.1 ++ [node.2.name])

variable {dirs : List (List UInt8)}

theorem Placed.split (placed : Placed dirs path) (kind : DirEntryKind) (ino : Nat) :
    path ≠ rootPath ∧ parentOf path ∈ dirs ∧ nodePath (listing path kind ino) = path := by
  obtain ⟨names, name, valid, rfl, above⟩ := placed
  refine ⟨fun same => ?_, by rwa [parentOf_render valid], ?_⟩
  · have none_left : names ++ [name] = [] := render_injective valid.clean (by simp) same
    simp at none_left
  · rw [nodePath, listing, parentOf_render valid, nameOf_render valid,
      components_render valid.of_append.1.clean]

theorem dirListings_eq (dirs : List RamDir) :
    dirs.zipIdx.flatMap dirListing = (dirs.map (·.path)).zipIdx.flatMap fun dir =>
      if dir.1 = rootPath then [] else [listing dir.1 .directory (dirIno dir.2)] := by
  rw [List.zipIdx_map, List.flatMap_map]
  rfl

/-- The numbers of the nodes do not matter for their paths. -/
theorem nodePaths_zipIdx {places : α × Nat → List Listing} {paths : α → List (List UInt8)}
    (same : ∀ item ∈ items, ∀ index, (places (item, index)).map nodePath = paths item) :
    (items.zipIdx.flatMap places).map nodePath = items.flatMap paths := by
  rw [List.map_flatMap]
  calc (items.zipIdx.flatMap fun item => (places item).map nodePath)
      = items.zipIdx.flatMap fun item => paths item.1 :=
        List.flatMap_congr fun item member => same _ (List.fst_mem_of_mem_zipIdx member) _
    _ = (items.zipIdx.map Prod.fst).flatMap paths := (List.flatMap_map ..).symm
    _ = items.flatMap paths := by rw [List.zipIdx_map_fst]

theorem nonRoot_sublist (dirs : List RamDir) :
    (dirs.flatMap fun dir => if dir.path = rootPath then [] else [dir.path]).Sublist
      (dirs.map (·.path)) := by
  induction dirs with
  | nil => exact .refl _
  | cons dir rest ih =>
    rw [List.flatMap_cons, List.map_cons]
    split
    · exact ih.cons _
    · exact ih.cons_cons _

namespace MountedRamfs.Rooted

variable (rooted : fs.Rooted)

include rooted

theorem distinct_dirs : (fs.dirs.map (·.path)).Nodup := rooted.distinct.of_append_right

/-- No two nodes have the same place. -/
theorem distinct_nodes : (fs.nodes.map nodePath).Nodup := by
  have files : (fs.files.zipIdx.flatMap fileListing).map nodePath =
      fs.files.flatMap fun file => [file.path] := by
    refine nodePaths_zipIdx fun file member index => ?_
    exact congrArg (fun path => [path]) ((rooted.files file member).split ..).2.2
  have dirs : (fs.dirs.zipIdx.flatMap dirListing).map nodePath =
      fs.dirs.flatMap fun dir => if dir.path = rootPath then [] else [dir.path] := by
    refine nodePaths_zipIdx fun dir member index => ?_
    rw [dirListing]
    split
    · rfl
    · next other =>
      have placed := (rooted.dirs dir member).resolve_left other
      exact congrArg (fun path => [path]) (placed.split ..).2.2
  rw [nodes, List.map_append, files, dirs, ← List.map_eq_flatMap]
  exact rooted.distinct.sublist ((List.Sublist.refl _).append (nonRoot_sublist _))

/-- A node is at a place of the tree. -/
theorem mem_nodes {node : Listing} (member : node ∈ fs.nodes) : node.1 ∈ fs.dirs.map (·.path) := by
  rcases List.mem_append.mp member with inFiles | inDirs
  · obtain ⟨⟨file, index⟩, inside, here⟩ := List.mem_flatMap.mp inFiles
    obtain rfl := List.mem_singleton.mp here
    exact ((rooted.files file (List.fst_mem_of_mem_zipIdx inside)).split .file 0).2.1
  · obtain ⟨⟨dir, index⟩, inside, here⟩ := List.mem_flatMap.mp inDirs
    rw [dirListing] at here
    split at here
    · cases here
    · next other =>
      obtain rfl := List.mem_singleton.mp here
      have placed := (rooted.dirs dir (List.fst_mem_of_mem_zipIdx inside)).resolve_left other
      exact (placed.split .file 0).2.1

/-- The names in one directory are distinct. -/
theorem distinct_names (parent : List UInt8) :
    (((fs.nodes.filter (·.1 = parent)).map (·.2)).map fun entry => bytesKey entry.name).Nodup := by
  have pairs := List.pairwise_map.mp (rooted.distinct_nodes.sublist
    (List.filter_sublist.map nodePath) : ((fs.nodes.filter (·.1 = parent)).map nodePath).Nodup)
  rw [List.map_map]
  refine List.pairwise_map.mpr (pairs.imp_of_mem fun {first second} here there differ same => ?_)
  have parents : first.1 = second.1 :=
    (of_decide_eq_true (List.mem_filter.mp here).2).trans
      (of_decide_eq_true (List.mem_filter.mp there).2).symm
  refine differ ?_
  rw [nodePath, nodePath, parents, bytesKey_injective same]

theorem foldlM_listFile :
    fs.files.zipIdx.foldlM listFile fs =
      .ok { fs with dirs := fill fs.dirs (fs.files.zipIdx.flatMap fileListing) } := by
  refine foldlM_fill (fun now same file member => ?_) rfl
  have placed := rooted.files file.1 (List.fst_mem_of_mem_zipIdx member)
  rw [← same] at placed
  exact listNode_ok (same ▸ rooted.distinct_dirs) placed ..

theorem foldlM_listDir :
    fs.dirs.zipIdx.foldlM listDir fs =
      .ok { fs with dirs := fill fs.dirs (fs.dirs.zipIdx.flatMap dirListing) } := by
  refine foldlM_fill (fun now same dir member => ?_) rfl
  rw [listDir, dirListing]
  split
  · rw [fill_nil]
  · next other =>
    have placed := (rooted.dirs dir.1 (List.fst_mem_of_mem_zipIdx member)).resolve_left other
    rw [← same] at placed
    exact listNode_ok (same ▸ rooted.distinct_dirs) placed ..

/-- Only the paths of the directories matter. -/
theorem of_paths {dirs : List RamDir} (paths : dirs.map (·.path) = fs.dirs.map (·.path)) :
    Rooted ⟨fs.files, dirs⟩ ∧ nodes ⟨fs.files, dirs⟩ = fs.nodes := by
  refine ⟨⟨paths ▸ rooted.root, paths ▸ rooted.files, fun dir member => ?_,
    paths ▸ rooted.distinct⟩, ?_⟩
  · obtain ⟨old, inside, same⟩ := List.mem_map.mp (paths ▸ List.mem_map_of_mem member)
    rw [← same, paths]
    exact rooted.dirs old inside
  · rw [nodes, nodes, dirListings_eq, dirListings_eq, paths]

end MountedRamfs.Rooted

/-- A directory after its round of the last loop. -/
def sortedDir (dir : RamDir) : RamDir :=
  { dir with entries := sortBy (fun entry => bytesKey entry.name) dir.entries }

theorem sortEntries_ok {dir : RamDir}
    (distinct : (dir.entries.map fun entry => bytesKey entry.name).Nodup) :
    sortEntries dir = .ok (sortedDir dir) := by
  rw [sortEntries, rejectDuplicateDirEntries, rejectDuplicates,
    if_pos ((neighboursDiffer_sortBy dir.entries).mpr distinct), ok_bind]
  rfl

/-- The lists of a tree when both loops are done. -/
theorem entries_fill (empty : ∀ dir ∈ fs.dirs, dir.entries = []) :
    fill fs.dirs fs.nodes = fs.dirs.map fun dir =>
      ⟨dir.path, (fs.nodes.filter (·.1 = dir.path)).map (·.2)⟩ := by
  refine List.map_congr_left fun dir member => ?_
  rw [empty dir member, List.nil_append]

/-- Sorting the lists keeps what is in them. -/
theorem listings_perm (rooted : fs.Rooted) (empty : ∀ dir ∈ fs.dirs, dir.entries = []) :
    ({ fs with dirs := (fill fs.dirs fs.nodes).map sortedDir } : MountedRamfs).listings.Perm
      fs.nodes := by
  have lists : ∀ dir ∈ fs.dirs, ((sortedDir ⟨dir.path, (fs.nodes.filter (·.1 = dir.path)).map
      (·.2)⟩).entries.map fun entry => (dir.path, entry)).Perm
        (fs.nodes.filter (·.1 = dir.path)) := by
    intro dir _
    refine ((sortBy_perm _).map _).trans (.of_eq ?_)
    rw [List.map_map]
    refine (List.map_congr_left fun node member => ?_).trans (List.map_id _)
    exact Prod.ext (of_decide_eq_true (List.mem_filter.mp member).2).symm rfl
  rw [listings, entries_fill empty, List.flatMap_map, List.flatMap_map]
  refine (List.Perm.flatMap_left _ lists).trans ?_
  have grouped := regroup_perm Prod.fst rooted.distinct_dirs fun _ => rooted.mem_nodes
  rwa [List.flatMap_map] at grouped

/-- The lists of a tree are filled and sorted. -/
theorem MountedRamfs.Rooted.populate (rooted : fs.Rooted)
    (empty : ∀ dir ∈ fs.dirs, dir.entries = []) :
    ∃ filled, fs.populateDirEntries = .ok filled ∧ filled.Consistent ∧ filled.files = fs.files ∧
      filled.dirs.map (·.path) = fs.dirs.map (·.path) := by
  have fileRun := rooted.foldlM_listFile
  have next := (rooted.of_paths (paths_fill fs.dirs (fs.files.zipIdx.flatMap fileListing))).1
  have all : fill (fill fs.dirs (fs.files.zipIdx.flatMap fileListing))
      ((fill fs.dirs (fs.files.zipIdx.flatMap fileListing)).zipIdx.flatMap dirListing) =
        fill fs.dirs fs.nodes := by
    rw [fill_append, dirListings_eq, paths_fill, ← dirListings_eq]
    rfl
  have distinct : ∀ dir ∈ fill fs.dirs fs.nodes,
      (dir.entries.map fun entry => bytesKey entry.name).Nodup := by
    rw [entries_fill empty]
    intro dir member
    obtain ⟨old, _, rfl⟩ := List.mem_map.mp member
    exact rooted.distinct_names old.path
  have paths : ((fill fs.dirs fs.nodes).map sortedDir).map (·.path) = fs.dirs.map (·.path) := by
    rw [List.map_map]
    exact paths_fill ..
  obtain ⟨kept, nodes⟩ := rooted.of_paths paths
  refine ⟨_, ?_, ⟨kept, fun dir member => ?_, ?_⟩, rfl, paths⟩
  · rw [populateDirEntries, fileRun, ok_bind, next.foldlM_listDir, ok_bind]
    dsimp only
    rw [all, mapM_eq_ok fun dir member => sortEntries_ok (distinct dir member), ok_bind]
    rfl
  · obtain ⟨old, inside, rfl⟩ := List.mem_map.mp member
    refine (strictlySorted_iff_nodup (sorted_sortBy _)).mpr ?_
    exact ((sortBy_perm old.entries).map _).nodup_iff.mpr (distinct old inside)
  · rw [nodes]
    exact listings_perm rooted empty

/-! ### The archive -/

variable {entries : List ArchiveEntry}

/-- What is above an entry is a directory. -/
theorem placed_above {entry : ArchiveEntry} (member : entry ∈ entries)
    {names : List (List UInt8)} (nonempty : names ≠ []) {back : List (List UInt8)}
    (valid : ValidNames (names ++ back)) (same : entry.path = render slash (names ++ back)) :
    ∃ front name, ValidNames (front ++ [name]) ∧
      render slash names = render slash (front ++ [name]) ∧
      IsDirectory entries (render slash front) := by
  obtain ⟨front, name, rfl⟩ := (List.eq_nil_or_concat' names).resolve_left nonempty
  refine ⟨front, name, valid.of_append.1, rfl, .inr (.inr ⟨entry, member, ?_⟩)⟩
  rw [same, mem_ancestors valid]
  exact ⟨front, [name] ++ back, List.append_assoc .., by simp, rfl⟩

theorem placed_entry {entry : ArchiveEntry} (member : entry ∈ entries) :
    ∃ front name, ValidNames (front ++ [name]) ∧ entry.path = render slash (front ++ [name]) ∧
      IsDirectory entries (render slash front) := by
  obtain ⟨names, nonempty, valid, same⟩ := entry.exists_names
  rw [← List.append_nil names] at valid
  rw [same]
  exact placed_above member nonempty valid (by rw [List.append_nil, same])

theorem placed_directory (directory : IsDirectory entries path) :
    path = rootPath ∨ ∃ front name, ValidNames (front ++ [name]) ∧
      path = render slash (front ++ [name]) ∧ IsDirectory entries (render slash front) := by
  rcases directory with root | ⟨entry, member, _, rfl⟩ | ⟨entry, member, above⟩
  · exact .inl root
  · exact .inr (placed_entry member)
  · obtain ⟨names, _, valid, same⟩ := entry.exists_names
    rw [same, mem_ancestors valid] at above
    obtain ⟨front, back, rfl, _, rfl⟩ := above
    by_cases top : front = []
    · exact .inl (by rw [top]; rfl)
    · exact .inr (placed_above member top valid same)

/-- The tree of an archive without a clash. -/
theorem rooted_of_mountable {files : List RamFile} (perm : files.Perm (filesOf entries))
    (distinct : (files.map (·.path)).Nodup) (sorted : StrictlySorted bytesKey paths)
    (index : ∀ path, path ∈ paths ↔ IsDirectory entries path)
    (clear : ∀ file ∈ files, file.path ∉ paths) :
    Rooted ⟨files, paths.map fun path => ⟨path, []⟩⟩ := by
  have same : (paths.map fun path => (⟨path, []⟩ : RamDir)).map (·.path) = paths := by
    rw [List.map_map]
    exact List.map_id _
  refine ⟨?_, fun file member => ?_, fun dir member => ?_, ?_⟩
  all_goals dsimp only
  all_goals rw [same]
  · exact (index _).mpr (.inl rfl)
  · obtain ⟨entry, inside, _, path⟩ :=
      mem_filesOf.mp (List.mem_map_of_mem (perm.mem_iff.mp member))
    rw [← path]
    obtain ⟨front, name, valid, path, above⟩ := placed_entry inside
    exact ⟨front, name, valid, path, (index _).mpr above⟩
  · obtain ⟨path, inside, rfl⟩ := List.mem_map.mp member
    refine (placed_directory ((index path).mp inside)).imp_right ?_
    rintro ⟨front, name, valid, path, above⟩
    exact ⟨front, name, valid, path, (index _).mpr above⟩
  · refine List.nodup_append'.mpr ⟨distinct, sorted.nodup.of_map _, fun path inFiles inDirs => ?_⟩
    obtain ⟨file, member, rfl⟩ := List.mem_map.mp inFiles
    exact clear file member inDirs

theorem rejectDuplicates_sortBy {α : Type} {key : α → List UInt8} (items : List α) :
    rejectDuplicates key (sortBy (fun item => bytesKey (key item)) items) = .ok () ↔
      (items.map key).Nodup := by
  have keys : (items.map fun item => bytesKey (key item)).Nodup ↔ (items.map key).Nodup := by
    rw [← List.nodup_map_iff bytesKey_injective, List.map_map]
    rfl
  rw [rejectDuplicates, ← keys, ← neighboursDiffer_sortBy]
  split
  · next pass => exact iff_of_true rfl pass
  · next fail => exact iff_of_false nofun fail

theorem rejectFileDirConflicts_eq_ok {files : List RamFile} :
    rejectFileDirConflicts files dirs = .ok () ↔ ∀ file ∈ files, file.path ∉ dirs := by
  rw [rejectFileDirConflicts]
  split
  · next clash =>
    refine iff_of_false nofun fun clear => ?_
    obtain ⟨file, member, inside⟩ := List.any_eq_true.mp clash
    exact clear file member (List.contains_iff_mem.mp inside)
  · next none_found =>
    refine iff_of_true rfl fun file member inside => none_found ?_
    exact List.any_eq_true.mpr ⟨file, member, List.contains_iff_mem.mpr inside⟩

theorem forM_validate_dirsOf (entries : List ArchiveEntry) :
    (dirsOf entries).forM validateAbsolutePath = .ok () := by
  refine forM_eq_ok.mpr fun path member => ?_
  obtain ⟨names, _, valid, rfl⟩ := valid_of_path (.inr member)
  exact validateAbsolutePath_render valid

/-- Mounting is its checks and then the lists. -/
theorem new_eq_ok
    (found : directoryPaths (sortBy (fun file => bytesKey file.path) (filesOf entries))
      (sortBy bytesKey (dirsOf entries)) = .ok paths)
    (index : ∀ path, path ∈ paths ↔ IsDirectory entries path) :
    new (filesOf entries) (dirsOf entries) = .ok fs ↔ Mountable entries ∧ populateDirEntries
        ⟨sortBy (fun file => bytesKey file.path) (filesOf entries),
          paths.map fun path => ⟨path, []⟩⟩ = .ok fs := by
  have clear : (∀ file ∈ sortBy (fun file => bytesKey file.path) (filesOf entries),
      file.path ∉ paths) ↔ ∀ path ∈ (filesOf entries).map (·.path), ¬ IsDirectory entries path := by
    simp [index]
  have files := @rejectDuplicates_sortBy _ RamFile.path (filesOf entries)
  have dirs := @rejectDuplicates_sortBy _ id (dirsOf entries)
  rw [List.map_id] at dirs
  rw [mountable_iff, new, bind_eq_ok]
  constructor
  · rintro ⟨_, noFiles, run⟩
    rw [forM_validate_dirsOf, ok_bind] at run
    obtain ⟨_, noDirs, run⟩ := bind_eq_ok.mp run
    rw [found, ok_bind] at run
    obtain ⟨_, noConflicts, run⟩ := bind_eq_ok.mp run
    exact ⟨⟨files.mp noFiles, dirs.mp noDirs,
      clear.mp (rejectFileDirConflicts_eq_ok.mp noConflicts)⟩, run⟩
  · rintro ⟨⟨noFiles, noDirs, noConflicts⟩, run⟩
    refine ⟨(), files.mpr noFiles, ?_⟩
    rw [forM_validate_dirsOf, ok_bind]
    refine bind_eq_ok.mpr ⟨(), dirs.mpr noDirs, ?_⟩
    rw [found, ok_bind]
    exact bind_eq_ok.mpr ⟨(), rejectFileDirConflicts_eq_ok.mpr (clear.mpr noConflicts), run⟩

/-- Mounting succeeds if the entries do not clash. The tree then has the files of the archive
and its directories, every node but the root is listed in its parent and nowhere else, and the
lookups find these nodes. -/
theorem mount_consistent (entries : List ArchiveEntry) :
    ((∃ fs, new (filesOf entries) (dirsOf entries) = .ok fs) ↔ Mountable entries) ∧
      ∀ fs, new (filesOf entries) (dirsOf entries) = .ok fs →
        fs.Consistent ∧ fs.files.Perm (filesOf entries) ∧
          (∀ path, path ∈ fs.dirs.map (·.path) ↔ IsDirectory entries path) ∧
          (∀ path index, fs.lookupDir path = some index ↔ fs.dirPath index = some path) ∧
          ∀ path index, fs.lookupFile path = some index ↔
            (fs.files[index]?).map (·.path) = some path := by
  obtain ⟨paths, found, sorted, index⟩ := directoryPaths_ok entries
  have filled (mountable : Mountable entries) := by
    have ⟨distinct, _, clear⟩ := (mountable_iff entries).mp mountable
    have perm := @sortBy_perm _ _ _ (fun file => bytesKey file.path) (filesOf entries)
    have rooted := rooted_of_mountable perm ((perm.map _).nodup_iff.mpr distinct) sorted index
      fun file member inside => clear _ (List.mem_map_of_mem (perm.mem_iff.mp member))
        ((index _).mp inside)
    exact rooted.populate (by simp)
  refine ⟨⟨fun ⟨fs, run⟩ => ((new_eq_ok found index).mp run).1, fun mountable => ?_⟩,
    fun fs run => ?_⟩
  · obtain ⟨fs, run, -⟩ := filled mountable
    exact ⟨fs, (new_eq_ok found index).mpr ⟨mountable, run⟩⟩
  · obtain ⟨mountable, run⟩ := (new_eq_ok found index).mp run
    obtain ⟨fs', run', consistent, files, dirs⟩ := filled mountable
    obtain rfl : fs' = fs := Except.ok.inj (run'.symm.trans run)
    refine ⟨consistent, files ▸ sortBy_perm _, fun path => ?_, fun path index => ?_,
      fun path index => ?_⟩
    · rw [dirs, List.map_map]
      exact (by simp : _ ↔ path ∈ paths).trans (index path)
    · exact lookupDir_eq_some consistent.distinct_dirs
    · exact findIdx?_eq_some consistent.distinct.of_append_left

end Genrt.Fs
