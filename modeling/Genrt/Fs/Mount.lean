import Genrt.Fs.Ramfs

/-!
# Mounting builds a consistent tree

The paths of an archive are strings of names, so parents and base names are those of the
lists of names. The directories of the index are the root, the directories of the archive
and everything above its entries. Every node but the root is listed in its parent.
-/

namespace Genrt.Fs

open SlashPath Sorting Result

/-! ### The paths of an archive -/

inductive InitramfsError where
  | parse
  | unsupportedFormat
  | invalidPath
  | duplicatePath
  | unsupportedFileType
  | missingInit
  | outOfMemory
  | alreadyMounted
deriving DecidableEq, Repr

def dot : List UInt8 := [0x2e]

def dotDot : List UInt8 := [0x2e, 0x2e]

/-- The loop of `canonical_archive_path` in front of the rest of a name, with the bytes of the
component that it is in. -/
def archiveComponents (component out : List UInt8) : List UInt8 → Except InitramfsError (List UInt8)
  | [] =>
    if component = [] ∨ component = dot ∨ component = dotDot then .error .invalidPath
    else .ok (out ++ component)
  | byte :: rest =>
    if byte = slash then
      if component = [] ∨ component = dot ∨ component = dotDot then .error .invalidPath
      else archiveComponents [] (out ++ component ++ [slash]) rest
    else archiveComponents (component ++ [byte]) out rest

def canonicalArchivePath (name : List UInt8) : Except InitramfsError (List UInt8) :=
  if name = [] ∨ name.head? = some slash then .error .invalidPath
  else archiveComponents [] [slash] name

/-- A name that a path of the file system may hold. -/
def IsPathName (name : List UInt8) : Prop := IsName slash name ∧ name ≠ dot ∧ name ≠ dotDot

def ValidNames (names : List (List UInt8)) : Prop := ∀ name ∈ names, IsPathName name

theorem ValidNames.clean {names : List (List UInt8)} (valid : ValidNames names) :
    ∀ name ∈ names, IsName slash name := fun name member => (valid name member).1

theorem ValidNames.of_append {front back : List (List UInt8)} (valid : ValidNames (front ++ back)) :
    ValidNames front ∧ ValidNames back :=
  ⟨fun name member => valid name (List.mem_append_left _ member),
    fun name member => valid name (List.mem_append_right _ member)⟩

theorem archiveComponents_ok {component front path rest : List UInt8} (plain : slash ∉ component)
    (accepted : archiveComponents component (front ++ [slash]) rest = .ok path) :
    ∃ names, names ≠ [] ∧ ValidNames names ∧ path = front ++ body slash names := by
  induction rest generalizing component front with
  | nil =>
    rw [archiveComponents] at accepted
    split at accepted
    · cases accepted
    · next good =>
      simp only [not_or] at good
      cases accepted
      refine ⟨[component], by simp, ?_, by simp [body_cons]⟩
      intro name member
      obtain rfl := List.mem_singleton.mp member
      exact ⟨⟨good.1, plain⟩, good.2⟩
  | cons byte rest ih =>
    rw [archiveComponents] at accepted
    split at accepted
    · split at accepted
      · cases accepted
      · next good =>
        simp only [not_or] at good
        obtain ⟨names, _, valid, rfl⟩ := ih List.not_mem_nil accepted
        refine ⟨component :: names, by simp, ?_, by simp [body_cons]⟩
        exact List.forall_mem_cons.mpr ⟨⟨⟨good.1, plain⟩, good.2⟩, valid⟩
    · next other =>
      refine ih ?_ accepted
      simpa using ⟨plain, fun same => other same.symm⟩

variable {path : List UInt8} {entries : List ArchiveEntry}

/-- An accepted name is a path of names. -/
theorem canonicalArchivePath_ok {name : List UInt8}
    (accepted : canonicalArchivePath name = .ok path) :
    ∃ names, names ≠ [] ∧ ValidNames names ∧ path = render slash names := by
  unfold canonicalArchivePath at accepted
  split at accepted
  · cases accepted
  · obtain ⟨names, nonempty, valid, rfl⟩ :=
      @archiveComponents_ok [] [] path name List.not_mem_nil accepted
    exact ⟨names, nonempty, valid, by rw [render_of_ne_nil nonempty, List.nil_append]⟩

/-! ### Parents -/

/-- The path of the directory that a node is in. -/
def parentOf (path : List UInt8) : List UInt8 := render slash (components slash path).dropLast

def nameOf (path : List UInt8) : List UInt8 := (components slash path).getLastD []

/-- The paths above a path, from the root on. -/
def ancestors (path : List UInt8) : List (List UInt8) :=
  (List.range (components slash path).length).map fun count =>
    render slash ((components slash path).take count)

variable {names : List (List UInt8)} {name : List UInt8}

theorem mem_ancestors (valid : ValidNames names) : path ∈ ancestors (render slash names) ↔
      ∃ front back, names = front ++ back ∧ back ≠ [] ∧ path = render slash front := by
  rw [ancestors, components_render valid.clean, List.mem_map]
  constructor
  · rintro ⟨count, inside, rfl⟩
    refine ⟨names.take count, names.drop count, (List.take_append_drop ..).symm, ?_, rfl⟩
    simpa using inside
  · rintro ⟨front, back, rfl, nonempty, rfl⟩
    have positive := List.length_pos_iff.mpr nonempty
    refine ⟨front.length, List.mem_range.mpr ?_, by rw [List.take_left]⟩
    rw [List.length_append]
    omega

theorem parentOf_render (valid : ValidNames (names ++ [name])) :
    parentOf (render slash (names ++ [name])) = render slash names := by
  rw [parentOf, components_render valid.clean, List.dropLast_concat]

theorem nameOf_render (valid : ValidNames (names ++ [name])) :
    nameOf (render slash (names ++ [name])) = name := by
  rw [nameOf, components_render valid.clean, List.getLastD_concat]

theorem validateAbsolutePath_render (valid : ValidNames names) :
    validateAbsolutePath (render slash names) = .ok () := by
  refine if_neg ?_
  rintro (empty | head | ⟨long, last⟩)
  · have head := @head?_render UInt8 slash names
    rw [empty] at head
    cases head
  · exact head (head?_render names)
  · cases names using List.reverseRecOn with
    | nil => exact absurd long (by decide)
    | append_singleton names name =>
      obtain ⟨nonempty, plain⟩ := (valid name (by simp)).1
      rw [render_concat, List.getLast?_append, List.getLast?_cons] at last
      obtain ⟨final, found⟩ :=
        Option.ne_none_iff_exists'.mp (List.getLast?_eq_none_iff.not.mpr nonempty)
      rw [found] at last
      have same : final = slash := by simpa using last
      exact plain (same ▸ List.mem_of_getLast? found)

theorem parentPath_render (valid : ValidNames (names ++ [name])) :
    parentPath (render slash (names ++ [name])) = .ok (render slash names) := by
  have plain := (valid name (by simp)).1.2
  rw [parentPath, validateAbsolutePath_render valid, ok_bind, render_concat,
    rposition_append _ plain]
  cases names with
  | nil => rfl
  | cons first rest =>
    dsimp only
    rw [if_neg (by simp [body_cons]), List.take_left, render_of_ne_nil (by simp)]

theorem basename_render (valid : ValidNames (names ++ [name])) :
    basename (render slash (names ++ [name])) = .ok name := by
  obtain ⟨nonempty, plain⟩ := (valid name (by simp)).1
  have tail : (body slash names ++ slash :: name).drop ((body slash names).length + 1) = name := by
    simp
  rw [basename, validateAbsolutePath_render valid, ok_bind, render_concat, rposition_append _ plain]
  dsimp only
  rw [tail, if_neg nonempty]

/-- The paths at the separators are those above the path. -/
theorem mem_parentPaths (valid : ValidNames names) :
    path ∈ rootPath :: parentPaths (render slash names) ↔
      path = rootPath ∨ path ∈ ancestors (render slash names) := by
  rw [mem_ancestors valid, List.mem_cons]
  cases names with
  | nil => simp [parentPaths]
  | cons first rest =>
    rw [render_of_ne_nil (by simp), parentPaths, List.mem_filterMap]
    constructor
    · rintro (root | ⟨cursor, inside, cut⟩)
      · exact .inl root
      · split at cut
        · next found =>
          cases cut
          obtain ⟨front, back, split, nonempty, rfl⟩ := (getElem?_body_eq_sep valid.clean).mp found
          refine .inr ⟨front, back, split, nonempty, ?_⟩
          have some_front : front ≠ [] := by
            rintro rfl
            simp at inside
          rw [split, body_append, List.take_left, render_of_ne_nil some_front]
        · cases cut
    · rintro (root | ⟨front, back, split, nonempty, rfl⟩)
      · exact .inl root
      · by_cases top : front = []
        · rw [top]
          exact .inl rfl
        · have found := (getElem?_body_eq_sep valid.clean).mpr ⟨front, back, split, nonempty, rfl⟩
          refine .inr ⟨_, ?_, by rw [if_pos found, split, body_append, List.take_left,
            render_of_ne_nil top]⟩
          have bound := (List.getElem?_eq_some_iff.mp found).1
          have positive : 0 < (body slash front).length := by
            cases front with
            | nil => exact absurd rfl top
            | cons => simp [body_cons]
          rw [List.mem_range'_1]
          omega

/-! ### Archives -/

/-- An entry of an archive: a file with its data, or a directory. -/
structure ArchiveEntry where
  path : List UInt8
  canonical : ∃ name, canonicalArchivePath name = .ok path
  data : Option (List UInt8)

theorem ArchiveEntry.exists_names (entry : ArchiveEntry) :
    ∃ names, names ≠ [] ∧ ValidNames names ∧ entry.path = render slash names :=
  entry.canonical.elim fun _ accepted => canonicalArchivePath_ok accepted

def filesOf (entries : List ArchiveEntry) : List RamFile :=
  entries.filterMap fun entry => entry.data.map fun data => ⟨entry.path, data⟩

def dirsOf (entries : List ArchiveEntry) : List (List UInt8) :=
  (entries.filter (·.data.isNone)).map (·.path)

/-- No node appears twice and no file is used as a directory. -/
def Mountable (entries : List ArchiveEntry) : Prop :=
  (entries.map (·.path)).Nodup ∧
    ∀ file ∈ entries, file.data ≠ none → ∀ entry ∈ entries, file.path ∉ ancestors entry.path

/-- The directories: the root, those of the archive, and what is above its entries. -/
def IsDirectory (entries : List ArchiveEntry) (path : List UInt8) : Prop :=
  path = rootPath ∨ (∃ entry ∈ entries, entry.data = none ∧ entry.path = path) ∨
    ∃ entry ∈ entries, path ∈ ancestors entry.path

theorem mem_filesOf : path ∈ (filesOf entries).map (·.path) ↔
      ∃ entry ∈ entries, entry.data ≠ none ∧ entry.path = path := by
  simp only [filesOf, List.mem_map, List.mem_filterMap, Option.map_eq_some_iff]
  constructor
  · rintro ⟨_, ⟨entry, member, data, given, rfl⟩, rfl⟩
    exact ⟨entry, member, by simp [given], rfl⟩
  · rintro ⟨entry, member, given, rfl⟩
    obtain ⟨data, given⟩ := Option.ne_none_iff_exists'.mp given
    exact ⟨_, ⟨entry, member, data, given, rfl⟩, rfl⟩

theorem mem_dirsOf :
    path ∈ dirsOf entries ↔ ∃ entry ∈ entries, entry.data = none ∧ entry.path = path := by
  simp [dirsOf, and_assoc]

/-- The entries are the files and the directories. -/
theorem paths_perm (entries : List ArchiveEntry) :
    ((filesOf entries).map (·.path) ++ dirsOf entries).Perm (entries.map (·.path)) := by
  induction entries with
  | nil => exact .nil
  | cons entry rest ih =>
    cases given : entry.data with
    | none =>
      have shape : (filesOf (entry :: rest)).map (·.path) ++ dirsOf (entry :: rest) =
          (filesOf rest).map (·.path) ++ entry.path :: dirsOf rest := by
        simp [filesOf, dirsOf, given]
      rw [shape]
      exact List.perm_middle.trans (ih.cons _)
    | some data =>
      have shape : (filesOf (entry :: rest)).map (·.path) ++ dirsOf (entry :: rest) =
          entry.path :: ((filesOf rest).map (·.path) ++ dirsOf rest) := by
        simp [filesOf, dirsOf, given]
      rw [shape]
      exact ih.cons _

theorem valid_of_path (listed : path ∈ (filesOf entries).map (·.path) ∨ path ∈ dirsOf entries) :
    ∃ names, names ≠ [] ∧ ValidNames names ∧ path = render slash names := by
  rcases listed with file | dir
  · obtain ⟨entry, -, -, rfl⟩ := mem_filesOf.mp file
    exact entry.exists_names
  · obtain ⟨entry, -, -, rfl⟩ := mem_dirsOf.mp dir
    exact entry.exists_names

/-- Files clash with directories if one is named twice or used as a directory. -/
theorem mountable_iff (entries : List ArchiveEntry) :
    Mountable entries ↔ ((filesOf entries).map (·.path)).Nodup ∧ (dirsOf entries).Nodup ∧
      ∀ path ∈ (filesOf entries).map (·.path), ¬ IsDirectory entries path := by
  rw [Mountable, ← (paths_perm entries).nodup_iff, List.nodup_append']
  have rooted : ∀ path ∈ (filesOf entries).map (·.path), path ≠ rootPath := by
    intro path file
    obtain ⟨names, nonempty, valid, rfl⟩ := valid_of_path (.inl file)
    exact fun same => nonempty (render_injective valid.clean (by simp) same)
  constructor
  · rintro ⟨⟨files, dirs, apart⟩, unused⟩
    refine ⟨files, dirs, fun path file => ?_⟩
    rintro (root | dir | ⟨entry, member, above⟩)
    · exact rooted path file root
    · exact apart file (mem_dirsOf.mpr dir)
    · obtain ⟨owner, inside, given, rfl⟩ := mem_filesOf.mp file
      exact unused owner inside given entry member above
  · rintro ⟨files, dirs, clear⟩
    refine ⟨⟨files, dirs, fun path file dir => ?_⟩, fun owner inside given entry member above => ?_⟩
    · exact clear path file (.inr (.inl (mem_dirsOf.mp dir)))
    · exact clear _ (mem_filesOf.mpr ⟨owner, inside, given, rfl⟩)
        (.inr (.inr ⟨entry, member, above⟩))

theorem bytesKey_injective : Function.Injective bytesKey :=
  List.map_injective_iff.mpr fun _ _ same => UInt8.toNat_inj.mp same

/-- The paths that are pushed for an entry. -/
theorem mem_pushed (entry : ArchiveEntry) :
    path ∈ rootPath :: parentPaths entry.path ↔ path = rootPath ∨ path ∈ ancestors entry.path := by
  obtain ⟨names, -, valid, same⟩ := entry.exists_names
  rw [same]
  exact mem_parentPaths valid

/-- The index has exactly the directories, in order and without repetitions. -/
theorem directoryPaths_ok (entries : List ArchiveEntry) :
    ∃ paths, MountedRamfs.directoryPaths (sortBy (fun file => bytesKey file.path) (filesOf entries))
        (sortBy bytesKey (dirsOf entries)) = .ok paths ∧
      StrictlySorted bytesKey paths ∧ ∀ path, path ∈ paths ↔ IsDirectory entries path := by
  have dirs : ∀ list, ∀ path ∈ sortBy bytesKey (dirsOf entries),
      pushDirWithParents list path = .ok (list ++ (rootPath :: parentPaths path ++ [path])) := by
    intro list path member
    obtain ⟨names, -, valid, rfl⟩ := valid_of_path (.inr (mem_sortBy.mp member))
    rw [pushDirWithParents, pushParentDirs, validateAbsolutePath_render valid, ok_bind, ok_bind]
    exact congrArg Except.ok (List.append_assoc ..)
  have files : ∀ list, ∀ file ∈ sortBy (fun file => bytesKey file.path) (filesOf entries),
      pushParentDirs list file.path = .ok (list ++ (rootPath :: parentPaths file.path)) := by
    intro list file member
    obtain ⟨names, -, valid, same⟩ :=
      valid_of_path (.inl (List.mem_map_of_mem (mem_sortBy.mp member)))
    rw [same, pushParentDirs, validateAbsolutePath_render valid, ok_bind]
    rfl
  have run := foldlM_append files
    ([rootPath] ++ (sortBy bytesKey (dirsOf entries)).flatMap fun path =>
      rootPath :: parentPaths path ++ [path])
  generalize collected : [rootPath] ++ _ ++ _ = pushed at run
  refine ⟨dropRepeats (sortBy bytesKey pushed), ?_,
    strictlySorted_dropRepeats bytesKey_injective (sorted_sortBy _), fun path => ?_⟩
  · rw [MountedRamfs.directoryPaths, foldlM_append dirs, ok_bind, run, ok_bind]
    rfl
  · rw [mem_dropRepeats, mem_sortBy, ← collected, List.mem_append, List.mem_append,
      List.mem_singleton, List.mem_flatMap, List.mem_flatMap]
    simp only [mem_sortBy]
    constructor
    · rintro ((root | ⟨dir, member, pushed⟩) | ⟨file, member, pushed⟩)
      · exact .inl root
      · obtain ⟨entry, inside, none_given, rfl⟩ := mem_dirsOf.mp member
        rcases List.mem_append.mp pushed with above | self
        · exact ((mem_pushed entry).mp above).imp_right fun above => .inr ⟨entry, inside, above⟩
        · exact .inr (.inl ⟨entry, inside, none_given, (List.mem_singleton.mp self).symm⟩)
      · obtain ⟨entry, inside, -, same⟩ := mem_filesOf.mp (List.mem_map_of_mem member)
        rw [← same] at pushed
        exact ((mem_pushed entry).mp pushed).imp_right fun above => .inr ⟨entry, inside, above⟩
    · rintro (root | ⟨entry, inside, none_given, rfl⟩ | ⟨entry, inside, above⟩)
      · exact .inl (.inl root)
      · exact .inl (.inr ⟨_, mem_dirsOf.mpr ⟨entry, inside, none_given, rfl⟩, by simp⟩)
      · have pushed := (mem_pushed entry).mpr (.inr above)
        cases given : entry.data with
        | none =>
          exact .inl (.inr ⟨_, mem_dirsOf.mpr ⟨entry, inside, given, rfl⟩,
            List.mem_append_left _ pushed⟩)
        | some data =>
          have file : (⟨entry.path, data⟩ : RamFile) ∈ filesOf entries :=
            List.mem_filterMap.mpr ⟨entry, inside, by rw [given]; rfl⟩
          exact .inr ⟨_, file, pushed⟩

end Genrt.Fs
