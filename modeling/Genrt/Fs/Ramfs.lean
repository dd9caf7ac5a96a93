import Genrt.Foundation.Result
import Genrt.Foundation.SlashPath
import Genrt.Foundation.Sorting

/-!
# The mounted file system

The kernel mounts one read-only file system at boot. It is an index over the files and
directories of an archive: a list of files, a list of directories and, for every directory,
the list of its immediate children. Directories that the archive does not name are added for
the paths below them. A position in one of the two lists is what the rest of the kernel
holds on to.

Running out of kernel memory is not modelled.
-/

namespace Genrt.Fs

open SlashPath Sorting

/-- The byte `/`. -/
def slash : UInt8 := 0x2f

def rootPath : List UInt8 := [slash]

/-- Byte strings are compared byte by byte. -/
def bytesKey (bytes : List UInt8) : List Nat := bytes.map UInt8.toNat

structure RamFile where
  path : List UInt8
  data : List UInt8
deriving DecidableEq, Repr

inductive DirEntryKind where
  | file
  | directory
deriving DecidableEq, Repr

structure RamDirEntry where
  name : List UInt8
  kind : DirEntryKind
  ino : Nat
deriving DecidableEq, Repr

structure RamDir where
  path : List UInt8
  entries : List RamDirEntry
deriving DecidableEq, Repr

structure MountedRamfs where
  files : List RamFile
  dirs : List RamDir
deriving DecidableEq, Repr

inductive MountError where
  | alreadyMounted
  | duplicatePath
  | invalidPath
  | outOfMemory
deriving DecidableEq, Repr

/-! ### Paths -/

def validateAbsolutePath (path : List UInt8) : Except MountError Unit :=
  if path = [] ∨ path.head? ≠ some slash ∨ (1 < path.length ∧ path.getLast? = some slash) then
    .error .invalidPath
  else .ok ()

def parentPath (path : List UInt8) : Except MountError (List UInt8) := do
  validateAbsolutePath path
  match rposition slash path with
  | none => .error .invalidPath
  | some position => .ok (if position = 0 then rootPath else path.take position)

def basename (path : List UInt8) : Except MountError (List UInt8) := do
  validateAbsolutePath path
  match rposition slash path with
  | none => .error .invalidPath
  | some position =>
    let name := path.drop (position + 1)
    if name = [] then .error .invalidPath else .ok name

/-- The paths in front of the separators of a path, but the first one. -/
def parentPaths (path : List UInt8) : List (List UInt8) :=
  (List.range' 1 (path.length - 1)).filterMap fun cursor =>
    if path[cursor]? = some slash then some (path.take cursor) else none

def pushParentDirs (dirs : List (List UInt8)) (path : List UInt8) :
    Except MountError (List (List UInt8)) := do
  validateAbsolutePath path
  pure (dirs ++ rootPath :: parentPaths path)

def pushDirWithParents (dirs : List (List UInt8)) (path : List UInt8) :
    Except MountError (List (List UInt8)) := do
  validateAbsolutePath path
  let dirs ← pushParentDirs dirs path
  pure (dirs ++ [path])

/-! ### Checks -/

/-- No two neighbours of a list have the same key. -/
def rejectDuplicates {α : Type} (key : α → List UInt8) (items : List α) : Except MountError Unit :=
  if neighboursDiffer (fun item => bytesKey (key item)) items then .ok ()
  else .error .duplicatePath

def rejectDuplicateFiles (files : List RamFile) : Except MountError Unit :=
  rejectDuplicates (·.path) files

def rejectDuplicatePaths (paths : List (List UInt8)) : Except MountError Unit :=
  rejectDuplicates id paths

def rejectDuplicateDirEntries (entries : List RamDirEntry) : Except MountError Unit :=
  rejectDuplicates (·.name) entries

def rejectFileDirConflicts (files : List RamFile) (dirs : List (List UInt8)) :
    Except MountError Unit :=
  if files.any fun file => dirs.contains file.path then .error .duplicatePath else .ok ()

/-! ### The index -/

def fileIno (index : Nat) : Nat := 1 + index

def dirIno (index : Nat) : Nat := 0x80000000 + index

namespace MountedRamfs

def lookupFile (fs : MountedRamfs) (path : List UInt8) : Option Nat :=
  fs.files.findIdx? (·.path = path)

def lookupDir (fs : MountedRamfs) (path : List UInt8) : Option Nat :=
  fs.dirs.findIdx? (·.path = path)

def appendDirEntry (fs : MountedRamfs) (parentIndex : Nat) (entry : RamDirEntry) : MountedRamfs :=
  { fs with dirs := fs.dirs.modify parentIndex fun dir =>
    { dir with entries := dir.entries ++ [entry] } }

/-- A round of the loops of `populate_dir_entries`: a node goes to the list of its parent. -/
def listNode (fs : MountedRamfs) (path : List UInt8) (kind : DirEntryKind) (ino : Nat) :
    Except MountError MountedRamfs := do
  let parent ← parentPath path
  match fs.lookupDir parent with
  | none => .error .invalidPath
  | some parentIndex => do
      let name ← basename path
      pure (fs.appendDirEntry parentIndex ⟨name, kind, ino⟩)

def listFile (fs : MountedRamfs) (file : RamFile × Nat) : Except MountError MountedRamfs :=
  fs.listNode file.1.path .file (fileIno file.2)

def listDir (fs : MountedRamfs) (dir : RamDir × Nat) : Except MountError MountedRamfs :=
  if dir.1.path = rootPath then .ok fs else fs.listNode dir.1.path .directory (dirIno dir.2)

/-- A round of the last loop of `populate_dir_entries`. -/
def sortEntries (dir : RamDir) : Except MountError RamDir := do
  let entries := sortBy (fun entry => bytesKey entry.name) dir.entries
  rejectDuplicateDirEntries entries
  pure { dir with entries := entries }

def populateDirEntries (fs : MountedRamfs) : Except MountError MountedRamfs := do
  let fs ← fs.files.zipIdx.foldlM listFile fs
  let fs ← fs.dirs.zipIdx.foldlM listDir fs
  let dirs ← fs.dirs.mapM sortEntries
  pure { fs with dirs := dirs }

/-- The directories that the archive names, and those above its entries. -/
def directoryPaths (files : List RamFile) (explicitDirs : List (List UInt8)) :
    Except MountError (List (List UInt8)) := do
  let dirs ← explicitDirs.foldlM pushDirWithParents [rootPath]
  let dirs ← files.foldlM (fun dirs file => pushParentDirs dirs file.path) dirs
  pure (dropRepeats (sortBy bytesKey dirs))

def new (files : List RamFile) (explicitDirs : List (List UInt8)) :
    Except MountError MountedRamfs := do
  let files := sortBy (fun file => bytesKey file.path) files
  rejectDuplicateFiles files
  explicitDirs.forM validateAbsolutePath
  let explicitDirs := sortBy bytesKey explicitDirs
  rejectDuplicatePaths explicitDirs
  let dirPaths ← directoryPaths files explicitDirs
  rejectFileDirConflicts files dirPaths
  populateDirEntries ⟨files, dirPaths.map fun path => ⟨path, []⟩⟩

/-- `dir_path` of the mounted file system. -/
def dirPath (fs : MountedRamfs) (dirIndex : Nat) : Option (List UInt8) :=
  (fs.dirs[dirIndex]?).map (·.path)

end MountedRamfs

end Genrt.Fs
