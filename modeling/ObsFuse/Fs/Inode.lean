import ObsFuse.Fs.Path

/-! # Inodes and attributes (src/fs/inode.rs, src/fs/attr.rs) -/

namespace ObsFuse
open Lib

inductive FileKind where
  | regularFile
  | directory
  | symlink
  | blockDevice
  | charDevice
  | namedPipe
  | socket
  deriving DecidableEq, Repr

structure FixedPermission where
  uid : ℕ
  gid : ℕ
  fileMode : ℕ
  dirMode : ℕ
  deriving DecidableEq, Repr

inductive PermissionMode where
  | fixed
  | preserved
  deriving DecidableEq, Repr

structure PermissionConfig where
  mode : PermissionMode
  fixed : FixedPermission
  deriving DecidableEq, Repr

structure FileAttr where
  ino : ℕ
  size : ℕ
  blocks : ℕ
  atime : SystemTime
  mtime : SystemTime
  ctime : SystemTime
  crtime : SystemTime
  kind : FileKind
  perm : ℕ
  nlink : ℕ
  uid : ℕ
  gid : ℕ
  rdev : ℕ
  blksize : ℕ
  flags : ℕ
  deriving DecidableEq, Repr

namespace FileAttr

def directory (now : SystemTime) (ino uid gid mode : ℕ) : FileAttr where
  ino := ino
  size := 4096
  blocks := 8
  atime := now
  mtime := now
  ctime := now
  crtime := now
  kind := .directory
  perm := mode &&& 0o7777
  nlink := 2
  uid := uid
  gid := gid
  rdev := 0
  blksize := 4096
  flags := 0

def file (now : SystemTime) (ino size uid gid mode : ℕ) : FileAttr where
  ino := ino
  size := size
  blocks := u64 (size + 511) / 512
  atime := now
  mtime := now
  ctime := now
  crtime := now
  kind := .regularFile
  perm := mode &&& 0o7777
  nlink := 1
  uid := uid
  gid := gid
  rdev := 0
  blksize := 4096
  flags := 0

end FileAttr

structure InodeEntry where
  path : Str
  attr : FileAttr
  isDir : Bool
  children : Option (List ℕ)
  cachedAt : Instant
  refCount : ℕ
  deriving DecidableEq, Repr

def rootInode : ℕ := 1

structure InodeManager where
  pathToInode : Table Str ℕ
  inodeToEntry : Table ℕ InodeEntry
  nextInode : ℕ
  permissionConfig : PermissionConfig

namespace InodeManager

def new (now : Now) (config : PermissionConfig) : InodeManager :=
  let attr := FileAttr.directory now.system rootInode config.fixed.uid config.fixed.gid
    config.fixed.dirMode
  let entry : InodeEntry := ⟨[], attr, true, none, now.instant, 1⟩
  { pathToInode := AList.insert [] rootInode ∅
    inodeToEntry := AList.insert rootInode entry ∅
    nextInode := rootInode + 1
    permissionConfig := config }

def getOrCreateInode (m : InodeManager) (now : Now) (path : Str) (isDir : Bool) (size : ℕ) :
    ℕ × InodeManager :=
  let normalized := normalizePath path
  match m.pathToInode.lookup normalized with
  | some inode => (inode, m)
  | none =>
    let inode := m.nextInode
    let fixed := m.permissionConfig.fixed
    let attr :=
      if isDir then FileAttr.directory now.system inode fixed.uid fixed.gid fixed.dirMode
      else FileAttr.file now.system inode size fixed.uid fixed.gid fixed.fileMode
    let entry : InodeEntry := ⟨normalized, attr, isDir, none, now.instant, 0⟩
    (inode, { m with
      pathToInode := m.pathToInode.insert normalized inode
      inodeToEntry := m.inodeToEntry.insert inode entry
      nextInode := u64 (m.nextInode + 1) })

def getInode (m : InodeManager) (path : Str) : Option ℕ :=
  m.pathToInode.lookup (normalizePath path)

def getEntry (m : InodeManager) (inode : ℕ) : Option InodeEntry := m.inodeToEntry.lookup inode

def getPath (m : InodeManager) (inode : ℕ) : Option Str :=
  (m.inodeToEntry.lookup inode).map (·.path)

def updateAttr (m : InodeManager) (now : Now) (inode : ℕ) (f : FileAttr → FileAttr) :
    InodeManager :=
  { m with inodeToEntry := m.inodeToEntry.modify inode fun entry =>
      { entry with attr := f entry.attr, cachedAt := now.instant } }

def updateSize (m : InodeManager) (now : Now) (inode size : ℕ) : InodeManager :=
  m.updateAttr now inode fun attr =>
    { attr with size := size, blocks := u64 (size + 511) / 512, mtime := now.system }

def updateMtime (m : InodeManager) (now : Now) (inode : ℕ) (mtime : SystemTime) : InodeManager :=
  m.updateAttr now inode fun attr => { attr with mtime := mtime }

def setChildren (m : InodeManager) (now : Now) (inode : ℕ) (children : List ℕ) : InodeManager :=
  { m with inodeToEntry := m.inodeToEntry.modify inode fun entry =>
      { entry with children := some children, cachedAt := now.instant } }

def remove (m : InodeManager) (inode : ℕ) : InodeManager :=
  match m.inodeToEntry.lookup inode with
  | some entry =>
    { m with
      inodeToEntry := m.inodeToEntry.erase inode
      pathToInode := m.pathToInode.erase entry.path }
  | none => m

def removeByPath (m : InodeManager) (path : Str) : InodeManager :=
  match m.pathToInode.lookup (normalizePath path) with
  | some inode =>
    { m with
      pathToInode := m.pathToInode.erase (normalizePath path)
      inodeToEntry := m.inodeToEntry.erase inode }
  | none => m

def rename (m : InodeManager) (now : Now) (oldPath newPath : Str) : InodeManager :=
  let oldNormalized := normalizePath oldPath
  let newNormalized := normalizePath newPath
  match m.pathToInode.lookup oldNormalized with
  | some inode =>
    { m with
      pathToInode := (m.pathToInode.erase oldNormalized).insert newNormalized inode
      inodeToEntry := m.inodeToEntry.modify inode fun entry =>
        { entry with path := newNormalized, cachedAt := now.instant } }
  | none => m

def invalidate (m : InodeManager) (now : Now) (inode : ℕ) : InodeManager :=
  { m with inodeToEntry := m.inodeToEntry.modify inode fun entry =>
      { entry with cachedAt := now.instant - 3600 * 10 ^ 9, children := none } }

@[simp] theorem getPath_updateAttr (m : InodeManager) (now : Now) (i j : ℕ)
    (f : FileAttr → FileAttr) : (m.updateAttr now i f).getPath j = m.getPath j := by
  simp only [getPath, updateAttr, Table.lookup_modify]
  split
  · next h =>
    subst h
    cases AList.lookup j m.inodeToEntry <;> rfl
  · rfl

@[simp] theorem getPath_updateSize (m : InodeManager) (now : Now) (i j size : ℕ) :
    (m.updateSize now i size).getPath j = m.getPath j :=
  getPath_updateAttr ..

@[simp] theorem getPath_setChildren (m : InodeManager) (now : Now) (i j : ℕ) (cs : List ℕ) :
    (m.setChildren now i cs).getPath j = m.getPath j := by
  simp only [getPath, setChildren, Table.lookup_modify]
  split
  · next h =>
    subst h
    cases AList.lookup j m.inodeToEntry <;> rfl
  · rfl

end InodeManager

end ObsFuse
