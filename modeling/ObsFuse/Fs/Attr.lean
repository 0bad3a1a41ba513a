import ObsFuse.Fs.Inode
import ObsFuse.Storage.Obs

/-! # Attributes from object metadata (src/fs/attr.rs)

The configuration stands for the builder that holds a reference to it. -/

namespace ObsFuse

namespace PermissionConfig

/-- `AttrBuilder::get_permissions`; the preserved mode falls back to the fixed values. -/
def getPermissions (config : PermissionConfig) (info : ObjectMeta) : ℕ × ℕ × ℕ :=
  match config.mode with
  | .fixed =>
    let mode := if info.isDir then config.fixed.dirMode else config.fixed.fileMode
    (config.fixed.uid, config.fixed.gid, mode)
  | .preserved =>
    let mode := if info.isDir then config.fixed.dirMode else config.fixed.fileMode
    (config.fixed.uid, config.fixed.gid, mode)

def fromObjectMeta (config : PermissionConfig) (now : Now) (inode : ℕ) (info : ObjectMeta) :
    FileAttr :=
  let (uid, gid, mode) := config.getPermissions info
  let mtime := info.lastModified.getD now.system
  if info.isDir then
    { FileAttr.directory now.system inode uid gid mode with
      mtime := mtime, atime := mtime, ctime := mtime }
  else
    { FileAttr.file now.system inode info.size uid gid mode with
      mtime := mtime, atime := mtime, ctime := mtime }

def newFile (config : PermissionConfig) (now : Now) (inode : ℕ) (mode : Option ℕ) : FileAttr :=
  FileAttr.file now.system inode 0 config.fixed.uid config.fixed.gid
    (mode.getD config.fixed.fileMode)

def newDirectory (config : PermissionConfig) (now : Now) (inode : ℕ) (mode : Option ℕ) :
    FileAttr :=
  FileAttr.directory now.system inode config.fixed.uid config.fixed.gid
    (mode.getD config.fixed.dirMode)

end PermissionConfig

structure SetAttrFlags where
  mode : Option ℕ
  uid : Option ℕ
  gid : Option ℕ
  size : Option ℕ
  atime : Option SystemTime
  mtime : Option SystemTime
  ctime : Option SystemTime
  deriving DecidableEq, Repr

def SetAttrFlags.apply (flags : SetAttrFlags) (attr : FileAttr) : FileAttr :=
  { attr with
    perm := (flags.mode.map (· &&& 0o7777)).getD attr.perm
    uid := flags.uid.getD attr.uid
    gid := flags.gid.getD attr.gid
    size := flags.size.getD attr.size
    blocks := (flags.size.map fun size => u64 (size + 511) / 512).getD attr.blocks
    atime := flags.atime.getD attr.atime
    mtime := flags.mtime.getD attr.mtime
    ctime := flags.ctime.getD attr.ctime }

end ObsFuse
